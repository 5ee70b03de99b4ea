import Kv260Sigv.Parser.Agreement

/-!
# What the reference parser accepts

`Grammar.IsTransaction` leaves the relation between the signature count, the header
byte and the number of keys open, because the two parsers part there.  The reference
closes it: the header byte is the number of signatures, and every signature has a key.
`Reference.parseTransaction_recognizes` says that it accepts exactly these words, and
what it returns for one.
-/

set_option autoImplicit false

namespace Kv260Sigv

open Grammar Reader

/-- A transaction whose header asks for as many signatures as there are, each with a
key of its own. -/
def Grammar.IsSignedTransaction (version : MessageVersion) (signatures keys : List Bytes)
    (message seg : Bytes) : Prop :=
  ∃ required : UInt8, IsTransaction version required signatures keys message seg ∧
    required.toNat = signatures.length ∧ signatures.length ≤ keys.length

namespace Reference

/-- The job of a signature: its key and the signature itself. -/
def Pairs (keys signatures : List Bytes) (index : ℕ) (job : VerificationJob) : Prop :=
  job.index = index ∧ keys[index]? = some job.pubkey ∧ signatures[index]? = some job.signature

/-- As long as there are keys and signatures the generator pairs them in order. -/
theorem pairJobs_pairs (keys signatures : List Bytes) :
    ∀ rounds index, index + rounds ≤ keys.length → index + rounds ≤ signatures.length →
      ∃ jobs, pairJobs keys signatures rounds index = .ok jobs ∧ jobs.length = rounds ∧
        ∀ i < rounds, ∃ job, jobs[i]? = some job ∧ Pairs keys signatures (index + i) job := by
  intro rounds
  induction rounds with
  | zero =>
      intro index _ _
      exact ⟨[], rfl, rfl, fun i hi => absurd hi (Nat.not_lt_zero i)⟩
  | succ rounds ih =>
      intro index hkeys hsignatures
      obtain ⟨jobs, hjobs, hlength, hpairs⟩ := ih (index + 1) (by omega) (by omega)
      have hkey : keys[index]? = some keys[index] := List.getElem?_eq_getElem (by omega)
      have hsignature : signatures[index]? = some signatures[index] :=
        List.getElem?_eq_getElem (by omega)
      have hpubkey : (Outcome.index keys index : Parse Bytes) = .ok keys[index] :=
        Outcome.index_eq_ok.mpr hkey
      have hsig : (Outcome.index signatures index : Parse Bytes) = .ok signatures[index] :=
        Outcome.index_eq_ok.mpr hsignature
      refine ⟨⟨index, keys[index], signatures[index]⟩ :: jobs, ?_, by rw [List.length_cons, hlength],
        ?_⟩
      · rw [pairJobs, hpubkey, Outcome.ok_bind, hsig, Outcome.ok_bind, hjobs, Outcome.ok_bind]
      · intro i hi
        cases i with
        | zero => exact ⟨_, rfl, rfl, hkey, hsignature⟩
        | succ i =>
            obtain ⟨job, hjob, hpair⟩ := hpairs i (by omega)
            refine ⟨job, hjob, ?_⟩
            rwa [Nat.add_right_comm] at hpair

/-- After the scan the reference accepts when the header byte is the count and no key is
missing, and it returns what it has scanned with the jobs paired. -/
theorem parseTransaction_of_scan {bytes message : Bytes} {n : ℕ} {signatures : List Bytes}
    {info : ParsedMessage} (hscan : scan bytes = .ok (n, signatures, message, info))
    {t : ParsedTransaction} :
    parseTransaction bytes = .ok t ↔
      n = info.numRequiredSignatures ∧
        info.numRequiredSignatures ≤ info.staticAccountKeys.length ∧
        ∃ jobs, pairJobs info.staticAccountKeys signatures info.numRequiredSignatures 0 = .ok jobs ∧
          t = ⟨bytes, message, info.messageVersion, info.numRequiredSignatures, jobs⟩ := by
  rw [parseTransaction_eq, hscan, Outcome.ok_bind]
  dsimp only
  by_cases hcount : n = info.numRequiredSignatures
  · rw [if_neg (not_not.mpr hcount)]
    by_cases hkeys : info.staticAccountKeys.length < info.numRequiredSignatures
    · rw [if_pos hkeys]
      simp only [fail, reduceCtorEq, false_iff]
      omega
    · rw [if_neg hkeys, Outcome.bind_eq_ok]
      simp only [Outcome.ok.injEq, hcount, not_lt.mp hkeys, true_and]
      exact exists_congr fun jobs => and_congr_right fun _ => eq_comm
  · rw [if_pos hcount]
    simp only [fail, reduceCtorEq, hcount, false_and]

/-- The reference accepts the signed transactions of the grammar and nothing else, keeps
the bytes behind the signatures as the message, and pairs key `i` with signature `i`. -/
theorem parseTransaction_recognizes (bytes : Bytes) :
    ((∃ t, parseTransaction bytes = .ok t) ↔
        ∃ version signatures keys message,
          IsSignedTransaction version signatures keys message bytes) ∧
      ∀ t, parseTransaction bytes = .ok t →
        ∃ signatures keys, IsSignedTransaction t.messageVersion signatures keys t.messageBytes bytes ∧
          t.jobs.length = signatures.length ∧
          ∀ i < signatures.length, ∃ job, t.jobs[i]? = some job ∧ Pairs keys signatures i job := by
  have hsound : ∀ t, parseTransaction bytes = .ok t →
      ∃ signatures keys, IsSignedTransaction t.messageVersion signatures keys t.messageBytes bytes ∧
        t.jobs.length = signatures.length ∧
        ∀ i < signatures.length, ∃ job, t.jobs[i]? = some job ∧ Pairs keys signatures i job := by
    intro t ht
    obtain ⟨⟨n, signatures, message, info⟩, hscan, -⟩ :=
      Outcome.bind_eq_ok.mp (parseTransaction_eq bytes ▸ ht)
    obtain ⟨hcount, hkeys, jobs, hjobs, rfl⟩ := (parseTransaction_of_scan hscan).mp ht
    obtain ⟨rfl, required, hrequired, hwords⟩ := scan_ok.mp ⟨info, hscan, rfl, rfl, rfl⟩
    rw [← hcount] at hrequired hkeys hjobs
    obtain ⟨jobs', hjobs', hlength, hpairs⟩ :=
      pairJobs_pairs info.staticAccountKeys signatures signatures.length 0 (by omega) (by omega)
    obtain rfl : jobs = jobs' := Outcome.ok.inj (hjobs.symm.trans hjobs')
    refine ⟨signatures, info.staticAccountKeys, ⟨required, hwords, hrequired, hkeys⟩, hlength, ?_⟩
    intro i hi
    obtain ⟨job, hjob, hpair⟩ := hpairs i hi
    rw [Nat.zero_add] at hpair
    exact ⟨job, hjob, hpair⟩
  refine ⟨⟨?_, ?_⟩, hsound⟩
  · rintro ⟨t, ht⟩
    obtain ⟨signatures, keys, hwords, -⟩ := hsound t ht
    exact ⟨_, signatures, keys, _, hwords⟩
  · rintro ⟨version, signatures, keys, message, required, hwords, hrequired, hkeys⟩
    obtain ⟨info, hscan, -, hcount, rfl⟩ := scan_ok.mpr ⟨rfl, required, rfl, hwords⟩
    obtain ⟨jobs, hjobs, -⟩ :=
      pairJobs_pairs info.staticAccountKeys signatures signatures.length 0 (by omega) (by omega)
    rw [hrequired] at hcount
    exact ⟨_, (parseTransaction_of_scan hscan).mpr
      ⟨hcount.symm, by omega, jobs, by rw [hcount]; exact hjobs, rfl⟩⟩

end Reference

end Kv260Sigv
