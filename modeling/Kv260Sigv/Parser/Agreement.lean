import Kv260Sigv.Parser.Recognition
import Kv260Sigv.Parser.Simulation

/-!
# Where the two transaction parsers agree

Both parsers scan a transaction the same way, and `parse_transaction` then
compares the signature count with the header byte.  The reference compares the
two numbers; the daemon compares the byte with the low eight bits of the count.
So the parsers agree, and the daemon's key lookup stays in range, exactly when
the bytes are no transaction with 256 signatures or more whose count has the
header byte as its low byte.
-/

namespace Kv260Sigv

open Grammar Reader

/-! ### The common scan -/

/-- What the daemon has read when it compares the counts. -/
def Daemon.scan (transactionBytes : Bytes) :
    Daemon.Parse (UInt16 × List (FixedBytes 64) × Bytes × Daemon.ParsedMessage) := do
  let (numSignatures, offset) ← Daemon.decodeCompactU16 transactionBytes 0
  let (signatures, offset) ← Outcome.iterate (Daemon.takeArray transactionBytes 64 "signature")
    numSignatures.toNat ([], offset)
  let messageBytes ← Outcome.slice transactionBytes offset transactionBytes.length
  let info ← Daemon.parseMessage messageBytes
  .ok (numSignatures, signatures, messageBytes, info)

/-- What the reference has read when it compares the counts. -/
def Reference.scan (transactionBytes : Bytes) :
    Reference.Parse (ℕ × List Bytes × Bytes × Reference.ParsedMessage) := do
  let (numSignatures, offset) ← Reference.decodeCompactU16 transactionBytes 0
  let (signatures, offset) ← Outcome.iterate (Reference.takeEntry transactionBytes 64 "signature")
    numSignatures ([], offset)
  let info ← Reference.parseMessage (transactionBytes.drop offset)
  .ok (numSignatures, signatures, transactionBytes.drop offset, info)

theorem Daemon.parseTransaction_eq (bytes : Bytes) :
    Daemon.parseTransaction bytes = (Daemon.scan bytes >>= fun s =>
      if s.1.toUInt8 ≠ s.2.2.2.numRequiredSignatures then
        Daemon.fail s!"signature count does not match message header ({s.1} != {s.2.2.2.numRequiredSignatures})"
      else if s.2.2.2.staticAccountKeys.length < s.2.2.2.numRequiredSignatures.toNat then
        Daemon.fail "not enough static account keys for signer set"
      else
        Daemon.pairJobs s.2.2.2.staticAccountKeys 0 s.2.1 >>= fun jobs =>
          .ok ⟨bytes, s.2.2.1, s.2.2.2.messageVersion, s.2.2.2.numRequiredSignatures, jobs⟩) := by
  simp only [Daemon.parseTransaction, Daemon.scan, Outcome.bind_assoc, Outcome.ok_bind]

theorem Reference.parseTransaction_eq (bytes : Bytes) :
    Reference.parseTransaction bytes = (Reference.scan bytes >>= fun s =>
      if s.1 ≠ s.2.2.2.numRequiredSignatures then
        Reference.fail s!"signature count does not match message header ({s.1} != {s.2.2.2.numRequiredSignatures})"
      else if s.2.2.2.staticAccountKeys.length < s.2.2.2.numRequiredSignatures then
        Reference.fail "not enough static account keys for signer set"
      else
        Reference.pairJobs s.2.2.2.staticAccountKeys s.2.1 s.2.2.2.numRequiredSignatures 0 >>=
          fun jobs => .ok ⟨bytes, s.2.2.1, s.2.2.2.messageVersion,
            s.2.2.2.numRequiredSignatures, jobs⟩) := by
  simp only [Reference.parseTransaction, Reference.scan, Outcome.bind_assoc, Outcome.ok_bind]

/-- The scans run in step. -/
theorem scan_inStep (data : ByteSlice) :
    Simulation.InStep
      (fun s s' => s.1.toNat = s'.1 ∧ Simulation.SameEntries 64 s.2.1 s'.2.1 ∧
        s.2.2.1 = s'.2.2.1 ∧ Simulation.SameMessage s.2.2.2 s'.2.2.2)
      (Daemon.scan data.bytes) (Reference.scan data.bytes) := by
  refine (Simulation.decodeCompactU16_inStep data.length_lt 0).bind ?_
  rintro ⟨n, o⟩ ⟨_, o'⟩ ⟨rfl, ho⟩
  refine (Outcome.Matches.iterate (Simulation.takeArray_inStep data.length_lt (by decide) _)
    n.toNat ([], o) ([], o') ⟨rfl, ho⟩).bind ?_
  rintro ⟨signatures, o⟩ ⟨signatures', o'⟩ ⟨hsignatures, rfl, ho⟩
  have hslice : (Outcome.slice data.bytes o data.bytes.length : Daemon.Parse Bytes) =
      .ok (data.bytes.drop o) := by
    rw [Outcome.slice, if_pos ⟨ho, le_rfl⟩, List.take_of_length_le (by simp)]
  have hlength : (data.bytes.drop o).length < 2 ^ 63 := by
    rw [List.length_drop]
    exact lt_of_le_of_lt (Nat.sub_le _ _) data.length_lt
  dsimp only
  rw [hslice, Outcome.ok_bind]
  refine (Simulation.parseMessage_inStep hlength).bind ?_
  intro info info' hinfo
  exact .ok ⟨rfl, hsignatures, rfl, hinfo⟩

theorem Reference.scan_ne_panic (bytes : Bytes) : Reference.scan bytes ≠ .panic := by
  have hentries : ∀ n s, Outcome.iterate (Reference.takeEntry bytes 64 "signature") n s ≠ .panic :=
    fun n s => Outcome.iterate_ne_panic (fun _ => True)
      (fun s _ => Reference.takeEntry_ne_panic bytes 64 _ s) (fun _ _ _ _ => trivial) n s trivial
  unfold Reference.scan Reference.decodeCompactU16
  simp only [ne_eq, Outcome.bind_eq_panic, Reference.decodeCompactU16Loop_ne_panic, hentries,
    Reference.parseMessage_ne_panic, false_or, reduceCtorEq, and_false, exists_false,
    not_false_eq_true]

/-- The scan returns the parts of the transaction. -/
theorem Reference.scan_ok {bytes : Bytes} {version : MessageVersion} {n required : ℕ}
    {signatures keys : List Bytes} {message : Bytes} :
    (∃ info, Reference.scan bytes = .ok (n, signatures, message, info) ∧
        info.messageVersion = version ∧ info.numRequiredSignatures = required ∧
        info.staticAccountKeys = keys) ↔
      n = signatures.length ∧ ∃ header : UInt8, header.toNat = required ∧
        IsTransaction version header signatures keys message bytes := by
  constructor
  · rintro ⟨info, hscan, hinfo⟩
    unfold Reference.scan at hscan
    simp only [Outcome.bind_eq_ok, Prod.exists] at hscan
    obtain ⟨n, o₁, hcount, signatures, o₂, hsignatures, info, hmessage, hout⟩ := hscan
    cases hout
    obtain ⟨count, hs₁, hcount⟩ :=
      (Reference.decodeCompactU16_reads bytes 0 (Nat.zero_le _) _ _).mp hcount
    have hle := hs₁.stop_le (Nat.zero_le _)
    obtain ⟨signatureBytes, hs₂, rfl, hentries⟩ :=
      (Reference.takeEntry_reads bytes 64 _ "signature" o₁ hle _ _).mp hsignatures
    obtain ⟨header, hheader, hwords⟩ := Reference.parseMessage_ok.mp ⟨info, hmessage, hinfo⟩
    have hbytes : bytes = count ++ (signatureBytes ++ bytes.drop o₂) := by
      rw [← hs₂.drop_stop, ← hs₁.drop_stop, List.drop_zero]
    exact ⟨rfl, header, hheader, count, signatureBytes, hbytes, hcount, hentries, hwords⟩
  · rintro ⟨rfl, header, hheader, count, signatureBytes, hbytes, hcount, hentries, hwords⟩
    obtain ⟨info, hmessage, hinfo⟩ := Reference.parseMessage_ok.mpr ⟨header, hheader, hwords⟩
    have hs₁ : Spans bytes 0 (0 + count.length) count :=
      ⟨signatureBytes ++ message, by rw [List.drop_zero]; exact hbytes, rfl⟩
    have hs₂ : Spans bytes (0 + count.length) (0 + count.length + signatureBytes.length)
        signatureBytes := by
      refine ⟨message, ?_, rfl⟩
      rw [hbytes, Nat.zero_add, List.drop_left]
    have hdrop : bytes.drop (0 + count.length + signatureBytes.length) = message := by
      rw [hbytes, Nat.zero_add, ← List.drop_drop, List.drop_left, List.drop_left]
    have hread := (Reference.decodeCompactU16_reads bytes 0 (Nat.zero_le _) _ _).mpr
      ⟨count, hs₁, hcount⟩
    have hentry := (Reference.takeEntry_reads bytes 64 _ "signature" _
      (hs₁.stop_le (Nat.zero_le _)) _ _).mpr ⟨signatureBytes, hs₂, rfl, hentries⟩
    refine ⟨info, ?_, hinfo⟩
    dsimp only at hentry
    simp only [Reference.scan, hread, hentry, hdrop, hmessage, Outcome.ok_bind]

/-! ### Pairing signatures with keys -/

/-- The same job, as arrays and as byte strings. -/
def SameJob (job : Daemon.VerificationJob) (job' : Reference.VerificationJob) : Prop :=
  job.index = job'.index ∧ job.pubkey.val = job'.pubkey ∧ job.signature.val = job'.signature

/-- The daemon aborts when there are fewer keys than signatures. -/
theorem Daemon.pairJobs_panic {keys : List (FixedBytes 32)} :
    ∀ (signatures : List (FixedBytes 64)) (index : ℕ), index ≤ keys.length →
      (Daemon.pairJobs keys index signatures = .panic ↔
        keys.length < index + signatures.length) := by
  intro signatures
  induction signatures with
  | nil =>
      intro index hindex
      simp only [Daemon.pairJobs, reduceCtorEq, List.length_nil, false_iff]
      omega
  | cons signature signatures ih =>
      intro index hindex
      simp only [Daemon.pairJobs, Outcome.bind_eq_panic, Outcome.index_eq_panic,
        Outcome.index_eq_ok, reduceCtorEq, and_false, exists_false, or_false, List.length_cons]
      by_cases hlt : index < keys.length
      · have hget : keys[index]? = some keys[index] := List.getElem?_eq_getElem hlt
        simp only [hget, Option.some.injEq, exists_eq_left', ih (index + 1) hlt]
        omega
      · constructor
        · intro _
          omega
        · intro _
          exact .inl (by omega)

theorem Daemon.pairJobs_ok (keys : List (FixedBytes 32)) :
    ∀ (signatures : List (FixedBytes 64)) (index : ℕ), index + signatures.length ≤ keys.length →
      ∃ jobs, Daemon.pairJobs keys index signatures = .ok jobs := by
  intro signatures
  induction signatures with
  | nil =>
      intro index _
      exact ⟨[], rfl⟩
  | cons signature signatures ih =>
      intro index hlength
      rw [List.length_cons] at hlength
      obtain ⟨jobs, hjobs⟩ := ih (index + 1) (by omega)
      have hlt : index < keys.length := by omega
      have hkey : (Outcome.index keys index : Daemon.Parse _) = .ok keys[index] := by simp [hlt]
      refine ⟨⟨index, keys[index], signature⟩ :: jobs, ?_⟩
      rw [Daemon.pairJobs, hkey, Outcome.ok_bind, hjobs, Outcome.ok_bind]

/-- With enough keys the two pairings run in step, the reference counting up to
the number of signatures. -/
theorem pairJobs_inStep (keys : List (FixedBytes 32)) (allSignatures : List Bytes) :
    ∀ (signatures : List (FixedBytes 64)) (index : ℕ),
      allSignatures.drop index = signatures.map Subtype.val →
      index + signatures.length ≤ keys.length →
      Simulation.InStep (List.Forall₂ SameJob) (Daemon.pairJobs keys index signatures)
        (Reference.pairJobs (keys.map Subtype.val) allSignatures signatures.length index) := by
  intro signatures
  induction signatures with
  | nil =>
      intro index _ _
      exact .ok .nil
  | cons signature signatures ih =>
      intro index hdrop hlength
      rw [List.length_cons] at hlength
      have hlt : index < keys.length := by omega
      have hkey : (Outcome.index keys index : Daemon.Parse _) = .ok keys[index] := by simp [hlt]
      have hkey' : (Outcome.index (keys.map Subtype.val) index : Reference.Parse Bytes) =
          .ok keys[index].val := by
        simp [hlt]
      have hsignature : (Outcome.index allSignatures index : Reference.Parse Bytes) =
          .ok signature.val := by
        have := congrArg (·[0]?) hdrop
        simpa using this
      simp only [Daemon.pairJobs, Reference.pairJobs, List.length_cons, hkey, hkey', hsignature,
        Outcome.ok_bind]
      refine (ih (index + 1) ?_ (by omega)).bind ?_
      · rw [← List.drop_drop, hdrop]
        rfl
      · intro jobs jobs' hjobs
        exact .ok (.cons ⟨rfl, rfl, rfl⟩ hjobs)

/-! ### Agreement -/

/-- The same parsed transaction, as far as a verifier uses it. -/
def SameTransaction (t : Daemon.ParsedTransaction) (t' : Reference.ParsedTransaction) : Prop :=
  t.messageBytes = t'.messageBytes ∧ t.messageVersion = t'.messageVersion ∧
    t.numRequiredSignatures.toNat = t'.numRequiredSignatures ∧
    List.Forall₂ SameJob t.jobs t'.jobs

/-- One parser accepts exactly when the other does, with the same result. -/
def ParsersAgree (bytes : Bytes) : Prop :=
  ((∃ t, Daemon.parseTransaction bytes = .ok t) ↔
      ∃ t', Reference.parseTransaction bytes = .ok t') ∧
    ∀ t t', Daemon.parseTransaction bytes = .ok t → Reference.parseTransaction bytes = .ok t' →
      SameTransaction t t'

/-- A transaction whose signature count `n ≥ 256` has the header byte as its low
byte, with at least `n` keys. -/
def NarrowedWithKeys (bytes : Bytes) : Prop :=
  ∃ version required signatures keys message,
    IsTransaction version required signatures keys message bytes ∧
    256 ≤ signatures.length ∧ required.toNat = signatures.length % 256 ∧
    signatures.length ≤ keys.length

/-- A transaction with fewer keys than signatures whose header byte is the low
byte of the signature count and does not exceed the number of keys. -/
def NarrowedWithoutKeys (bytes : Bytes) : Prop :=
  ∃ version required signatures keys message,
    IsTransaction version required signatures keys message bytes ∧
    required.toNat = signatures.length % 256 ∧
    required.toNat ≤ keys.length ∧ keys.length < signatures.length

/-- The daemon's scan, read through the grammar. -/
theorem Daemon.scan_ok (data : ByteSlice) {n : UInt16} {signatures : List (FixedBytes 64)}
    {message : Bytes} {info : Daemon.ParsedMessage}
    (h : Daemon.scan data.bytes = .ok (n, signatures, message, info)) :
    n.toNat = signatures.length ∧
      IsTransaction info.messageVersion info.numRequiredSignatures (signatures.map Subtype.val)
        (info.staticAccountKeys.map Subtype.val) message data.bytes := by
  obtain ⟨⟨_, _, _, info'⟩, hscan', rfl, rfl, rfl, hversion, hrequired, hkeys⟩ :=
    (scan_inStep data).exists_ok h
  obtain ⟨hlength, header, hheader, hwords⟩ :=
    Reference.scan_ok.mp ⟨info', hscan', rfl, rfl, rfl⟩
  have hbyte : header = info.numRequiredSignatures :=
    UInt8.toNat_inj.mp (hheader.trans hrequired.symm)
  rw [← hversion, hbyte, ← hkeys] at hwords
  exact ⟨hlength.trans (List.length_map _), hwords⟩

/-- A transaction of the grammar scans. -/
theorem Daemon.scan_of_isTransaction (data : ByteSlice) {version : MessageVersion}
    {required : UInt8} {signatures keys : List Bytes} {message : Bytes}
    (h : IsTransaction version required signatures keys message data.bytes) :
    ∃ n signatures' info, Daemon.scan data.bytes = .ok (n, signatures', message, info) ∧
      signatures'.map Subtype.val = signatures ∧ info.numRequiredSignatures = required ∧
      info.staticAccountKeys.map Subtype.val = keys := by
  obtain ⟨info', hscan', _, hrequired', hkeys'⟩ :=
    Reference.scan_ok.mpr ⟨rfl, required, rfl, h⟩
  obtain ⟨⟨n, signatures', message', info⟩, hscan, hn, hsignatures, hmessage, -, hrequired, hkeys⟩ :=
    (scan_inStep data).exists_ok' hscan'
  dsimp only at hmessage hsignatures
  subst hmessage
  exact ⟨n, signatures', info, hscan, hsignatures,
    UInt8.toNat_inj.mp (hrequired.trans hrequired'), hkeys.trans hkeys'⟩

/-- Conditions on the header byte, the number of signatures and the number of
keys of a transaction can be read off its scan: the grammar is unambiguous. -/
theorem hasCounts_iff (data : ByteSlice) {P : ℕ → ℕ → ℕ → Prop} {n : UInt16}
    {signatures : List (FixedBytes 64)} {message : Bytes} {info : Daemon.ParsedMessage}
    (h : Daemon.scan data.bytes = .ok (n, signatures, message, info)) :
    (∃ version required signatures keys message,
        IsTransaction version required signatures keys message data.bytes ∧
        P required.toNat signatures.length keys.length) ↔
      P info.numRequiredSignatures.toNat signatures.length info.staticAccountKeys.length := by
  constructor
  · rintro ⟨version, required, signatures', keys', message', hwords, hP⟩
    obtain ⟨n', s', info', hscan', hsignatures, hrequired, hkeys⟩ :=
      Daemon.scan_of_isTransaction data hwords
    rw [h] at hscan'
    cases hscan'
    rw [← hsignatures, ← hkeys, ← hrequired] at hP
    simpa using hP
  · intro hP
    refine ⟨_, _, _, _, _, (Daemon.scan_ok data h).2, ?_⟩
    simpa using hP

/-- Bytes that do not scan are no transaction. -/
theorem not_isTransaction (data : ByteSlice)
    (h : ∀ s, Daemon.scan data.bytes ≠ .ok s) {version : MessageVersion} {required : UInt8}
    {signatures keys : List Bytes} {message : Bytes} :
    ¬ IsTransaction version required signatures keys message data.bytes := by
  intro hwords
  obtain ⟨_, _, _, hscan, -⟩ := Daemon.scan_of_isTransaction data hwords
  exact h _ hscan

theorem toUInt8_ne_iff {n : UInt16} {required : UInt8} :
    n.toUInt8 ≠ required ↔ required.toNat ≠ n.toNat % 256 := by
  rw [ne_eq, ← UInt8.toNat_inj, UInt16.toNat_toUInt8, eq_comm]

section Settle

variable (data : ByteSlice) {n : UInt16} {signatures : List (FixedBytes 64)} {message : Bytes}
  {info : Daemon.ParsedMessage}
  (hscan : Daemon.scan data.bytes = .ok (n, signatures, message, info))
include hscan

/-- After the scan the daemon aborts exactly when a signature has no key. -/
theorem Daemon.parseTransaction_panic_iff :
    Daemon.parseTransaction data.bytes = .panic ↔
      info.numRequiredSignatures.toNat = signatures.length % 256 ∧
      info.numRequiredSignatures.toNat ≤ info.staticAccountKeys.length ∧
      info.staticAccountKeys.length < signatures.length := by
  have hn := (Daemon.scan_ok data hscan).1
  rw [Daemon.parseTransaction_eq, hscan, Outcome.ok_bind]
  simp only [toUInt8_ne_iff, hn]
  split
  · rename_i hne
    simp [Daemon.fail, hne]
  rename_i heq
  split
  · rename_i hlt
    simp only [Daemon.fail, reduceCtorEq, false_iff]
    omega
  rename_i hle
  simp only [Outcome.bind_eq_panic, reduceCtorEq, and_false, exists_false, or_false,
    Daemon.pairJobs_panic signatures 0 (Nat.zero_le _)]
  omega

/-- The daemon accepts when the header byte is the low byte of the count and no
key is missing. -/
theorem Daemon.parseTransaction_ok_iff {t : Daemon.ParsedTransaction} :
    Daemon.parseTransaction data.bytes = .ok t ↔
      info.numRequiredSignatures.toNat = signatures.length % 256 ∧
      ∃ jobs, Daemon.pairJobs info.staticAccountKeys 0 signatures = .ok jobs ∧
        t = ⟨data.bytes, message, info.messageVersion, info.numRequiredSignatures, jobs⟩ := by
  have hn := (Daemon.scan_ok data hscan).1
  rw [Daemon.parseTransaction_eq, hscan, Outcome.ok_bind]
  simp only [toUInt8_ne_iff, hn]
  split
  · rename_i hne
    simp [Daemon.fail, hne]
  rename_i heq
  split
  · rename_i hlt
    simp only [Daemon.fail, reduceCtorEq, false_iff]
    rintro ⟨heq, jobs, hjobs, -⟩
    -- fewer keys than the header byte, hence fewer than signatures
    have hpanic := (Daemon.pairJobs_panic signatures 0 (Nat.zero_le _)).mpr
      (show info.staticAccountKeys.length < 0 + signatures.length by
        have := Nat.mod_le signatures.length 256
        omega)
    rw [hpanic] at hjobs
    cases hjobs
  · simp only [Outcome.bind_eq_ok, Outcome.ok.injEq, not_not.mp heq, true_and]
    exact exists_congr fun jobs => and_congr_right fun _ => eq_comm

/-- The reference accepts when the header byte is the count and no key is
missing, and then the daemon returns the same transaction. -/
theorem Reference.parseTransaction_ok {t' : Reference.ParsedTransaction}
    (h : Reference.parseTransaction data.bytes = .ok t') :
    info.numRequiredSignatures.toNat = signatures.length ∧
      signatures.length ≤ info.staticAccountKeys.length ∧
      ∃ t, Daemon.parseTransaction data.bytes = .ok t ∧ SameTransaction t t' := by
  obtain ⟨⟨n', signatures', message', info'⟩, hscan', hn, hsignatures, hmessage, hversion,
    hrequired, hkeys⟩ := (scan_inStep data).exists_ok hscan
  dsimp only at hn hsignatures hmessage hversion hrequired hkeys
  have hcount := (Daemon.scan_ok data hscan).1
  rw [Reference.parseTransaction_eq, hscan', Outcome.ok_bind] at h
  dsimp only at h
  split at h
  · cases h
  rename_i heq
  split at h
  · cases h
  rename_i hle
  have hlength : info'.staticAccountKeys.length = info.staticAccountKeys.length := by
    rw [← hkeys, List.length_map]
  have hrounds : info'.numRequiredSignatures = signatures.length := by omega
  obtain ⟨jobs', hjobs', hout⟩ := Outcome.bind_eq_ok.mp h
  cases hout
  have hpair := pairJobs_inStep info.staticAccountKeys signatures' signatures 0
    hsignatures.symm (by omega)
  rw [hkeys, ← hrounds] at hpair
  obtain ⟨jobs, hjobs, hsame⟩ := hpair.exists_ok' hjobs'
  have hsmall := info.numRequiredSignatures.toNat_lt
  refine ⟨by omega, by omega, _, (Daemon.parseTransaction_ok_iff data hscan).mpr
    ⟨by omega, jobs, hjobs, rfl⟩, hmessage, hversion, hrequired, hsame⟩

/-- A transaction whose count is the header byte and has its keys is accepted by
the reference. -/
theorem Reference.parseTransaction_of_counts
    (hrequired : info.numRequiredSignatures.toNat = signatures.length)
    (hkeys : signatures.length ≤ info.staticAccountKeys.length) :
    ∃ t', Reference.parseTransaction data.bytes = .ok t' := by
  obtain ⟨⟨n', signatures', message', info'⟩, hscan', hn, hsignatures, -, -, hrequired', hkeys'⟩ :=
    (scan_inStep data).exists_ok hscan
  dsimp only at hn hsignatures hrequired' hkeys'
  have hcount := (Daemon.scan_ok data hscan).1
  have hlength : info'.staticAccountKeys.length = info.staticAccountKeys.length := by
    rw [← hkeys', List.length_map]
  obtain ⟨jobs, hjobs⟩ := Daemon.pairJobs_ok info.staticAccountKeys signatures 0
    (by omega)
  have hpair := pairJobs_inStep info.staticAccountKeys signatures' signatures 0
    hsignatures.symm (by omega)
  rw [hkeys', ← hrequired, hrequired'] at hpair
  obtain ⟨jobs', hjobs', -⟩ := hpair.exists_ok hjobs
  rw [Reference.parseTransaction_eq, hscan', Outcome.ok_bind]
  dsimp only
  rw [if_neg (by omega), if_neg (by omega), hjobs']
  exact ⟨_, rfl⟩

end Settle

/-- Without a scan neither parser accepts, and neither aborts. -/
theorem parseTransaction_of_not_scan (data : ByteSlice)
    (h : ∀ s, Daemon.scan data.bytes ≠ .ok s) :
    (∃ e, Daemon.parseTransaction data.bytes = .err e) ∧
      ∃ e', Reference.parseTransaction data.bytes = .err e' := by
  have hsafe := Reference.scan_ne_panic data.bytes
  have hstep := scan_inStep data
  rw [Daemon.parseTransaction_eq, Reference.parseTransaction_eq]
  generalize Daemon.scan data.bytes = s at *
  generalize Reference.scan data.bytes = s' at *
  cases hstep with
  | ok _ => exact absurd rfl (h _)
  | err _ => exact ⟨⟨_, rfl⟩, _, rfl⟩
  | panic => exact absurd rfl hsafe

/-! ### Transactions with 256 signatures -/

/-- A legacy transaction with 256 zero signatures, a zero header byte and the
given keys. -/
def manySignatures (keyCount : Bytes) (keys : List Bytes) : Bytes :=
  [0x80, 0x02] ++ ((List.replicate 256 (List.replicate 64 0)).flatten ++
    ([0, 0, 0] ++ (keyCount ++ (keys.flatten ++ (List.replicate 32 0 ++ [0])))))

theorem isCompactU16_0 : IsCompactU16 0 [0] :=
  @IsCompactU16.one 0 (by decide)

theorem isCompactU16_256 : IsCompactU16 256 [0x80, 0x02] :=
  @IsCompactU16.two 0x80 0x02 (by decide) (by decide)

theorem manySignatures_isTransaction {keyCount : Bytes} {keys : List Bytes}
    (hcount : IsCompactU16 keys.length keyCount) (hkeys : ∀ key ∈ keys, key.length = 32) :
    IsTransaction .legacy 0 (List.replicate 256 (List.replicate 64 0)) keys
      ([0, 0, 0] ++ (keyCount ++ (keys.flatten ++ (List.replicate 32 0 ++ [0]))))
      (manySignatures keyCount keys) := by
  refine ⟨[0x80, 0x02], _, rfl, ?_, ⟨?_, rfl⟩, ?_⟩
  · rw [List.length_replicate]
    exact isCompactU16_256
  · intro x hx
    rw [List.eq_of_mem_replicate hx, List.length_replicate]
  · refine ⟨show (0 : UInt8).toNat < 128 by decide, 0, 0, keyCount, keys.flatten, List.replicate 32 0, [0], [], ?_,
      hcount, ⟨hkeys, rfl⟩, List.length_replicate, ?_, rfl⟩
    · simp [versionPrefix]
    · exact ⟨0, [0], [], rfl, isCompactU16_0, .zero⟩

theorem length_flatten_replicate (n size : ℕ) :
    (List.replicate n (List.replicate size (0 : UInt8))).flatten.length = n * size := by
  rw [List.length_flatten, List.map_replicate, List.sum_replicate_nat, List.length_replicate]

theorem manySignatures_length (keyCount : Bytes) (n : ℕ) :
    (manySignatures keyCount (List.replicate n (List.replicate 32 0))).length =
      16422 + keyCount.length + n * 32 := by
  rw [manySignatures]
  simp only [List.length_append, length_flatten_replicate, List.length_cons, List.length_nil,
    List.length_replicate]
  omega

/-- 256 signatures, a zero header byte and `n` zero keys. -/
theorem manySignatures_replicate {keyCount : Bytes} {n : ℕ} (hcount : IsCompactU16 n keyCount) :
    IsTransaction .legacy 0 (List.replicate 256 (List.replicate 64 0))
      (List.replicate n (List.replicate 32 0))
      ([0, 0, 0] ++ (keyCount ++ ((List.replicate n (List.replicate 32 0)).flatten ++
        (List.replicate 32 0 ++ [0]))))
      (manySignatures keyCount (List.replicate n (List.replicate 32 0))) := by
  refine manySignatures_isTransaction ?_ ?_
  · rw [List.length_replicate]
    exact hcount
  · intro key hkey
    rw [List.eq_of_mem_replicate hkey, List.length_replicate]

theorem not_agree_of_narrowed (data : ByteSlice) (h : NarrowedWithKeys data.bytes) :
    ¬ ParsersAgree data.bytes := by
  rintro ⟨haccept, -⟩
  obtain ⟨_, required, _, _, message, hwords, hmany, hlow, hkeys⟩ := h
  obtain ⟨n, signatures, info, hscan, rfl, rfl, rfl⟩ := Daemon.scan_of_isTransaction data hwords
  rw [List.length_map] at hmany hlow hkeys
  rw [List.length_map] at hkeys
  obtain ⟨jobs, hjobs⟩ := Daemon.pairJobs_ok info.staticAccountKeys signatures 0
    (by omega)
  obtain ⟨t', ht'⟩ := haccept.mp
    ⟨_, (Daemon.parseTransaction_ok_iff data hscan).mpr ⟨hlow, jobs, hjobs, rfl⟩⟩
  have hcount := (Reference.parseTransaction_ok data hscan ht').1
  have hsmall := info.numRequiredSignatures.toNat_lt
  omega

/-- The two parsers agree on a byte string exactly when it is no transaction
with 256 signatures or more, as many keys, and the low byte of the signature
count in its header. -/
theorem parsersAgree_iff (data : ByteSlice) :
    ParsersAgree data.bytes ↔ ¬ NarrowedWithKeys data.bytes := by
  constructor
  · exact fun hagree hnarrow => not_agree_of_narrowed data hnarrow hagree
  intro hnarrow
  by_cases hscan : ∃ s, Daemon.scan data.bytes = .ok s
  · obtain ⟨⟨n, signatures, message, info⟩, hscan⟩ := hscan
    have hcounts := (hasCounts_iff data (P := fun required n keys =>
      256 ≤ n ∧ required = n % 256 ∧ n ≤ keys) hscan).not.mp hnarrow
    refine ⟨⟨?_, ?_⟩, ?_⟩
    · rintro ⟨t, ht⟩
      obtain ⟨hlow, jobs, hjobs, -⟩ := (Daemon.parseTransaction_ok_iff data hscan).mp ht
      have henough : signatures.length ≤ info.staticAccountKeys.length := by
        by_contra hfew
        have hpanic := (Daemon.pairJobs_panic signatures 0 (Nat.zero_le _)).mpr
          (show info.staticAccountKeys.length < 0 + signatures.length by omega)
        rw [hpanic] at hjobs
        cases hjobs
      exact Reference.parseTransaction_of_counts data hscan (by omega) henough
    · rintro ⟨t', ht'⟩
      obtain ⟨-, -, t, ht, -⟩ := Reference.parseTransaction_ok data hscan ht'
      exact ⟨t, ht⟩
    · intro t t' ht ht'
      obtain ⟨-, -, t₁, ht₁, hsame⟩ := Reference.parseTransaction_ok data hscan ht'
      cases ht.symm.trans ht₁
      exact hsame
  · obtain ⟨⟨e, he⟩, e', he'⟩ := parseTransaction_of_not_scan data
      fun s hs => hscan ⟨s, hs⟩
    simp [ParsersAgree, he, he']

/-- 256 signatures, a zero header byte and 256 keys: the daemon accepts, the
reference reports the count mismatch. -/
theorem parsers_disagree :
    ¬ ParsersAgree (manySignatures [0x80, 0x02] (List.replicate 256 (List.replicate 32 0))) := by
  have hwords := manySignatures_replicate isCompactU16_256
  have hlength := manySignatures_length [0x80, 0x02] 256
  let data : ByteSlice :=
    ⟨manySignatures [0x80, 0x02] (List.replicate 256 (List.replicate 32 0)), by
      rw [hlength]
      decide⟩
  refine not_agree_of_narrowed data ⟨_, _, _, _, _, hwords, ?_, ?_, ?_⟩
  · rw [List.length_replicate]
  · rw [List.length_replicate]
    rfl
  · rw [List.length_replicate, List.length_replicate]

/-- `parse_message`, and with it every reader it calls, never aborts. -/
theorem Daemon.parseMessage_ne_panic (data : ByteSlice) :
    Daemon.parseMessage data.bytes ≠ .panic := by
  rw [ne_eq, (Simulation.parseMessage_inStep data.length_lt).panic_iff]
  exact Reference.parseMessage_ne_panic data.bytes

/-- The daemon's parser aborts exactly on the transactions whose header byte is
the low byte of a signature count that exceeds the number of keys. -/
theorem parseTransaction_ne_panic_iff (data : ByteSlice) :
    Daemon.parseTransaction data.bytes ≠ .panic ↔ ¬ NarrowedWithoutKeys data.bytes := by
  rw [ne_eq, not_iff_not]
  by_cases hscan : ∃ s, Daemon.scan data.bytes = .ok s
  · obtain ⟨⟨n, signatures, message, info⟩, hscan⟩ := hscan
    rw [Daemon.parseTransaction_panic_iff data hscan]
    exact (hasCounts_iff data (P := fun required n keys =>
      required = n % 256 ∧ required ≤ keys ∧ keys < n) hscan).symm
  · have hnone : ∀ s, Daemon.scan data.bytes ≠ .ok s := fun s hs => hscan ⟨s, hs⟩
    obtain ⟨⟨e, he⟩, -⟩ := parseTransaction_of_not_scan data hnone
    simp only [he, reduceCtorEq, false_iff]
    rintro ⟨_, _, _, _, _, hwords, -⟩
    exact not_isTransaction data hnone hwords

/-- 256 signatures, a zero header byte and no key: the lookup of the first key
is out of range. -/
theorem parseTransaction_panics :
    Daemon.parseTransaction (manySignatures [0] (List.replicate 0 (List.replicate 32 0))) =
      .panic := by
  have hwords := manySignatures_replicate isCompactU16_0
  have hlength := manySignatures_length [0] 0
  let data : ByteSlice :=
    ⟨manySignatures [0] (List.replicate 0 (List.replicate 32 0)), by
      rw [hlength]
      decide⟩
  obtain ⟨n, signatures, info, hscan, hsignatures, hrequired, hkeys⟩ :=
    Daemon.scan_of_isTransaction data hwords
  have hcount := congrArg List.length hsignatures
  have hnokeys := congrArg List.length hkeys
  rw [List.length_map, List.length_replicate] at hcount hnokeys
  refine (Daemon.parseTransaction_panic_iff data hscan).mpr ⟨?_, ?_, ?_⟩
  · rw [hrequired, hcount]
    rfl
  · rw [hrequired]
    exact Nat.zero_le _
  · omega

end Kv260Sigv
