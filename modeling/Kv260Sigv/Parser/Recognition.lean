import Kv260Sigv.Parser.Grammar
import Kv260Sigv.Parser.Reference
import Mathlib.Tactic.NormNum
import Mathlib.Tactic.Ring

/-!
# The reference parser recognizes the grammar

Bottom up, one lemma per parser function: the function succeeds exactly on the
words of its language and returns what the word says, and it aborts nowhere
inside the buffer.
-/

namespace Kv260Sigv

open Grammar Reader

/-! ### Bytes as base-128 digits -/

theorem byte_and_7f (b : UInt8) : b.toNat &&& 0x7f = b.toNat % 128 :=
  Nat.and_two_pow_sub_one_eq_mod b.toNat 7

theorem nat_and_80 : ∀ n < 256, n &&& 0x80 = 0 ↔ n < 128 := by decide +kernel

theorem byte_and_80 (b : UInt8) : b.toNat &&& 0x80 = 0 ↔ b.toNat < 128 :=
  nat_and_80 b.toNat b.toNat_lt

/-- Adding one more digit above `s` bits. -/
theorem or_shiftLeft {value digit s : ℕ} (h : value < 2 ^ s) :
    value ||| (digit <<< s) = value + 2 ^ s * digit := by
  rw [Nat.or_comm, ← Nat.shiftLeft_add_eq_or_of_lt h, Nat.shiftLeft_eq]
  ring

namespace Reference

/-! ### The reference reader of counts -/

theorem index_drop {data : Bytes} {offset : ℕ} {b : UInt8} {rest : Bytes}
    (h : data.drop offset = b :: rest) : data[offset]? = some b := by
  have := congrArg (·[0]?) h
  simpa using this

theorem drop_succ {data : Bytes} {offset : ℕ} {b : UInt8} {rest : Bytes}
    (h : data.drop offset = b :: rest) : data.drop (offset + 1) = rest := by
  rw [← List.drop_drop, h]
  rfl

/-- One round of the loop on a buffer that still holds a byte. -/
theorem decodeCompactU16Loop_cons {data : Bytes} {rounds offset value shift : ℕ} {b : UInt8}
    {rest : Bytes} (h : data.drop offset = b :: rest) (hvalue : value < 2 ^ shift) :
    decodeCompactU16Loop data (rounds + 1) offset value shift =
      if b.toNat < 128 then
        if value + 2 ^ shift * b.toNat > 0xffff then
          fail "compact-u16 overflow"
        else
          .ok (value + 2 ^ shift * b.toNat, offset + 1)
      else
        decodeCompactU16Loop data rounds (offset + 1)
          (value + 2 ^ shift * (b.toNat % 128)) (shift + 7) := by
  have hb := index_drop h
  have hlt : ¬ offset ≥ data.length := by
    have := (List.getElem?_eq_some_iff.mp hb).1
    omega
  have hindex : (Outcome.index data offset : Parse UInt8) = .ok b := by simp [hb]
  rw [decodeCompactU16Loop, if_neg hlt, hindex, Outcome.ok_bind, byte_and_7f,
    or_shiftLeft hvalue]
  by_cases hlast : b.toNat < 128
  · rw [if_pos ((byte_and_80 b).mpr hlast), if_pos hlast, Nat.mod_eq_of_lt hlast]
  · rw [if_neg (fun h => hlast ((byte_and_80 b).mp h)), if_neg hlast]

theorem decodeCompactU16Loop_nil {data : Bytes} {rounds offset value shift : ℕ}
    (h : data.drop offset = []) :
    decodeCompactU16Loop data (rounds + 1) offset value shift =
      fail "truncated compact-u16" := by
  rw [decodeCompactU16Loop, if_pos (List.drop_eq_nil_iff.mp h)]

/-- The result of `decode_compact_u16`, by the bytes in front of it. -/
theorem decodeCompactU16_ok {data : Bytes} {offset n stop : ℕ} :
    decodeCompactU16 data offset = .ok (n, stop) ↔
      ∃ seg, Spans data offset stop seg ∧ IsCompactU16 n seg := by
  constructor
  · intro h
    unfold decodeCompactU16 at h
    rcases h₀ : data.drop offset with _ | ⟨b₀, rest₀⟩
    · rw [decodeCompactU16Loop_nil h₀] at h
      cases h
    rw [decodeCompactU16Loop_cons h₀ (by norm_num)] at h
    split at h
    · rename_i hb₀
      split at h
      · cases h
      cases h
      exact ⟨[b₀], ⟨rest₀, h₀, rfl⟩, by simpa using IsCompactU16.one hb₀⟩
    rename_i hb₀
    rcases h₁ : data.drop (offset + 1) with _ | ⟨b₁, rest₁⟩
    · rw [decodeCompactU16Loop_nil h₁] at h
      cases h
    rw [decodeCompactU16Loop_cons h₁ (by norm_num; omega)] at h
    have hrest₀ := (drop_succ h₀).symm.trans h₁
    split at h
    · rename_i hb₁
      split at h
      · cases h
      cases h
      refine ⟨[b₀, b₁], ⟨rest₁, by rw [h₀, hrest₀]; rfl, rfl⟩, ?_⟩
      simpa using IsCompactU16.two (by omega) hb₁
    rename_i hb₁
    rcases h₂ : data.drop (offset + 1 + 1) with _ | ⟨b₂, rest₂⟩
    · rw [decodeCompactU16Loop_nil h₂] at h
      cases h
    rw [decodeCompactU16Loop_cons h₂ (by norm_num; omega)] at h
    have hrest₁ := (drop_succ h₁).symm.trans h₂
    split at h
    · rename_i hb₂
      split at h
      · cases h
      rename_i hfit
      cases h
      refine ⟨[b₀, b₁, b₂], ⟨rest₂, by rw [h₀, hrest₀, hrest₁]; rfl, rfl⟩, ?_⟩
      simpa using IsCompactU16.three (by omega) (by omega) hb₂ (by norm_num at hfit ⊢; omega)
    · cases h
  · rintro ⟨seg, ⟨rest, hdrop, rfl⟩, hseg⟩
    unfold decodeCompactU16
    cases hseg with
    | @one b₀ h₀ =>
        rw [decodeCompactU16Loop_cons hdrop (by norm_num), if_pos h₀, if_neg (by norm_num; omega)]
        simp
    | @two b₀ b₁ h₀ h₁ =>
        rw [decodeCompactU16Loop_cons hdrop (by norm_num), if_neg (by omega),
          decodeCompactU16Loop_cons (drop_succ hdrop) (by norm_num; omega), if_pos h₁,
          if_neg (by norm_num; omega)]
        simp
    | @three b₀ b₁ b₂ h₀ h₁ h₂ hfit =>
        rw [decodeCompactU16Loop_cons hdrop (by norm_num), if_neg (by omega),
          decodeCompactU16Loop_cons (drop_succ hdrop) (by norm_num; omega), if_neg (by omega),
          decodeCompactU16Loop_cons (drop_succ (drop_succ hdrop)) (by norm_num; omega), if_pos h₂,
          if_neg (by norm_num; omega)]
        simp

theorem decodeCompactU16_reads (data : Bytes) :
    Reads (decodeCompactU16 data) IsCompactU16 data :=
  fun _ _ _ _ => decodeCompactU16_ok

theorem decodeCompactU16Loop_ne_panic (data : Bytes) :
    ∀ rounds offset value shift, decodeCompactU16Loop data rounds offset value shift ≠ .panic := by
  intro rounds
  induction rounds with
  | zero =>
      intro offset value shift h
      cases h
  | succ rounds ih =>
      intro offset value shift h
      rw [decodeCompactU16Loop] at h
      split at h
      · cases h
      rename_i hlt
      rw [Outcome.bind_eq_panic] at h
      rcases h with h | ⟨byte, _, h⟩
      · exact hlt (Outcome.index_eq_panic.mp h)
      dsimp only at h
      split at h
      · split at h <;> cases h
      · exact ih _ _ _ h

/-! ### Blocks and counted blocks -/

theorem take_ok {data : Bytes} {start size stop : ℕ} {label : String} {bytes : Bytes} :
    take data start size label = .ok (bytes, stop) ↔
      start + size ≤ data.length ∧ bytes = slice data start (start + size) ∧
        stop = start + size := by
  unfold take
  dsimp only
  split
  · rename_i h
    simp only [fail, reduceCtorEq, false_iff]
    omega
  · rename_i h
    simp only [Outcome.ok.injEq, Prod.mk.injEq]
    constructor
    · rintro ⟨rfl, rfl⟩
      exact ⟨by omega, rfl, rfl⟩
    · rintro ⟨_, rfl, rfl⟩
      exact ⟨rfl, rfl⟩

theorem take_reads (data : Bytes) (size : ℕ) (label : String) :
    Reads (fun start => take data start size label)
      (fun bytes seg => bytes = seg ∧ IsBlock size seg) data := by
  intro start _ bytes stop
  rw [take_ok]
  constructor
  · rintro ⟨hle, rfl, rfl⟩
    refine ⟨_, Spans.of_le (by omega) hle, rfl, ?_⟩
    simp only [IsBlock, List.length_take, List.length_drop]
    omega
  · rintro ⟨seg, hseg, rfl, hlength⟩
    have hstop := hseg.stop_eq
    rw [hlength] at hstop
    subst hstop
    exact ⟨hseg.stop_le ‹_›, hseg.seg_eq, rfl⟩

theorem take_ne_panic (data : Bytes) (start size : ℕ) (label : String) :
    take data start size label ≠ .panic := by
  unfold take
  dsimp only
  split <;> intro h <;> cases h

/-- A block, then whatever `k` skips. -/
theorem take_then {data : Bytes} {k : ℕ → Parse ℕ} {P : Bytes → Prop} (hk : Skips k P data)
    (size : ℕ) (label : String) :
    Skips (fun start => take data start size label >>= fun p => k p.2)
      (fun seg => ∃ left right, seg = left ++ right ∧ IsBlock size left ∧ P right) data := by
  have h := (take_reads data size label).bindSkip (k := fun _ => k) fun _ => hk
  intro start hstart stop
  refine (h start hstart stop).trans (exists_congr fun seg => and_congr_right fun _ => ?_)
  constructor
  · rintro ⟨_, left, right, rfl, ⟨-, hleft⟩, hright⟩
    exact ⟨left, right, rfl, hleft, hright⟩
  · rintro ⟨left, right, rfl, hleft, hright⟩
    exact ⟨left, left, right, rfl, ⟨rfl, hleft⟩, hright⟩

/-- A counted block, then whatever `k` skips. -/
theorem counted_then {data : Bytes} {k : ℕ → Parse ℕ} {P : Bytes → Prop}
    (hk : Skips k P data) (label : String) :
    Skips (fun start => decodeCompactU16 data start >>= fun p =>
        take data p.2 p.1 label >>= fun q => k q.2)
      (fun seg => ∃ left right, seg = left ++ right ∧ CountedBytes left ∧ P right) data := by
  have h := (decodeCompactU16_reads data).bindSkip fun n => take_then hk n label
  intro start hstart stop
  refine (h start hstart stop).trans (exists_congr fun seg => and_congr_right fun _ => ?_)
  constructor
  · rintro ⟨n, count, _, rfl, hcount, block, right, rfl, hblock, hright⟩
    exact ⟨count ++ block, right, by simp, ⟨n, count, block, rfl, hcount, hblock⟩, hright⟩
  · rintro ⟨_, right, rfl, ⟨n, count, block, rfl, hcount, hblock⟩, hright⟩
    exact ⟨n, count, block ++ right, by simp, hcount, block, right, rfl, hblock, hright⟩

/-- A block and two counted blocks: the shape of an instruction and of a
lookup. -/
theorem entry_skips (data : Bytes) (size : ℕ) (label label₁ label₂ : String) :
    Skips (fun start => take data start size label >>= fun p =>
        decodeCompactU16 data p.2 >>= fun q => take data q.2 q.1 label₁ >>= fun r =>
          decodeCompactU16 data r.2 >>= fun s => take data s.2 s.1 label₂ >>= fun t =>
            (.ok t.2 : Parse ℕ))
      (fun seg => ∃ fixed first second, seg = fixed ++ (first ++ second) ∧
        IsBlock size fixed ∧ CountedBytes first ∧ CountedBytes second) data := by
  have h := take_then (counted_then (counted_then (skips_ok data) label₂) label₁) size label
  intro start hstart stop
  refine (h start hstart stop).trans (exists_congr fun seg => and_congr_right fun _ => ?_)
  constructor
  · rintro ⟨fixed, _, rfl, hfixed, first, _, rfl, hfirst, second, _, rfl, hsecond, rfl⟩
    exact ⟨fixed, first, second, by simp, hfixed, hfirst, hsecond⟩
  · rintro ⟨fixed, first, second, rfl, hfixed, hfirst, hsecond⟩
    exact ⟨fixed, first ++ second, rfl, hfixed, first, second, rfl, hfirst,
      second, [], by simp, hsecond, rfl⟩

theorem skipCompiledInstruction_skips (data : Bytes) :
    Skips (skipCompiledInstruction data) IsInstruction data :=
  entry_skips data 1 "program_id_index" "instruction account indices" "instruction data"

theorem skipAddressTableLookup_skips (data : Bytes) :
    Skips (skipAddressTableLookup data) IsLookup data :=
  entry_skips data 32 "lookup account key" "writable lookup indices" "readonly lookup indices"

theorem entry_ne_panic (data : Bytes) (start size : ℕ) (label label₁ label₂ : String) :
    (take data start size label >>= fun p =>
        decodeCompactU16 data p.2 >>= fun q => take data q.2 q.1 label₁ >>= fun r =>
          decodeCompactU16 data r.2 >>= fun s => take data s.2 s.1 label₂ >>= fun t =>
            (.ok t.2 : Parse ℕ)) ≠ .panic := by
  simp only [ne_eq, Outcome.bind_eq_panic, take_ne_panic, decodeCompactU16,
    decodeCompactU16Loop_ne_panic, false_or, reduceCtorEq, and_false, exists_false,
    not_false_eq_true]

/-- A counted list skips the counted words. -/
theorem counted_reads {data : Bytes} {body : ℕ → Parse ℕ} {P : Bytes → Prop}
    (hbody : Skips body P data) :
    Skips (fun start => decodeCompactU16 data start >>= fun p =>
      Outcome.iterate body p.1 p.2) (Counted P) data := by
  have h := (decodeCompactU16_reads data).bindSkip fun n => hbody.iterate n
  intro start hstart stop
  refine (h start hstart stop).trans (exists_congr fun seg => and_congr_right fun _ => ?_)
  constructor
  · rintro ⟨n, left, right, rfl, hleft, hright⟩
    exact ⟨n, left, right, rfl, hleft, hright⟩
  · rintro ⟨n, left, right, rfl, hleft, hright⟩
    exact ⟨n, left, right, rfl, hleft, hright⟩

/-- The reference returns the number of rounds besides the offset. -/
theorem counted_fst {data : Bytes} {body : ℕ → Parse ℕ} {P : Bytes → Prop}
    (hbody : Skips body P data) {start stop : ℕ} (hstart : start ≤ data.length) :
    (∃ n, (decodeCompactU16 data start >>= fun p =>
        Outcome.iterate body p.1 p.2 >>= fun offset => (.ok (p.1, offset) : Parse (ℕ × ℕ))) =
          .ok (n, stop)) ↔
      ∃ seg, Spans data start stop seg ∧ Counted P seg := by
  rw [← counted_reads hbody start hstart stop]
  simp only [Outcome.bind_eq_ok, Outcome.ok.injEq, Prod.mk.injEq, Prod.exists]
  constructor
  · rintro ⟨_, m, o, hcount, _, hloop, rfl, rfl⟩
    exact ⟨m, o, hcount, hloop⟩
  · rintro ⟨n, o, hcount, hloop⟩
    exact ⟨n, n, o, hcount, stop, hloop, rfl, rfl⟩

/-! ### Fixed-size entries -/

theorem entries_nil {size : ℕ} {seg : Bytes} : Entries size [] seg ↔ seg = [] := by
  simp [Entries]

theorem entries_cons {size : ℕ} {x : Bytes} {xs : List Bytes} {seg : Bytes} :
    Entries size (x :: xs) seg ↔
      ∃ right, seg = x ++ right ∧ IsBlock size x ∧ Entries size xs right := by
  constructor
  · rintro ⟨hsize, rfl⟩
    exact ⟨xs.flatten, rfl, hsize x (by simp), fun y hy => hsize y (by simp [hy]), rfl⟩
  · rintro ⟨_, rfl, hx, hxs, rfl⟩
    refine ⟨?_, rfl⟩
    rintro y (_ | ⟨_, hy⟩)
    · exact hx
    · exact hxs y hy

/-- The entry loop appends what it reads to what it has. -/
theorem iterate_takeEntry {data : Bytes} {size : ℕ} {label : String} :
    ∀ (n start stop : ℕ) (acc acc' : List Bytes), start ≤ data.length →
      (Outcome.iterate (takeEntry data size label) n (acc, start) = .ok (acc', stop) ↔
        ∃ xs seg, acc' = acc ++ xs ∧ xs.length = n ∧ Entries size xs seg ∧
          Spans data start stop seg) := by
  intro n
  induction n with
  | zero =>
      intro start stop acc acc' _
      simp only [Outcome.iterate_zero, Outcome.ok.injEq, Prod.mk.injEq]
      constructor
      · rintro ⟨rfl, rfl⟩
        exact ⟨[], [], by simp, rfl, entries_nil.mpr rfl, Spans.nil_iff.mpr rfl⟩
      · rintro ⟨xs, seg, rfl, hlength, hentries, hseg⟩
        obtain rfl := List.length_eq_zero_iff.mp hlength
        obtain rfl := entries_nil.mp hentries
        exact ⟨by simp, (Spans.nil_iff.mp hseg).symm⟩
  | succ n ih =>
      intro start stop acc acc' hstart
      rw [Outcome.iterate_succ, Outcome.bind_eq_ok]
      constructor
      · rintro ⟨⟨acc₁, mid⟩, hentry, hrest⟩
        unfold takeEntry at hentry
        obtain ⟨⟨x, mid'⟩, htake, hout⟩ := Outcome.bind_eq_ok.mp hentry
        cases hout
        obtain ⟨seg, hspan, rfl, hx⟩ := (take_reads data size label start hstart _ _).mp htake
        obtain ⟨xs, seg', rfl, rfl, hxs, hspan'⟩ :=
          (ih mid stop _ acc' (hspan.stop_le hstart)).mp hrest
        exact ⟨x :: xs, x ++ seg', by simp, rfl, entries_cons.mpr ⟨_, rfl, hx, hxs⟩,
          hspan.append hspan'⟩
      · rintro ⟨_ | ⟨x, xs⟩, seg, rfl, hlength, hentries, hseg⟩
        · cases hlength
        obtain ⟨right, rfl, hx, hxs⟩ := entries_cons.mp hentries
        obtain ⟨hleft, hright⟩ := hseg.of_append
        refine ⟨(acc ++ [x], start + x.length), ?_, ?_⟩
        · have htake := (take_reads data size label start hstart x _).mpr ⟨x, hleft, rfl, hx⟩
          dsimp only at htake
          simp only [takeEntry, htake, Outcome.ok_bind]
        · refine (ih _ stop _ _ (hleft.stop_le hstart)).mpr ⟨xs, right, by simp, ?_, hxs, hright⟩
          simpa using hlength

theorem takeEntry_reads (data : Bytes) (size n : ℕ) (label : String) :
    Reads (fun start => Outcome.iterate (takeEntry data size label) n ([], start))
      (fun xs seg => xs.length = n ∧ Entries size xs seg) data := by
  intro start hstart xs stop
  rw [iterate_takeEntry n start stop [] xs hstart]
  constructor
  · rintro ⟨_, seg, rfl, hlength, hentries, hseg⟩
    exact ⟨seg, hseg, hlength, hentries⟩
  · rintro ⟨seg, hseg, hlength, hentries⟩
    exact ⟨xs, seg, rfl, hlength, hentries, hseg⟩

theorem takeEntry_ne_panic (data : Bytes) (size : ℕ) (label : String)
    (state : List Bytes × ℕ) : takeEntry data size label state ≠ .panic := by
  unfold takeEntry
  rw [ne_eq, Outcome.bind_eq_panic]
  rintro (h | ⟨_, _, h⟩)
  · exact take_ne_panic _ _ _ _ h
  · cases h

/-! ### Messages -/

/-- The first byte decides the version and where the header starts. -/
theorem messageVersion_ok {data : Bytes} {version : MessageVersion} {offset : ℕ} :
    messageVersion data = .ok (version, offset) ↔
      ∃ first rest, data = first :: rest ∧
        (version = .legacy ∧ offset = 0 ∧ first.toNat < 128 ∨
          version = .v0 ∧ offset = 1 ∧ first = 0x80) := by
  have hhigh : ∀ first : UInt8, first &&& 0x80 = 0 ↔ first.toNat < 128 := by
    intro first
    rw [← UInt8.toNat_inj, UInt8.toNat_and]
    exact byte_and_80 first
  have hlow : ∀ first : UInt8, ¬ first.toNat < 128 → (first &&& 0x7f = 0 ↔ first = 0x80) := by
    intro first hge
    have hlt := first.toNat_lt
    rw [← UInt8.toNat_inj, UInt8.toNat_and, ← UInt8.toNat_inj]
    show first.toNat &&& 0x7f = 0 ↔ first.toNat = 0x80
    rw [byte_and_7f]
    omega
  unfold messageVersion
  rcases data with _ | ⟨first, rest⟩
  · simp [Outcome.index]
  have hindex : (Outcome.index (first :: rest) 0 : Parse UInt8) = .ok first := by simp
  rw [hindex, Outcome.ok_bind]
  by_cases hlegacy : first.toNat < 128
  · rw [if_neg (not_not.mpr ((hhigh first).mpr hlegacy))]
    simp only [Outcome.ok.injEq, Prod.mk.injEq, List.cons.injEq]
    constructor
    · rintro ⟨rfl, rfl⟩
      exact ⟨first, rest, ⟨rfl, rfl⟩, .inl ⟨rfl, rfl, hlegacy⟩⟩
    · rintro ⟨_, _, ⟨rfl, rfl⟩, ⟨rfl, rfl, _⟩ | ⟨_, _, rfl⟩⟩
      · exact ⟨rfl, rfl⟩
      · exact absurd hlegacy (by decide)
  · rw [if_pos fun h => hlegacy ((hhigh first).mp h)]
    dsimp only
    by_cases hv0 : first = 0x80
    · rw [if_neg (not_not.mpr ((hlow first hlegacy).mpr hv0))]
      simp only [Outcome.ok.injEq, Prod.mk.injEq, List.cons.injEq]
      constructor
      · rintro ⟨rfl, rfl⟩
        exact ⟨first, rest, ⟨rfl, rfl⟩, .inr ⟨rfl, rfl, hv0⟩⟩
      · rintro ⟨_, _, ⟨rfl, rfl⟩, ⟨_, _, hlt⟩ | ⟨rfl, rfl, _⟩⟩
        · exact absurd hlt hlegacy
        · exact ⟨rfl, rfl⟩
    · rw [if_pos fun h => hv0 ((hlow first hlegacy).mp h)]
      simp only [fail, reduceCtorEq, false_iff]
      rintro ⟨_, _, heq, ⟨_, _, hlt⟩ | ⟨_, _, h⟩⟩
      · cases heq
        exact hlegacy hlt
      · cases heq
        exact hv0 h

/-- What `parse_message` does about lookups. -/
def skipLookups (data : Bytes) (version : MessageVersion) (offset : ℕ) : Parse (ℕ × ℕ) :=
  if version = .v0 then skipAddressTableLookups data offset else .ok (0, offset)

/-- The part of a message behind its header. -/
def parseBody (data : Bytes) (version : MessageVersion) (offset : ℕ) :
    Parse (List Bytes × ℕ × ℕ × ℕ) := do
  let (count, offset) ← decodeCompactU16 data offset
  let (keys, offset) ← Outcome.iterate (takeEntry data 32 "account key") count ([], offset)
  let (_, offset) ← take data offset 32 "recent blockhash"
  let (instructionCount, offset) ← skipCompiledInstructions data offset
  let (lookupCount, offset) ← skipLookups data version offset
  .ok (keys, instructionCount, lookupCount, offset)

/-- The words of `parseBody`. -/
def IsBody (version : MessageVersion) (keys : List Bytes) (seg : Bytes) : Prop :=
  ∃ count keyBytes blockhash instructions lookups,
    seg = count ++ (keyBytes ++ (blockhash ++ (instructions ++ lookups))) ∧
    IsCompactU16 keys.length count ∧ Entries 32 keys keyBytes ∧ IsBlock 32 blockhash ∧
    Counted IsInstruction instructions ∧ IsLookups version lookups

theorem skipLookups_ok {data : Bytes} {version : MessageVersion} {start stop : ℕ}
    (hstart : start ≤ data.length) :
    (∃ n, skipLookups data version start = .ok (n, stop)) ↔
      ∃ seg, Spans data start stop seg ∧ IsLookups version seg := by
  cases version with
  | legacy =>
      simp only [skipLookups, reduceCtorEq, if_false, Outcome.ok.injEq, Prod.mk.injEq]
      constructor
      · rintro ⟨_, _, rfl⟩
        exact ⟨[], Spans.nil_iff.mpr rfl, rfl⟩
      · rintro ⟨_, hseg, rfl⟩
        exact ⟨0, rfl, (Spans.nil_iff.mp hseg).symm⟩
  | v0 => exact counted_fst (skipAddressTableLookup_skips data) hstart

theorem parseBody_ok {data : Bytes} {version : MessageVersion} {start stop : ℕ}
    {keys : List Bytes} (hstart : start ≤ data.length) :
    (∃ n m, parseBody data version start = .ok (keys, n, m, stop)) ↔
      ∃ seg, Spans data start stop seg ∧ IsBody version keys seg := by
  unfold parseBody
  simp only [Outcome.bind_eq_ok, Prod.exists]
  constructor
  · rintro ⟨_, _, count, o₁, hcount, keys', o₂, hkeys, _, o₃, hhash, n, o₄, hinstr,
      m, o₅, hlookups, hout⟩
    cases hout
    obtain ⟨countSeg, hs₁, hcountSeg⟩ := (decodeCompactU16_reads data start hstart _ _).mp hcount
    have hle₁ := hs₁.stop_le hstart
    obtain ⟨keySeg, hs₂, hlength, hkeySeg⟩ :=
      (takeEntry_reads data 32 count "account key" o₁ hle₁ _ _).mp hkeys
    have hle₂ := hs₂.stop_le hle₁
    obtain ⟨hashSeg, hs₃, -, hhashSeg⟩ := (take_reads data 32 _ o₂ hle₂ _ _).mp hhash
    have hle₃ := hs₃.stop_le hle₂
    obtain ⟨instrSeg, hs₄, hinstrSeg⟩ :=
      (counted_fst (skipCompiledInstruction_skips data) hle₃).mp ⟨_, hinstr⟩
    have hle₄ := hs₄.stop_le hle₃
    obtain ⟨lookupSeg, hs₅, hlookupSeg⟩ := (skipLookups_ok hle₄).mp ⟨_, hlookups⟩
    exact ⟨_, hs₁.append (hs₂.append (hs₃.append (hs₄.append hs₅))), countSeg, keySeg, hashSeg,
      instrSeg, lookupSeg, rfl, hlength ▸ hcountSeg, hkeySeg, hhashSeg, hinstrSeg, hlookupSeg⟩
  · rintro ⟨_, hseg, count, keyBytes, blockhash, instructions, lookups, rfl, hcount, hkeys,
      hhash, hinstr, hlookups⟩
    obtain ⟨hs₁, hrest⟩ := hseg.of_append
    obtain ⟨hs₂, hrest⟩ := hrest.of_append
    obtain ⟨hs₃, hrest⟩ := hrest.of_append
    obtain ⟨hs₄, hs₅⟩ := hrest.of_append
    have hle₁ := hs₁.stop_le hstart
    have hle₂ := hs₂.stop_le hle₁
    have hle₃ := hs₃.stop_le hle₂
    have hle₄ := hs₄.stop_le hle₃
    obtain ⟨n, hn⟩ := (counted_fst (skipCompiledInstruction_skips data) hle₃).mpr
      ⟨instructions, hs₄, hinstr⟩
    obtain ⟨m, hm⟩ := (skipLookups_ok hle₄).mpr ⟨lookups, hs₅, hlookups⟩
    exact ⟨n, m, _, _, (decodeCompactU16_reads data start hstart _ _).mpr ⟨count, hs₁, hcount⟩,
      keys, _, (takeEntry_reads data 32 _ _ _ hle₁ _ _).mpr ⟨keyBytes, hs₂, rfl, hkeys⟩,
      blockhash, _, (take_reads data 32 _ _ hle₂ _ _).mpr ⟨blockhash, hs₃, rfl, hhash⟩,
      n, _, hn, m, _, hm, rfl⟩

theorem parseBody_ne_panic (data : Bytes) (version : MessageVersion) (start : ℕ) :
    parseBody data version start ≠ .panic := by
  have hentries : ∀ n s, Outcome.iterate (takeEntry data 32 "account key") n s ≠ .panic :=
    fun n s => Outcome.iterate_ne_panic (fun _ => True)
      (fun s _ => takeEntry_ne_panic data 32 _ s) (fun _ _ _ _ => trivial) n s trivial
  have hinstr : ∀ n o, Outcome.iterate (skipCompiledInstruction data) n o ≠ .panic :=
    fun n o => Outcome.iterate_ne_panic (fun _ => True)
      (fun s _ => entry_ne_panic data s 1 _ _ _) (fun _ _ _ _ => trivial) n o trivial
  have hlookups : ∀ n o, Outcome.iterate (skipAddressTableLookup data) n o ≠ .panic :=
    fun n o => Outcome.iterate_ne_panic (fun _ => True)
      (fun s _ => entry_ne_panic data s 32 _ _ _) (fun _ _ _ _ => trivial) n o trivial
  unfold parseBody skipLookups skipCompiledInstructions skipAddressTableLookups decodeCompactU16
  split <;>
    simp only [ne_eq, Outcome.bind_eq_panic, take_ne_panic, decodeCompactU16Loop_ne_panic,
      hentries, hinstr, hlookups, false_or, reduceCtorEq, and_false, exists_false,
      not_false_eq_true]

/-- `parse_message` is its header followed by `parseBody`. -/
theorem parseMessage_eq (data : Bytes) (hdata : data ≠ []) :
    parseMessage data = (messageVersion data >>= fun p =>
      if p.2 + 3 > data.length then
        fail "truncated message header"
      else
        Outcome.index data p.2 >>= fun required =>
          Outcome.index data (p.2 + 1) >>= fun readonlySigned =>
            Outcome.index data (p.2 + 2) >>= fun readonlyUnsigned =>
              parseBody data p.1 (p.2 + 3) >>= fun body =>
                if body.2.2.2 ≠ data.length then
                  fail "trailing bytes remain after message parse"
                else
                  .ok ⟨p.1, required.toNat, readonlySigned.toNat, readonlyUnsigned.toNat,
                    body.1, body.2.1, body.2.2.1⟩) := by
  have hempty : ¬ data.isEmpty = true := by
    rw [List.isEmpty_iff]
    exact hdata
  rw [parseMessage, if_neg hempty]
  congr 1
  funext ⟨version, headerOffset⟩
  cases version <;>
    simp only [parseBody, skipLookups, Outcome.bind_assoc, Outcome.ok_bind, reduceCtorEq,
      if_true, if_false]

/-- What `parse_message` does once it has seen a whole header. -/
theorem parseMessage_header {version : MessageVersion} {required readonlySigned
    readonlyUnsigned : UInt8} (rest : Bytes) (hfits : HeaderFits version required)
    {data : Bytes} (hdata : data = versionPrefix version ++
      required :: readonlySigned :: readonlyUnsigned :: rest) :
    parseMessage data = (parseBody data version ((versionPrefix version).length + 3) >>= fun body =>
      if body.2.2.2 ≠ data.length then
        fail "trailing bytes remain after message parse"
      else
        .ok ⟨version, required.toNat, readonlySigned.toNat, readonlyUnsigned.toNat,
          body.1, body.2.1, body.2.2.1⟩) := by
  have hne : data ≠ [] := by
    rw [hdata]
    simp
  have hversion : messageVersion data = .ok (version, (versionPrefix version).length) := by
    rw [messageVersion_ok, hdata]
    cases version with
    | legacy => exact ⟨required, _, rfl, .inl ⟨rfl, rfl, hfits⟩⟩
    | v0 => exact ⟨0x80, _, rfl, .inr ⟨rfl, rfl, rfl⟩⟩
  have hlength : ¬ (versionPrefix version).length + 3 > data.length := by
    rw [hdata]
    simp
  have hat : ∀ i, data[(versionPrefix version).length + i]? =
      (required :: readonlySigned :: readonlyUnsigned :: rest)[i]? := by
    intro i
    rw [hdata, List.getElem?_append_right (Nat.le_add_right _ _), Nat.add_sub_cancel_left]
  have hindex : ∀ i b, (required :: readonlySigned :: readonlyUnsigned :: rest)[i]? = some b →
      (Outcome.index data ((versionPrefix version).length + i) : Parse UInt8) = .ok b := by
    intro i b hb
    rw [Outcome.index_eq_ok, hat, hb]
  have hrequired := hindex 0 required rfl
  rw [Nat.add_zero] at hrequired
  rw [parseMessage_eq data hne, hversion, Outcome.ok_bind, if_neg hlength]
  dsimp only
  rw [hrequired, Outcome.ok_bind, hindex 1 _ rfl, Outcome.ok_bind, hindex 2 _ rfl,
    Outcome.ok_bind]

/-- A message that parses starts with a whole header. -/
theorem parseMessage_starts {data : Bytes} {info : ParsedMessage}
    (h : parseMessage data = .ok info) :
    ∃ version required readonlySigned readonlyUnsigned rest,
      HeaderFits version required ∧ data = versionPrefix version ++
        required :: readonlySigned :: readonlyUnsigned :: rest := by
  have hne : data ≠ [] := by
    rintro rfl
    cases h
  rw [parseMessage_eq data hne, Outcome.bind_eq_ok] at h
  obtain ⟨⟨version, offset⟩, hversion, h⟩ := h
  dsimp only at h
  split at h
  · cases h
  rename_i hlength
  obtain ⟨first, rest, rfl, ⟨rfl, rfl, hfirst⟩ | ⟨rfl, rfl, rfl⟩⟩ := messageVersion_ok.mp hversion
  · match rest, hlength with
    | b :: c :: rest, _ => exact ⟨.legacy, first, b, c, rest, hfirst, rfl⟩
    | [], hlength => exact absurd hlength (by simp)
    | [_], hlength => exact absurd hlength (by simp)
  · match rest, hlength with
    | a :: b :: c :: rest, _ => exact ⟨.v0, a, b, c, rest, trivial, rfl⟩
    | [], hlength => exact absurd hlength (by simp)
    | [_], hlength => exact absurd hlength (by simp)
    | [_, _], hlength => exact absurd hlength (by simp)

/-- The body of a message is everything behind its header. -/
theorem isMessage_iff {version : MessageVersion} {required : UInt8} {keys : List Bytes}
    {data : Bytes} :
    IsMessage version required keys data ↔ HeaderFits version required ∧
      ∃ readonlySigned readonlyUnsigned seg, IsBody version keys seg ∧
        data = versionPrefix version ++ required :: readonlySigned :: readonlyUnsigned :: seg := by
  constructor
  · rintro ⟨hfits, s, u, count, keyBytes, blockhash, instructions, lookups, rfl, hbody⟩
    exact ⟨hfits, s, u, _, ⟨count, keyBytes, blockhash, instructions, lookups, rfl, hbody⟩,
      by simp⟩
  · rintro ⟨hfits, s, u, _, ⟨count, keyBytes, blockhash, instructions, lookups, rfl, hbody⟩, rfl⟩
    exact ⟨hfits, s, u, count, keyBytes, blockhash, instructions, lookups, by simp, hbody⟩

/-- `parse_message` accepts exactly the messages of the grammar. -/
theorem parseMessage_ok {data : Bytes} {version : MessageVersion} {required : ℕ}
    {keys : List Bytes} :
    (∃ info, parseMessage data = .ok info ∧ info.messageVersion = version ∧
        info.numRequiredSignatures = required ∧ info.staticAccountKeys = keys) ↔
      ∃ header : UInt8, header.toNat = required ∧ IsMessage version header keys data := by
  simp only [isMessage_iff]
  constructor
  · rintro ⟨info, hparse, rfl, rfl, rfl⟩
    obtain ⟨version, header, s, u, rest, hfits, hdata⟩ := parseMessage_starts hparse
    rw [parseMessage_header rest hfits hdata, Outcome.bind_eq_ok] at hparse
    obtain ⟨⟨keys, n, m, stop⟩, hbody, hparse⟩ := hparse
    dsimp only at hparse
    split at hparse
    · cases hparse
    rename_i hstop
    cases hparse
    have hle : (versionPrefix version).length + 3 ≤ data.length := by
      rw [hdata]
      simp
    obtain ⟨seg, hseg, hwords⟩ := (parseBody_ok hle).mp ⟨n, m, hbody⟩
    have hrest : seg = rest := by
      have hdrop := hseg.drop_stop
      rw [not_not.mp hstop, List.drop_length, List.append_nil, hdata, ← List.drop_drop,
        List.drop_left] at hdrop
      exact hdrop.symm
    exact ⟨header, rfl, hfits, s, u, seg, hwords, by rw [hrest]; exact hdata⟩
  · rintro ⟨header, rfl, hfits, s, u, seg, hwords, hdata⟩
    have hle : (versionPrefix version).length + 3 ≤ data.length := by
      rw [hdata]
      simp
    have hspan : Spans data ((versionPrefix version).length + 3) data.length seg := by
      refine ⟨[], ?_, ?_⟩
      · rw [hdata, ← List.drop_drop, List.drop_left, List.append_nil]
        rfl
      · rw [hdata]
        simp
        omega
    obtain ⟨n, m, hbody⟩ := (parseBody_ok hle).mpr ⟨seg, hspan, hwords⟩
    refine ⟨⟨version, header.toNat, s.toNat, u.toNat, keys, n, m⟩, ?_, rfl, rfl, rfl⟩
    rw [parseMessage_header seg hfits hdata, hbody, Outcome.ok_bind]
    exact if_neg (not_not.mpr rfl)

theorem messageVersion_ne_panic {data : Bytes} (hdata : data ≠ []) :
    messageVersion data ≠ .panic := by
  obtain ⟨first, rest, rfl⟩ := List.exists_cons_of_ne_nil hdata
  have hindex : (Outcome.index (first :: rest) 0 : Parse UInt8) = .ok first := by simp
  rw [messageVersion, hindex, Outcome.ok_bind]
  split
  · dsimp only
    split <;> intro h <;> cases h
  · intro h
    cases h

theorem parseMessage_ne_panic (data : Bytes) : parseMessage data ≠ .panic := by
  by_cases hdata : data = []
  · subst hdata
    intro h
    cases h
  rw [parseMessage_eq data hdata, ne_eq, Outcome.bind_eq_panic]
  rintro (h | ⟨⟨version, offset⟩, -, h⟩)
  · exact messageVersion_ne_panic hdata h
  dsimp only at h
  split at h
  · cases h
  -- the header check covers the three header indices
  simp only [Outcome.bind_eq_panic, Outcome.index_eq_panic, Outcome.index_eq_ok] at h
  rcases h with h | ⟨_, -, h | ⟨_, -, h | ⟨_, -, h | ⟨_, -, h⟩⟩⟩⟩
  · omega
  · omega
  · omega
  · exact parseBody_ne_panic _ _ _ h
  · split at h <;> cases h

end Reference

end Kv260Sigv
