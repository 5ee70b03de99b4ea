import Kv260Sigv.Daemon.BlockWrite

/-!
# A mapped region, byte by byte

`MappedRegion` of `accelerator.rs` over the bytes of its mapping: `open` maps whole pages
in front of the region, so the region begins `delta` bytes into the mapping.  A volatile
access outside the mapping or off a word boundary has no behaviour in the language; here it
is a `fault`, and `checked_word_start` is what keeps the driver from it.  The mapping
remembers the accesses that were made.
-/

set_option autoImplicit false

namespace Kv260Sigv

namespace Accelerator

namespace BlockWrite

/-! ### Word writers that keep a state -/

/-- How a call ends early: with an `Err`, or not at all in the language. -/
inductive Stop where
  | err (e : ServiceError)
  | fault
  deriving DecidableEq

/-- A call that works on a state. -/
abbrev Calling (σ : Type) := ExceptT Stop (StateM σ)

section writer

variable {σ : Type}

/-- `FnMut(usize, u32) -> Result<(), ServiceError>`, with the state it captures. -/
abbrev WordWriter (σ : Type) := ℕ → BitVec 32 → σ → Except ServiceError Unit × σ

/-- A call of the writer. -/
def WordWriter.call (writer : WordWriter σ) (offset : ℕ) (value : BitVec 32) : Calling σ Unit :=
  fun s => match writer offset value s with
    | (.ok (), s') => (.ok (), s')
    | (.error e, s') => (.error (.err e), s')

/-- `write_bytes_as_u32_words` with this writer. -/
def writeBytesWith (writer : WordWriter σ) (data : Bytes) (regionSize : ℕ) : Calling σ Unit :=
  writeBytesAsU32Words (throw .fault) (fun e => throw (.err e)) writer.call data regionSize

/-- The calls of the writer for these words succeed one after the other. -/
inductive WordWriter.Writes (writer : WordWriter σ) : ℕ → List (BitVec 32) → σ → σ → Prop
  | nil {offset : ℕ} {s : σ} : Writes writer offset [] s s
  | cons {offset : ℕ} {word : BitVec 32} {words : List (BitVec 32)} {s s' s'' : σ}
      (head : writer offset word s = (.ok (), s')) (tail : Writes writer (offset + 4) words s' s'') :
      Writes writer offset (word :: words) s s''

/-- The call before it succeeds. -/
theorem bind_of_ok {α β : Type} {x : Calling σ α} {f : α → Calling σ β} {a : α} {s s' : σ}
    (h : x s = (.ok a, s')) : (x >>= f) s = f a s' := by
  simp only [bind, ExceptT.bind, ExceptT.mk, StateT.bind, h, ExceptT.bindCont]

/-- The call before it ends early. -/
theorem bind_of_error {α β : Type} {x : Calling σ α} {f : α → Calling σ β} {e : Stop} {s s' : σ}
    (h : x s = (.error e, s')) : (x >>= f) s = (.error e, s') := by
  simp only [bind, ExceptT.bind, ExceptT.mk, StateT.bind, h, ExceptT.bindCont]
  rfl

/-- Every word is written, or all words before the first at which the writer fails. -/
theorem writeAll_call (writer : WordWriter σ) (words : List (BitVec 32)) :
    ∀ (offset : ℕ) (s : σ),
      (∃ s', writer.Writes offset words s s' ∧
        writeAll writer.call offset words s = (.ok (), s')) ∨
      (∃ done word rest e s₁ s₂, words = done ++ word :: rest ∧
        writer.Writes offset done s s₁ ∧
        writer (offset + 4 * done.length) word s₁ = (.error e, s₂) ∧
        writeAll writer.call offset words s = (.error (.err e), s₂)) := by
  induction words with
  | nil =>
      intro offset s
      exact .inl ⟨s, .nil, rfl⟩
  | cons word words ih =>
      intro offset s
      rw [writeAll]
      rcases hword : writer offset word s with ⟨e | u, s'⟩
      · have hcall : writer.call offset word s = (.error (.err e), s') := by
          rw [WordWriter.call, hword]
        exact .inr ⟨[], word, words, e, s, s', rfl, .nil, hword, bind_of_error hcall⟩
      · have hcall : writer.call offset word s = (.ok (), s') := by
          rw [WordWriter.call, hword]
        rw [bind_of_ok hcall]
        rcases ih (offset + 4) s' with ⟨s'', hwrites, hrun⟩ | h
        · exact .inl ⟨s'', .cons hword hwrites, hrun⟩
        · obtain ⟨done, failing, rest, e, s₁, s₂, hsplit, hwrites, hfail, hrun⟩ := h
          refine .inr ⟨word :: done, failing, rest, e, s₁, s₂, by rw [hsplit, List.cons_append],
            .cons hword hwrites, ?_, hrun⟩
          rwa [List.length_cons, show offset + 4 * (done.length + 1) =
            offset + 4 + 4 * done.length by omega]

end writer

/-! ### The bytes of a mapping -/

/-- A volatile access of one word, where it starts in the mapping. -/
inductive WordAccess where
  | read (start : ℕ)
  | write (start : ℕ) (value : BitVec 32)
  deriving DecidableEq

/-- The bytes of a mapping, and the accesses made to it so far. -/
structure Mapping where
  bytes : Bytes
  accesses : List WordAccess

/-- `value.to_le()` in memory. -/
def toLeBytes (word : BitVec 32) : Bytes := (List.range 4).map fun k => ⟨byteOf word k⟩

/-- `ptr::read_volatile` of a word. -/
def readVolatile (start : ℕ) : Calling Mapping (BitVec 32) := fun mapping =>
  match fromLeBytes ((mapping.bytes.drop start).take 4) with
  | none => (.error .fault, mapping)
  | some word =>
      if start % 4 = 0 then
        (.ok word, { mapping with accesses := mapping.accesses ++ [.read start] })
      else
        (.error .fault, mapping)

/-- `ptr::write_volatile` of a word. -/
def writeVolatile (start : ℕ) (value : BitVec 32) : Calling Mapping Unit := fun mapping =>
  if start + 4 ≤ mapping.bytes.length ∧ start % 4 = 0 then
    (.ok (), { bytes := mapping.bytes.take start ++ (toLeBytes value ++ mapping.bytes.drop (start + 4))
               accesses := mapping.accesses ++ [.write start value] })
  else
    (.error .fault, mapping)

/-- `?` on a check. -/
def checked {α : Type} (result : Except ServiceError α) : Calling Mapping α := fun mapping =>
  match result with
  | .ok a => (.ok a, mapping)
  | .error e => (.error (.err e), mapping)

/-- `MappedRegion::read_u32`. -/
def readU32 (r : MappedRegion) (offset : ℕ) : Calling Mapping (BitVec 32) := do
  let start ← checked (r.checkedWordStart offset "read")
  readVolatile start

/-- `MappedRegion::write_u32`. -/
def writeU32 (r : MappedRegion) (offset : ℕ) (value : BitVec 32) : Calling Mapping Unit := do
  let start ← checked (r.checkedWordStart offset "write")
  writeVolatile start value

/-- `MappedRegion::write_bytes`. -/
def writeBytes (r : MappedRegion) (data : Bytes) : Calling Mapping Unit :=
  writeBytesAsU32Words (throw .fault) (fun e => throw (.err e)) (writeU32 r) data r.size

/-- `MappedRegion::open` of a region at `offset` in its file. -/
def openAt (region : Region) (pageSize offset size : ℕ) : MappedRegion :=
  let alignedOffset := offset - offset % pageSize
  ⟨region, offset - alignedOffset, size⟩

/-- `delta + spec.size` bytes are mapped. -/
structure Established (r : MappedRegion) (mapping : Mapping) : Prop where
  length_bytes : mapping.bytes.length = r.delta + r.size
  no_overflow : r.delta + r.size < 2 ^ 64

/-! ### The bounds check -/

/-- `checked_word_start` lets through the words of the region that are aligned in the
mapping, and no others. -/
theorem checkedWordStart_cases (r : MappedRegion) (hr : r.delta + r.size < 2 ^ 64) (offset : ℕ)
    (operation : String) :
    (offset + 4 ≤ r.size ∧ (r.delta + offset) % 4 = 0 ∧
      r.checkedWordStart offset operation = .ok (r.delta + offset)) ∨
    (¬ (offset + 4 ≤ r.size ∧ (r.delta + offset) % 4 = 0) ∧
      ∃ e, r.checkedWordStart offset operation = .error e) := by
  unfold MappedRegion.checkedWordStart checkedAdd
  by_cases hlast : offset + 4 < 2 ^ 64
  · by_cases hsize : offset + 4 > r.size
    · refine .inr ⟨fun h => absurd h.1 (by omega), ?_⟩
      simp only [if_pos hlast, if_pos hsize]
      exact ⟨_, rfl⟩
    · have hstart : r.delta + offset < 2 ^ 64 := by omega
      by_cases hmod : (r.delta + offset) % 4 = 0
      · refine .inl ⟨by omega, hmod, ?_⟩
        simp only [if_pos hlast, if_neg hsize, if_pos hstart, hmod, ne_eq, not_true_eq_false,
          if_false]
        rfl
      · refine .inr ⟨fun h => hmod h.2, ?_⟩
        simp only [if_pos hlast, if_neg hsize, if_pos hstart, if_pos hmod, ne_eq]
        exact ⟨_, rfl⟩
  · refine .inr ⟨fun h => absurd h.1 (by omega), ?_⟩
    simp only [if_neg hlast]
    exact ⟨_, rfl⟩

section mapped

variable {r : MappedRegion} {mapping : Mapping}

/-- A read is refused without an access, or it is one word inside the mapping. -/
theorem readU32_cases (h : Established r mapping) (offset : ℕ) :
    (∃ e, readU32 r offset mapping = (.error (.err e), mapping)) ∨
    (offset + 4 ≤ r.size ∧ (r.delta + offset) % 4 = 0 ∧ ∃ word,
      fromLeBytes ((mapping.bytes.drop (r.delta + offset)).take 4) = some word ∧
      readU32 r offset mapping =
        (.ok word, { mapping with accesses := mapping.accesses ++ [.read (r.delta + offset)] })) := by
  rcases checkedWordStart_cases r h.no_overflow offset "read" with ⟨hsize, hmod, hstart⟩ | ⟨-, e, he⟩
  · have hcheck : checked (r.checkedWordStart offset "read") mapping =
        (.ok (r.delta + offset), mapping) := by rw [hstart, checked]
    have hfour : ((mapping.bytes.drop (r.delta + offset)).take 4).length = 4 := by
      rw [List.length_take, List.length_drop, h.length_bytes]
      omega
    obtain ⟨b0, b1, b2, b3, hbytes⟩ := List.length_eq_four.mp hfour
    refine .inr ⟨hsize, hmod, u32FromLeBytes b0 b1 b2 b3, by rw [hbytes]; rfl, ?_⟩
    rw [readU32, bind_of_ok hcheck, readVolatile, hbytes]
    simp only [fromLeBytes, if_pos hmod]
  · have hcheck : checked (r.checkedWordStart offset "read") mapping =
        (.error (.err e), mapping) := by rw [he, checked]
    exact .inl ⟨e, by rw [readU32, bind_of_error hcheck]⟩

/-- So is a write. -/
theorem writeU32_cases (h : Established r mapping) (offset : ℕ) (value : BitVec 32) :
    (¬ (offset + 4 ≤ r.size ∧ (r.delta + offset) % 4 = 0) ∧
      ∃ e, writeU32 r offset value mapping = (.error (.err e), mapping)) ∨
    (offset + 4 ≤ r.size ∧ (r.delta + offset) % 4 = 0 ∧
      writeU32 r offset value mapping =
        (.ok (), { bytes := mapping.bytes.take (r.delta + offset) ++
                     (toLeBytes value ++ mapping.bytes.drop (r.delta + offset + 4))
                   accesses := mapping.accesses ++ [.write (r.delta + offset) value] })) := by
  rcases checkedWordStart_cases r h.no_overflow offset "write" with
    ⟨hsize, hmod, hstart⟩ | ⟨hnot, e, he⟩
  · have hcheck : checked (r.checkedWordStart offset "write") mapping =
        (.ok (r.delta + offset), mapping) := by rw [hstart, checked]
    refine .inr ⟨hsize, hmod, ?_⟩
    rw [writeU32, bind_of_ok hcheck, writeVolatile, if_pos ⟨by rw [h.length_bytes]; omega, hmod⟩]
  · have hcheck : checked (r.checkedWordStart offset "write") mapping =
        (.error (.err e), mapping) := by rw [he, checked]
    exact .inl ⟨hnot, e, by rw [writeU32, bind_of_error hcheck]⟩

/-! ### The whole block -/

@[simp] theorem length_toLeBytes (word : BitVec 32) : (toLeBytes word).length = 4 := rfl

theorem toLeBytes_u32FromLeBytes (b0 b1 b2 b3 : UInt8) :
    toLeBytes (u32FromLeBytes b0 b1 b2 b3) = [b0, b1, b2, b3] := by
  obtain ⟨h₀, h₁, h₂, h₃⟩ := byteOf_u32FromLeBytes b0 b1 b2 b3
  show [UInt8.ofBitVec _, UInt8.ofBitVec _, UInt8.ofBitVec _, UInt8.ofBitVec _] = _
  rw [h₀, h₁, h₂, h₃]

/-- The bytes of a payload's words are the payload, filled up with zeros. -/
theorem flatMap_payloadWords (data : Bytes) :
    (payloadWords data).flatMap toLeBytes =
      data ++ List.replicate (4 * (payloadWords data).length - data.length) 0 := by
  induction data using payloadWords.induct with
  | case1 => rfl
  | case2 b0 => exact toLeBytes_u32FromLeBytes b0 0 0 0
  | case3 b0 b1 => exact toLeBytes_u32FromLeBytes b0 b1 0 0
  | case4 b0 b1 b2 => exact toLeBytes_u32FromLeBytes b0 b1 b2 0
  | case5 b0 b1 b2 b3 rest ih =>
      rw [payloadWords, List.flatMap_cons, ih, toLeBytes_u32FromLeBytes]
      simp only [List.cons_append, List.nil_append, List.length_cons]
      congr 6
      omega

theorem flatMap_replicate_zero (count : ℕ) :
    (List.replicate count (0 : BitVec 32)).flatMap toLeBytes = List.replicate (4 * count) 0 := by
  induction count with
  | zero => rfl
  | succ count ih =>
      rw [List.replicate_succ, List.flatMap_cons, ih,
        show 4 * (count + 1) = 4 + 4 * count by omega, List.replicate_add]
      rfl

/-- The bytes of the words of a region are the payload and zeros behind it. -/
theorem flatMap_regionWords {data : Bytes} {size : ℕ} (hfit : data.length ≤ size)
    (halign : size % 4 = 0) :
    (regionWords data size).flatMap toLeBytes = data ++ List.replicate (size - data.length) 0 := by
  have hwords := length_payloadWords data
  rw [regionWords, List.flatMap_append, flatMap_payloadWords, flatMap_replicate_zero,
    List.append_assoc, ← List.replicate_add]
  congr 2
  omega

/-- The words go where they belong, one after the other. -/
theorem writeAll_writeU32 (halign : r.delta % 4 = 0) (words : List (BitVec 32)) :
    ∀ (offset : ℕ) (mapping : Mapping), Established r mapping → offset % 4 = 0 →
      offset + 4 * words.length ≤ r.size →
      writeAll (writeU32 r) offset words mapping =
        (.ok (), { bytes := mapping.bytes.take (r.delta + offset) ++ (words.flatMap toLeBytes ++
                     mapping.bytes.drop (r.delta + offset + 4 * words.length))
                   accesses := mapping.accesses ++
                     words.mapIdx fun i word => .write (r.delta + offset + 4 * i) word }) := by
  induction words with
  | nil =>
      intro offset mapping _ _ _
      show (_, _) = (_, _)
      simp
  | cons word words ih =>
      intro offset mapping h hmod hfit
      rw [List.length_cons] at hfit
      rcases writeU32_cases h offset word with ⟨hnot, -⟩ | ⟨-, -, hwrite⟩
      · exact absurd ⟨by omega, by omega⟩ hnot
      have hfront : (mapping.bytes.take (r.delta + offset)).length = r.delta + offset := by
        rw [List.length_take, h.length_bytes]
        omega
      rw [writeAll, bind_of_ok hwrite, ih (offset + 4) _ ?_ (by omega) (by omega)]
      · have hblock : (mapping.bytes.take (r.delta + offset) ++ toLeBytes word).length =
            r.delta + offset + 4 := by
          rw [List.length_append, hfront, length_toLeBytes]
        have hdone : (mapping.bytes.take (r.delta + offset) ++ (toLeBytes word ++
            mapping.bytes.drop (r.delta + offset + 4))).take (r.delta + offset + 4) =
            mapping.bytes.take (r.delta + offset) ++ toLeBytes word := by
          rw [← List.append_assoc]
          exact List.take_left' hblock
        have hrest : (mapping.bytes.take (r.delta + offset) ++ (toLeBytes word ++
            mapping.bytes.drop (r.delta + offset + 4))).drop
              (r.delta + offset + 4 + 4 * words.length) =
            mapping.bytes.drop (r.delta + offset + 4 * (words.length + 1)) := by
          rw [← List.append_assoc, ← List.drop_drop, List.drop_left' hblock, List.drop_drop]
          congr 1
          omega
        rw [← Nat.add_assoc, hrest, hdone, List.mapIdx_cons, List.flatMap_cons,
          List.length_cons]
        simp only [List.append_assoc, List.cons_append, List.nil_append, Nat.mul_zero, Nat.add_zero]
        congr 5
        funext i word
        congr 1
        omega
      · refine ⟨?_, h.no_overflow⟩
        simp only [List.length_append, hfront, length_toLeBytes, List.length_drop, h.length_bytes]
        omega

/-- The region holds the payload and zeros behind it, and every aligned word of it was
stored to once, in increasing order. -/
structure Written (r : MappedRegion) (data : Bytes) (mapping mapping' : Mapping) : Prop where
  front : mapping'.bytes.take r.delta = mapping.bytes.take r.delta
  region : mapping'.bytes.drop r.delta = data ++ List.replicate (r.size - data.length) 0
  stores : ∃ words : List (BitVec 32), words.length = r.size / 4 ∧
    mapping'.accesses = mapping.accesses ++
      words.mapIdx fun i word => .write (r.delta + 4 * i) word

/-- A block write is refused before the first store, or it writes the whole region. -/
theorem writeBytes_cases (h : Established r mapping) (data : Bytes) :
    ((r.size < data.length ∨ r.size % 4 ≠ 0 ∨ r.delta % 4 ≠ 0) ∧
      ∃ e, writeBytes r data mapping = (.error (.err e), mapping)) ∨
    (data.length ≤ r.size ∧ r.size % 4 = 0 ∧ ∃ mapping',
      writeBytes r data mapping = (.ok (), mapping') ∧ Written r data mapping mapping') := by
  rw [writeBytes, writeBytesAsU32Words_eq _ _ _ (by have := h.no_overflow; omega)]
  by_cases hfit : data.length > r.size
  · rw [if_pos hfit]
    exact .inl ⟨.inl hfit, _, rfl⟩
  rw [if_neg hfit]
  by_cases hsize : r.size % 4 = 0
  · rw [if_neg (not_not.mpr hsize)]
    have hwords := length_regionWords (Nat.le_of_not_lt hfit) hsize
    by_cases hdelta : r.delta % 4 = 0
    · refine .inr ⟨by omega, hsize, _, writeAll_writeU32 hdelta _ 0 mapping h rfl (by omega), ?_⟩
      have hfront : (mapping.bytes.take r.delta).length = r.delta := by
        rw [List.length_take, h.length_bytes]
        omega
      have hbehind : mapping.bytes.drop (r.delta + 4 * (r.size / 4)) = [] := by
        rw [List.drop_eq_nil_iff, h.length_bytes]
        omega
      refine ⟨List.take_left' hfront, ?_, _, hwords, rfl⟩
      rw [Nat.add_zero, List.drop_left' hfront, hwords, hbehind, List.append_nil,
        flatMap_regionWords (by omega) hsize]
    · rcases hnone : regionWords data r.size with _ | ⟨word, words⟩
      · -- nothing to store
        have hempty : r.size / 4 = 0 := by rw [← hwords, hnone, List.length_nil]
        refine .inr ⟨by omega, hsize, mapping, rfl, rfl, ?_, [], hempty.symm, ?_⟩
        · have hdata : data = [] := List.length_eq_zero_iff.mp (by omega)
          rw [List.drop_eq_nil_iff.mpr (by rw [h.length_bytes]; omega), hdata, List.nil_append,
            List.length_nil, show r.size = 0 by omega]
          rfl
        · simp
      · -- the first word is off a word boundary
        rcases writeU32_cases h 0 word with ⟨-, e, he⟩ | ⟨-, hmod, -⟩
        · refine .inl ⟨.inr (.inr hdelta), e, ?_⟩
          rw [writeAll, bind_of_error he]
        · exact absurd hmod hdelta
  · rw [if_pos hsize]
    exact .inl ⟨.inr (.inl hsize), _, rfl⟩

end mapped

/-- Where a word access may be: on a word boundary of the mapping and, pages being mapped,
of the address space, and inside the mapping. -/
structure InBounds (r : MappedRegion) (pageSize start : ℕ) : Prop where
  aligned : start % 4 = 0
  address_aligned : ∀ base, pageSize ∣ base → (base + start) % 4 = 0
  inside : start + 4 ≤ r.delta + r.size

/-- An access of `r` to `mapping` is refused without touching it, or it is one access that is
in bounds. -/
def RefusedOrInBounds {α : Type} (r : MappedRegion) (pageSize : ℕ) (mapping : Mapping)
    (out : Except Stop α × Mapping) : Prop :=
  (∃ e, out = (.error (.err e), mapping)) ∨
    ∃ a mapping' start access, out = (.ok a, mapping') ∧ InBounds r pageSize start ∧
      mapping'.accesses = mapping.accesses ++ [access] ∧
      (access = .read start ∨ ∃ value, access = .write start value)

/-- **Block writes.**  For a region at any offset of its file, mapped in pages whose size is
a multiple of four: a block write is refused before its first store, or it writes the whole
region, the payload first and zeros behind it; single accesses are refused or in bounds;
and a word writer that fails is not called again. -/
theorem block_write_exact :
    (∀ (region : Region) (pageSize offset size : ℕ) (mapping : Mapping), 0 < pageSize →
      pageSize % 4 = 0 → Established (openAt region pageSize offset size) mapping →
      (∀ data : ByteSlice,
        ((size < data.bytes.length ∨ size % 4 ≠ 0 ∨ offset % pageSize % 4 ≠ 0) ∧
          ∃ e, writeBytes (openAt region pageSize offset size) data.bytes mapping =
            (.error (.err e), mapping)) ∨
        (data.bytes.length ≤ size ∧ size % 4 = 0 ∧ ∃ mapping',
          writeBytes (openAt region pageSize offset size) data.bytes mapping =
            (.ok (), mapping') ∧
          Written (openAt region pageSize offset size) data.bytes mapping mapping')) ∧
      (∀ place, RefusedOrInBounds (openAt region pageSize offset size) pageSize mapping
        (readU32 (openAt region pageSize offset size) place mapping)) ∧
      (∀ place value, RefusedOrInBounds (openAt region pageSize offset size) pageSize mapping
        (writeU32 (openAt region pageSize offset size) place value mapping))) ∧
    (∀ (σ : Type) (writer : WordWriter σ) (data : ByteSlice) (size : ℕ) (s : σ), size < 2 ^ 64 →
      ((size < data.bytes.length ∨ size % 4 ≠ 0) ∧
        ∃ e, writeBytesWith writer data.bytes size s = (.error (.err e), s)) ∨
      (∃ s', writer.Writes 0 (regionWords data.bytes size) s s' ∧
        writeBytesWith writer data.bytes size s = (.ok (), s')) ∨
      (∃ done word rest e s₁ s₂, regionWords data.bytes size = done ++ word :: rest ∧
        writer.Writes 0 done s s₁ ∧ writer (4 * done.length) word s₁ = (.error e, s₂) ∧
        writeBytesWith writer data.bytes size s = (.error (.err e), s₂))) := by
  constructor
  · intro region pageSize offset size mapping hpos hpage h
    have hdelta : (openAt region pageSize offset size).delta = offset % pageSize := by
      have := Nat.mod_le offset pageSize
      show offset - (offset - offset % pageSize) = offset % pageSize
      omega
    have hbounds : ∀ place, place + 4 ≤ size →
        ((openAt region pageSize offset size).delta + place) % 4 = 0 →
        InBounds (openAt region pageSize offset size) pageSize
          ((openAt region pageSize offset size).delta + place) := by
      intro place hsize hmod
      refine ⟨hmod, ?_, by show _ ≤ _ + size; omega⟩
      intro base hbase
      have hfour : 4 ∣ base := Nat.dvd_trans (Nat.dvd_of_mod_eq_zero hpage) hbase
      omega
    refine ⟨?_, ?_, ?_⟩
    · intro data
      rw [← hdelta]
      exact writeBytes_cases h data.bytes
    · intro place
      rcases readU32_cases h place with hrefused | ⟨hsize, hmod, word, -, hread⟩
      · exact .inl hrefused
      · exact .inr ⟨word, _, _, _, hread, hbounds place hsize hmod, rfl, .inl rfl⟩
    · intro place value
      rcases writeU32_cases h place value with ⟨-, hrefused⟩ | ⟨hsize, hmod, hwrite⟩
      · exact .inl hrefused
      · exact .inr ⟨(), _, _, _, hwrite, hbounds place hsize hmod, rfl, .inr ⟨value, rfl⟩⟩
  · intro σ writer data size s hlt
    rw [writeBytesWith, writeBytesAsU32Words_eq _ _ _ hlt]
    by_cases hfit : data.bytes.length > size
    · rw [if_pos hfit]
      exact .inl ⟨.inl hfit, _, rfl⟩
    by_cases hsize : size % 4 ≠ 0
    · rw [if_neg hfit, if_pos hsize]
      exact .inl ⟨.inr hsize, _, rfl⟩
    · rw [if_neg hfit, if_neg hsize]
      rcases writeAll_call writer (regionWords data.bytes size) 0 s with hall | h
      · exact .inr (.inl hall)
      · obtain ⟨done, word, rest, e, s₁, s₂, hsplit, hwrites, hfail, hrun⟩ := h
        rw [Nat.zero_add] at hfail
        exact .inr (.inr ⟨done, word, rest, e, s₁, s₂, hsplit, hwrites, hfail, hrun⟩)

/-- Five bytes into a region of two words in the middle of a page. -/
theorem block_write_exact_five_bytes :
    ∃ mapping', writeBytes (openAt .message 4096 4104 8) [1, 2, 3, 4, 5]
        ⟨List.replicate 16 0xff, []⟩ = (.ok (), mapping') ∧
      mapping'.bytes.drop 8 = [1, 2, 3, 4, 5, 0, 0, 0] := by
  have h := (block_write_exact.1 .message 4096 4104 8 ⟨List.replicate 16 0xff, []⟩ (by decide)
    (by decide) ⟨rfl, by decide⟩).1 ⟨[1, 2, 3, 4, 5], by decide⟩
  rcases h with ⟨hrefused, -⟩ | ⟨-, -, mapping', hrun, hwritten⟩
  · exact absurd hrefused (by decide)
  · exact ⟨mapping', hrun, hwritten.region⟩

end BlockWrite

end Accelerator

end Kv260Sigv
