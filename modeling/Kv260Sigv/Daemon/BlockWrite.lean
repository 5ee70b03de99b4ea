import Kv260Sigv.Daemon.Payload

/-!
# Block writes, word by word

`write_bytes_as_u32_words` of `accelerator.rs` loop by loop, for a word writer in any
monad, and the regions it is used on: `MappedRegion` over the bytes of its mapping.  The
three loops store the words of the payload and then zeros (`writeBytesAsU32Words_eq`), which
is what the driver's `writeBytesAsU32Words` says at once; a slice that would panic and an
`offset += 4` that would overflow are never reached, whatever they would do.
-/

set_option autoImplicit false

namespace Kv260Sigv

namespace Accelerator

namespace BlockWrite

section loops

variable {m : Type → Type} [Monad m] (abort : m ℕ) (err : ServiceError → m Unit)
  (writeWord : ℕ → BitVec 32 → m Unit)

/-- `u32::from_le_bytes(bytes.try_into().expect(..))`, if there are four bytes. -/
def fromLeBytes : Bytes → Option (BitVec 32)
  | [b0, b1, b2, b3] => some (u32FromLeBytes b0 b1 b2 b3)
  | _ => none

/-- `write_word(offset, value)?; offset += 4;` -/
def storeAndAdvance (offset : ℕ) (value : Option (BitVec 32)) : m ℕ :=
  match value with
  | none => abort
  | some value => do
      writeWord offset value
      if offset + 4 < 2 ^ 64 then return offset + 4 else abort

/-- The loop over the full words of the payload. -/
def writeFullWords (data : Bytes) (fullWordLimit offset : ℕ) : m ℕ := do
  if h : offset < fullWordLimit then
    let _ ← storeAndAdvance abort writeWord offset (fromLeBytes ((data.drop offset).take 4))
    writeFullWords data fullWordLimit (offset + 4)
  else
    return offset
termination_by fullWordLimit - offset

/-- The last bytes of the payload, filled up with zeros. -/
def writeTail (data : Bytes) (offset : ℕ) : m ℕ := do
  if offset < data.length then
    let tail := data.drop offset
    storeAndAdvance abort writeWord offset
      (fromLeBytes (tail ++ List.replicate (4 - tail.length) 0))
  else
    return offset

/-- Zeros to the end of the region. -/
def writeZeros (regionSize offset : ℕ) : m Unit := do
  if h : offset < regionSize then
    let _ ← storeAndAdvance abort writeWord offset (some 0)
    writeZeros regionSize (offset + 4)
termination_by regionSize - offset

/-- `write_bytes_as_u32_words`. -/
def writeBytesAsU32Words (data : Bytes) (regionSize : ℕ) : m Unit := do
  if data.length > regionSize then
    err ⟨.limit, "payload_too_large",
      s!"payload is too large for the mapped region ({data.length} > {regionSize})"⟩
  else if regionSize % 4 ≠ 0 then
    err ⟨.unavailable, "mmio_alignment",
      s!"mapped region size is not 32-bit aligned ({regionSize})"⟩
  else
    let fullWordLimit := data.length &&& (2 ^ 64 - 4)
    let offset ← writeFullWords abort writeWord data fullWordLimit 0
    let offset ← writeTail abort writeWord data offset
    writeZeros abort writeWord regionSize offset

/-- One word after the other, from `offset` on. -/
def writeAll (offset : ℕ) : List (BitVec 32) → m Unit
  | [] => return ()
  | word :: words => do
      writeWord offset word
      writeAll (offset + 4) words

end loops

/-- The words of a region: the payload's, then zeros. -/
def regionWords (data : Bytes) (regionSize : ℕ) : List (BitVec 32) :=
  payloadWords data ++ List.replicate (regionSize / 4 - (payloadWords data).length) 0

theorem length_regionWords {data : Bytes} {regionSize : ℕ} (hle : data.length ≤ regionSize)
    (halign : regionSize % 4 = 0) : (regionWords data regionSize).length = regionSize / 4 := by
  rw [regionWords, List.length_append, List.length_replicate, length_payloadWords]
  omega

/-! ### The loops store the words of the region -/

/-- `len & !3` clears the two low bits. -/
theorem and_not_3 {n : ℕ} (h : n < 2 ^ 64) : n &&& (2 ^ 64 - 4) = n / 4 * 4 := by
  have hmask : ∀ i < 64, (2 ^ 64 - 4).testBit i = decide (2 ≤ i) := by decide
  refine Nat.eq_of_testBit_eq fun i => ?_
  have hcleared : (n / 4 * 4).testBit i = (decide (2 ≤ i) && n.testBit (i - 2 + 2)) := by
    rw [show n / 4 * 4 = n / 2 ^ 2 * 2 ^ 2 from rfl, Nat.testBit_mul_two_pow,
      Nat.testBit_div_two_pow]
  rw [Nat.testBit_and, hcleared]
  rcases Nat.lt_or_ge i 64 with hi | hi
  · rw [hmask i hi]
    by_cases h2 : 2 ≤ i
    · simp [h2, Nat.sub_add_cancel h2]
    · simp [h2]
  · have hzero : n.testBit i = false :=
      Nat.testBit_lt_two_pow (lt_of_lt_of_le h (Nat.pow_le_pow_right (by decide) hi))
    rw [hzero, show i - 2 + 2 = i by omega, hzero, Bool.false_and, Bool.and_false]

section loops

variable {m : Type → Type} [Monad m] [LawfulMonad m] (abort : m ℕ)
  (err : ServiceError → m Unit) (writeWord : ℕ → BitVec 32 → m Unit)

theorem storeAndAdvance_bind {α : Type} {offset : ℕ} {word : BitVec 32} (k : ℕ → m α)
    (h : offset + 4 < 2 ^ 64) :
    (storeAndAdvance abort writeWord offset (some word) >>= k) =
      (writeWord offset word >>= fun _ => k (offset + 4)) := by
  simp only [storeAndAdvance, if_pos h, bind_assoc, pure_bind]

theorem writeZeros_eq {regionSize : ℕ} (hlt : regionSize < 2 ^ 64)
    (halign : regionSize % 4 = 0) : ∀ (count offset : ℕ), offset + 4 * count = regionSize →
      writeZeros abort writeWord regionSize offset =
        writeAll writeWord offset (List.replicate count 0) := by
  intro count
  induction count with
  | zero =>
      intro offset h
      rw [writeZeros, dif_neg (by omega)]
      rfl
  | succ count ih =>
      intro offset h
      rw [writeZeros, dif_pos (by omega), storeAndAdvance_bind abort writeWord _ (by omega),
        List.replicate_succ, writeAll]
      exact bind_congr fun _ => ih (offset + 4) (by omega)

/-- From an aligned offset on, the three loops store the words of what is left of the
payload, and zeros. -/
theorem loops_eq {data : Bytes} {regionSize : ℕ} (hlt : regionSize < 2 ^ 64)
    (halign : regionSize % 4 = 0) (hfit : data.length ≤ regionSize) (rest : Bytes) :
    ∀ offset, offset % 4 = 0 → offset ≤ regionSize → data.drop offset = rest →
      (writeFullWords abort writeWord data (data.length / 4 * 4) offset >>= fun offset =>
        writeTail abort writeWord data offset >>= fun offset =>
          writeZeros abort writeWord regionSize offset) =
      writeAll writeWord offset (payloadWords rest ++
        List.replicate (regionSize / 4 - offset / 4 - (payloadWords rest).length) 0) := by
  -- behind the full words, the tail is one word and the rest is zeros
  have htail : ∀ (offset : ℕ) (tail : Bytes) (word : BitVec 32), offset % 4 = 0 →
      data.drop offset = tail → 0 < tail.length → tail.length < 4 →
      payloadWords tail = [word] →
      fromLeBytes (tail ++ List.replicate (4 - tail.length) 0) = some word →
      (writeFullWords abort writeWord data (data.length / 4 * 4) offset >>= fun offset =>
        writeTail abort writeWord data offset >>= fun offset =>
          writeZeros abort writeWord regionSize offset) =
      writeAll writeWord offset (payloadWords tail ++
        List.replicate (regionSize / 4 - offset / 4 - (payloadWords tail).length) 0) := by
    intro offset tail word hmod hdrop hpos hshort hword hbytes
    have hlen : data.length = offset + tail.length := by
      have := congrArg List.length hdrop
      rw [List.length_drop] at this
      omega
    rw [writeFullWords, dif_neg (by omega), pure_bind, writeTail, if_pos (by omega)]
    simp only [hdrop, hbytes]
    rw [storeAndAdvance_bind abort writeWord _ (by omega), hword, List.singleton_append, writeAll]
    refine bind_congr fun _ => ?_
    rw [List.length_singleton]
    exact writeZeros_eq abort writeWord hlt halign _ _ (by omega)
  induction rest using payloadWords.induct with
  | case1 =>
      intro offset hmod hle hdrop
      have hlen := List.drop_eq_nil_iff.mp hdrop
      rw [writeFullWords, dif_neg (by omega), pure_bind, writeTail, if_neg (by omega), pure_bind,
        payloadWords, List.nil_append, List.length_nil]
      exact writeZeros_eq abort writeWord hlt halign _ _ (by omega)
  | case2 b0 =>
      intro offset hmod _ hdrop
      exact htail offset _ _ hmod hdrop (by simp) (by simp) rfl rfl
  | case3 b0 b1 =>
      intro offset hmod _ hdrop
      exact htail offset _ _ hmod hdrop (by simp) (by simp) rfl rfl
  | case4 b0 b1 b2 =>
      intro offset hmod _ hdrop
      exact htail offset _ _ hmod hdrop (by simp) (by simp) rfl rfl
  | case5 b0 b1 b2 b3 rest ih =>
      intro offset hmod hle hdrop
      have hlen : data.length = offset + (rest.length + 4) := by
        have := congrArg List.length hdrop
        rw [List.length_drop] at this
        simp only [List.length_cons] at this
        omega
      have hnext : data.drop (offset + 4) = rest := by
        rw [← List.drop_drop, hdrop]
        rfl
      have hword : fromLeBytes ((data.drop offset).take 4) = some (u32FromLeBytes b0 b1 b2 b3) := by
        rw [hdrop]
        rfl
      rw [writeFullWords, dif_pos (by omega), hword, bind_assoc,
        storeAndAdvance_bind abort writeWord _ (by omega), payloadWords, List.cons_append, writeAll]
      refine bind_congr fun _ => ?_
      rw [ih (offset + 4) (by omega) (by omega) hnext, List.length_cons]
      congr 3
      omega

/-- **What `write_bytes_as_u32_words` does.**  It refuses a payload that is too long and a
region of a size that is not a multiple of four, and stores the words of the region
otherwise. -/
theorem writeBytesAsU32Words_eq {data : Bytes} {regionSize : ℕ} (hlt : regionSize < 2 ^ 64) :
    writeBytesAsU32Words abort err writeWord data regionSize =
      if data.length > regionSize then
        err ⟨.limit, "payload_too_large",
          s!"payload is too large for the mapped region ({data.length} > {regionSize})"⟩
      else if regionSize % 4 ≠ 0 then
        err ⟨.unavailable, "mmio_alignment",
          s!"mapped region size is not 32-bit aligned ({regionSize})"⟩
      else
        writeAll writeWord 0 (regionWords data regionSize) := by
  unfold writeBytesAsU32Words
  split
  · rfl
  split
  · rfl
  · rw [and_not_3 (by omega), loops_eq abort writeWord hlt (by omega) (by omega) data 0 rfl
      (by omega) (List.drop_zero), regionWords, Nat.zero_div, Nat.sub_zero]

end loops

/-- The driver's block write is this one, whatever a panic would do. -/
theorem driver_writeBytesAsU32Words (abort : Driver ℕ) (writeWord : ℕ → BitVec 32 → Driver Unit)
    {data : Bytes} {regionSize : ℕ} (hlt : regionSize < 2 ^ 64) :
    writeBytesAsU32Words abort throw writeWord data regionSize =
      Accelerator.writeBytesAsU32Words data regionSize writeWord := by
  have hwords : ∀ (words : List (BitVec 32)) (offset : ℕ),
      writeAll writeWord offset words = writeWords writeWord offset words := by
    intro words
    induction words with
    | nil =>
        intro offset
        rfl
    | cons word words ih =>
        intro offset
        rw [writeAll, writeWords]
        exact bind_congr fun _ => ih (offset + 4)
  rw [writeBytesAsU32Words_eq abort throw writeWord hlt, Accelerator.writeBytesAsU32Words,
    ← hwords]
  split
  · rfl
  split
  · rfl
  · rfl

end BlockWrite

end Accelerator

end Kv260Sigv
