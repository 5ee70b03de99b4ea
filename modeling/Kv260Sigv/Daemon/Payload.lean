import Kv260Sigv.Daemon.Calls
import Mathlib.Logic.Function.Basic

/-!
# What a payload looks like in memory

The driver stores bytes as words, filled up with zeros to the end of the region.
A memory that `Remembers` the stores to a region holds the words of the payload
afterwards, and the bytes can be read back from the words.
-/

set_option autoImplicit false

namespace Kv260Sigv

open Program (Performs)

namespace Accelerator

variable {h : History Access Answer} {c c' w : ℕ} {region : Region}
  {mem : ℕ → BitVec w → BitVec 32}

/-- The memory behind a region, cycle by cycle: word `x` is at offset `4 * x`. -/
structure Remembers (h : History Access Answer) (region : Region)
    (mem : ℕ → BitVec w → BitVec 32) : Prop where
  keep : ∀ k, (∀ offset value strobe, Access.store region offset value strobe ∉ h.events k) →
    mem (k + 1) = mem k
  store : ∀ k offset value, h.events k = [.store region offset value 0xF] →
    mem (k + 1) = Function.update (mem k) (BitVec.ofNat w (offset / 4)) value

/-- Without a store the memory stays. -/
theorem Remembers.stays (hmem : Remembers h region mem) (hle : c ≤ c')
    (hnone : ∀ k, c ≤ k → k < c' →
      ∀ offset value strobe, Access.store region offset value strobe ∉ h.events k) :
    mem c' = mem c := by
  induction c', hle using Nat.le_induction with
  | base => rfl
  | succ k hk ih =>
      rw [hmem.keep k (hnone k hk (Nat.lt_succ_self k))]
      exact ih fun j hj hj' => hnone j hj (Nat.lt_succ_of_lt hj')

theorem Remembers.quiet (hmem : Remembers h region mem) (hle : c ≤ c') (hquiet : h.Quiet c c') :
    mem c' = mem c := by
  refine hmem.stays hle fun k hk hk' offset value strobe hin => ?_
  rw [hquiet k hk hk'] at hin
  contradiction

/-- Storing words one after the other. -/
theorem of_writeWords {r : MappedRegion} (hr : r.region = region) (hmem : Remembers h region mem)
    (words : List (BitVec 32)) {u : Unit} :
    ∀ {offset c : ℕ}, offset % 4 = 0 → offset / 4 + words.length ≤ 2 ^ w →
      Performs h (writeWords r.writeU32 offset words).run c c' (.ok u) →
      ∀ x : BitVec w, mem c' x =
        if offset / 4 ≤ x.toNat ∧ x.toNat < offset / 4 + words.length then
          words.getD (x.toNat - offset / 4) 0
        else mem c x := by
  induction words with
  | nil =>
      intro offset c _ _ hm x
      obtain ⟨-, hle, hquiet⟩ := Performs.of_pure_ok hm
      rw [hmem.quiet hle hquiet, List.length_nil, if_neg (by omega)]
  | cons word words ih =>
      intro offset c halign hfits hm x
      rw [List.length_cons] at hfits ⊢
      obtain ⟨_, d, hfirst, hrest⟩ := Performs.of_bind_ok hm
      obtain ⟨k, hk, hk', hquiet, hevent, hquiet'⟩ := of_writeU32 hfirst
      rw [hr] at hevent
      have hnext : (offset + 4) / 4 = offset / 4 + 1 := by omega
      rw [ih (by omega) (by omega) hrest x, hmem.quiet hk' hquiet', hmem.store k _ _ hevent,
        hmem.quiet hk hquiet, hnext, Function.update_apply]
      have haddr : x = BitVec.ofNat w (offset / 4) ↔ x.toNat = offset / 4 := by
        rw [← BitVec.toNat_inj, BitVec.toNat_ofNat, Nat.mod_eq_of_lt (by omega)]
      simp only [haddr]
      rcases Nat.lt_trichotomy x.toNat (offset / 4) with hlt | heq | hgt
      · rw [if_neg (by omega), if_neg (by omega), if_neg (by omega)]
      · rw [if_neg (by omega), if_pos heq, if_pos (by omega), heq, Nat.sub_self]
        rfl
      · rcases Nat.lt_or_ge x.toNat (offset / 4 + 1 + words.length) with hin | hout
        · rw [if_pos (by omega), if_pos (by omega),
            show x.toNat - offset / 4 = x.toNat - (offset / 4 + 1) + 1 by omega]
          rfl
        · rw [if_neg (by omega), if_neg (by omega), if_neg (by omega)]

theorem length_payloadWords (data : Bytes) : (payloadWords data).length = (data.length + 3) / 4 := by
  induction data using payloadWords.induct with
  | case1 => rfl
  | case2 => simp [payloadWords]
  | case3 => simp [payloadWords]
  | case4 => simp [payloadWords]
  | case5 b0 b1 b2 b3 rest ih =>
      rw [payloadWords, List.length_cons, ih]
      simp only [List.length_cons]
      omega

/-- After a payload has been stored the memory holds its words, and zeros. -/
theorem of_storePayload {r : MappedRegion} (hr : r.region = region) (hsize : r.size = 4 * 2 ^ w)
    (hmem : Remembers h region mem) {data : Bytes} {u : Unit}
    (hm : Performs h (r.writeBytes data).run c c' (.ok u)) (x : BitVec w) :
    mem c' x = (payloadWords data).getD x.toNat 0 := by
  rw [MappedRegion.writeBytes, writeBytesAsU32Words] at hm
  dsimp only at hm
  split at hm
  · exact (Performs.of_throw_ok hm).elim
  split at hm
  · exact (Performs.of_throw_ok hm).elim
  have hwords := length_payloadWords data
  have hlength : (payloadWords data ++
      List.replicate (r.size / 4 - (payloadWords data).length) (0 : BitVec 32)).length = 2 ^ w := by
    rw [List.length_append, List.length_replicate]
    omega
  have hx := x.isLt
  rw [of_writeWords hr hmem _ rfl (by rw [hlength]; omega) hm x, hlength, if_pos (by omega)]
  rw [Nat.zero_div, Nat.sub_zero, List.getD_eq_getElem?_getD, List.getD_eq_getElem?_getD]
  rcases Nat.lt_or_ge x.toNat (payloadWords data).length with hin | hout
  · rw [List.getElem?_append_left hin]
  · rw [List.getElem?_append_right hout, List.getElem?_eq_none hout, List.getElem?_replicate]
    split <;> rfl

/-! ### Bytes in words -/

/-- Byte `k` of a word. -/
def byteOf (word : BitVec 32) (k : ℕ) : BitVec 8 := word.extractLsb' (k * 8) 8

theorem byteOf_u32FromLeBytes (b0 b1 b2 b3 : UInt8) :
    byteOf (u32FromLeBytes b0 b1 b2 b3) 0 = b0.toBitVec ∧
      byteOf (u32FromLeBytes b0 b1 b2 b3) 1 = b1.toBitVec ∧
      byteOf (u32FromLeBytes b0 b1 b2 b3) 2 = b2.toBitVec ∧
      byteOf (u32FromLeBytes b0 b1 b2 b3) 3 = b3.toBitVec := by
  have hbit : ∀ j, (u32FromLeBytes b0 b1 b2 b3).getLsbD j =
      if j < 8 then b0.toBitVec.getLsbD j else if j < 16 then b1.toBitVec.getLsbD (j - 8)
      else if j < 24 then b2.toBitVec.getLsbD (j - 16) else b3.toBitVec.getLsbD (j - 24) := by
    intro j
    simp only [u32FromLeBytes, BitVec.getLsbD_append]
    split_ifs <;> first | rfl | omega
  refine ⟨?_, ?_, ?_, ?_⟩ <;> apply BitVec.eq_of_getLsbD_eq <;> intro j hj <;>
    rw [byteOf, BitVec.getLsbD_extractLsb', hbit]
  · simp [hj]
  · simp [hj, show 8 + j < 16 by omega]
  · simp [hj, show ¬ 16 + j < 8 by omega, show ¬ 16 + j < 16 by omega, show 16 + j < 24 by omega]
  · simp [hj, show ¬ 24 + j < 8 by omega, show ¬ 24 + j < 16 by omega, show ¬ 24 + j < 24 by omega]

/-- The bytes of the payload are the bytes of its words. -/
theorem byteOf_payloadWords (data : Bytes) {k : ℕ} (hk : k < data.length) :
    byteOf ((payloadWords data).getD (k / 4) 0) (k % 4) = (data.getD k 0).toBitVec := by
  induction data using payloadWords.induct generalizing k with
  | case1 => exact absurd hk (Nat.not_lt_zero k)
  | case2 b0 =>
      obtain rfl : k = 0 := by simpa using hk
      exact (byteOf_u32FromLeBytes b0 0 0 0).1
  | case3 b0 b1 =>
      have hk' : k = 0 ∨ k = 1 := by simp at hk; omega
      obtain ⟨h₀, h₁, -⟩ := byteOf_u32FromLeBytes b0 b1 0 0
      rcases hk' with rfl | rfl
      · exact h₀
      · exact h₁
  | case4 b0 b1 b2 =>
      have hk' : k = 0 ∨ k = 1 ∨ k = 2 := by simp at hk; omega
      obtain ⟨h₀, h₁, h₂, -⟩ := byteOf_u32FromLeBytes b0 b1 b2 0
      rcases hk' with rfl | rfl | rfl
      · exact h₀
      · exact h₁
      · exact h₂
  | case5 b0 b1 b2 b3 rest ih =>
      rcases Nat.lt_or_ge k 4 with hlow | hge
      · have hk' : k = 0 ∨ k = 1 ∨ k = 2 ∨ k = 3 := by omega
        obtain ⟨h₀, h₁, h₂, h₃⟩ := byteOf_u32FromLeBytes b0 b1 b2 b3
        rcases hk' with rfl | rfl | rfl | rfl
        · exact h₀
        · exact h₁
        · exact h₂
        · exact h₃
      · obtain ⟨j, rfl⟩ := Nat.exists_eq_add_of_le' hge
        have hj : j < rest.length := by simpa using hk
        rw [payloadWords, show (j + 4) / 4 = j / 4 + 1 by omega, show (j + 4) % 4 = j % 4 by omega]
        exact ih hj

/-- The bits of a payload's words. -/
theorem getLsbD_payloadWords (data : Bytes) {k : ℕ} (hk : k < data.length) {j : ℕ} (hj : j < 8) :
    ((payloadWords data).getD (k / 4) 0).getLsbD (k % 4 * 8 + j) =
      (data.getD k 0).toBitVec.getLsbD j := by
  rw [← byteOf_payloadWords data hk, byteOf, BitVec.getLsbD_extractLsb', decide_eq_true hj,
    Bool.true_and]

end Accelerator

end Kv260Sigv
