import Kv260Sigv.Library.Sha512
import Kv260Sigv.Rtl.Sha512CompressCore

/-!
# The compression core computes the compression function

The core keeps a window of sixteen words of the schedule: in round `t ≥ 16` it forms
word `t` and writes it over word `t - 16`.  `Compressing` says what the registers hold
before round `t`; after the last round the output is the chaining value of the standard.
-/

set_option autoImplicit false

namespace Kv260Sigv

namespace Sha512CompressCore

/-! ### Functions and constants -/

theorem rotr64_eq (x : BitVec 64) {n : ℕ} (h : n < 64) : rotr64 x n = x.rotateRight n := by
  rw [BitVec.rotateRight_eq_rotateRightAux_of_lt h]
  rfl

theorem bigSigma0_eq : bigSigma0 = Sha512.bigSigma0 := by
  funext x
  simp only [bigSigma0, Sha512.bigSigma0, rotr64_eq _ (show 28 < 64 by decide),
    rotr64_eq _ (show 34 < 64 by decide), rotr64_eq _ (show 39 < 64 by decide)]

theorem bigSigma1_eq : bigSigma1 = Sha512.bigSigma1 := by
  funext x
  simp only [bigSigma1, Sha512.bigSigma1, rotr64_eq _ (show 14 < 64 by decide),
    rotr64_eq _ (show 18 < 64 by decide), rotr64_eq _ (show 41 < 64 by decide)]

theorem smallSigma0_eq : smallSigma0 = Sha512.smallSigma0 := by
  funext x
  simp only [smallSigma0, Sha512.smallSigma0, rotr64_eq _ (show 1 < 64 by decide),
    rotr64_eq _ (show 8 < 64 by decide)]

theorem smallSigma1_eq : smallSigma1 = Sha512.smallSigma1 := by
  funext x
  simp only [smallSigma1, Sha512.smallSigma1, rotr64_eq _ (show 19 < 64 by decide),
    rotr64_eq _ (show 61 < 64 by decide)]

/-- The listed constants and the default are the constants of the standard. -/
theorem roundConstant_eq {index : BitVec 7} (h : index.toNat < 80) :
    roundConstant index = Sha512.constants.getD index.toNat 0 := by
  have hall : ∀ t < 80, roundConstants.getD t 0x6c44198c4a475817 =
      Sha512.constants.getD t 0 := by decide
  exact hall index.toNat h

/-! ### Words -/

/-- The eight words of a chaining value. -/
def unpack (x : BitVec 512) : Sha512.Words :=
  ⟨word x 0, word x 1, word x 2, word x 3, word x 4, word x 5, word x 6, word x 7⟩

/-- The working variables. -/
def working (s : State) : Sha512.Words :=
  ⟨s.aReg, s.bReg, s.cReg, s.dReg, s.eReg, s.fReg, s.gReg, s.hReg⟩

/-- The low part of a concatenation. -/
theorem extractLsb'_append_low {m n k : ℕ} (x : BitVec m) (y : BitVec n) {lo : ℕ}
    (h : lo + k ≤ n) : (x ++ y).extractLsb' lo k = y.extractLsb' lo k := by
  apply BitVec.eq_of_getLsbD_eq
  intro i hi
  simp only [BitVec.getLsbD_extractLsb', BitVec.getLsbD_append]
  rw [if_pos (by omega)]

/-- The high part of a concatenation. -/
theorem extractLsb'_append_high {m n : ℕ} (x : BitVec m) (y : BitVec n) :
    (x ++ y).extractLsb' n m = x := by
  apply BitVec.eq_of_getLsbD_eq
  intro i hi
  simp only [BitVec.getLsbD_extractLsb', BitVec.getLsbD_append]
  rw [if_neg (by omega), Nat.add_sub_cancel_left]
  simp [hi]

theorem unpack_toBits (x : Sha512.Words) : unpack x.toBits = x := by
  obtain ⟨a, b, c, d, e, f, g, h⟩ := x
  unfold unpack word Sha512.Words.toBits
  congr 1
  -- word `k` lies below the `k` words in front of it
  all_goals repeat rw [extractLsb'_append_low _ _ (by decide)]
  · exact extractLsb'_append_high _ _
  · exact extractLsb'_append_high _ _
  · exact extractLsb'_append_high _ _
  · exact extractLsb'_append_high _ _
  · exact extractLsb'_append_high _ _
  · exact extractLsb'_append_high _ _
  · exact extractLsb'_append_high _ _
  · exact BitVec.extractLsb'_eq_self

/-! ### One round -/

/-- The registers before round `t` on a block, from a chaining value. -/
structure Compressing (chain : BitVec 512) (block : BitVec 1024) (t : ℕ) (s : State) : Prop where
  busy : s.busy = true
  done : s.done = false
  index : s.roundIndex.toNat = t
  working : working s = Sha512.rounds block (unpack chain) t
  window : ∀ k, k < max t 16 → max t 16 ≤ k + 16 →
    s.wMem.read (k % 16) = Sha512.schedule block k

variable {chain : BitVec 512} {block : BitVec 1024} {t : ℕ} {s : State} {i : Inputs}

/-- An index into the window, some words ahead. -/
theorem window_index (h : s.roundIndex.toNat = t) (k : ℕ) :
    (s.roundIndex.setWidth 4 + BitVec.ofNat 4 k).toNat = (t + k) % 16 := by
  rw [BitVec.toNat_add, BitVec.toNat_setWidth, BitVec.toNat_ofNat, h]
  omega

/-- The new word of the window. -/
theorem Compressing.wNew_eq (h : Compressing chain block (t + 16) s) :
    wNew s = Sha512.schedule block (t + 16) := by
  have hread : ∀ k < 16, s.wMem.read ((t + k) % 16) = Sha512.schedule block (t + k) :=
    fun k hk => h.window (t + k) (by omega) (by omega)
  have hindex : ∀ k, (s.roundIndex.setWidth 4 + BitVec.ofNat 4 k).toNat = (t + k) % 16 := by
    intro k
    rw [window_index h.index]
    omega
  have hzero : (s.roundIndex.setWidth 4).toNat = (t + 0) % 16 := by
    rw [BitVec.toNat_setWidth, h.index]
    omega
  unfold wNew
  dsimp only
  rw [show (14 : BitVec 4) = BitVec.ofNat 4 14 from rfl, show (9 : BitVec 4) = BitVec.ofNat 4 9 from rfl,
    show (1 : BitVec 4) = BitVec.ofNat 4 1 from rfl, hindex, hindex, hindex, hzero,
    hread 14 (by decide), hread 9 (by decide), hread 1 (by decide), hread 0 (by decide),
    smallSigma1_eq, smallSigma0_eq, Sha512.schedule_of_ge]
  rfl

/-- The word of the round. -/
theorem Compressing.wT_eq (h : Compressing chain block t s) : wT s = Sha512.schedule block t := by
  have hlt : s.roundIndex < 16 ↔ t < 16 := by
    rw [BitVec.lt_def, h.index]
    rfl
  unfold wT
  by_cases hearly : t < 16
  · have hindex : (s.roundIndex.setWidth 4).toNat = t % 16 := by
      rw [BitVec.toNat_setWidth, h.index]
    rw [if_pos (hlt.mpr hearly), hindex, h.window t (by omega) (by omega)]
  · obtain ⟨m, rfl⟩ : ∃ m, t = m + 16 := ⟨t - 16, by omega⟩
    rw [if_neg fun hc => hearly (hlt.mp hc)]
    exact h.wNew_eq

/-- The next working variables are those of the round function. -/
theorem Compressing.next_eq (h : Compressing chain block t s) (ht : t < 80) :
    (⟨next s 0, next s 1, next s 2, next s 3, next s 4, next s 5, next s 6, next s 7⟩ :
      Sha512.Words) = Sha512.rounds block (unpack chain) (t + 1) := by
  rw [Sha512.rounds, ← h.working, ← h.wT_eq, ← h.index,
    ← roundConstant_eq (by rw [h.index]; exact ht)]
  unfold next temp1 temp2
  rw [bigSigma0_eq, bigSigma1_eq]
  rfl

/-- A round that is not the last one. -/
theorem Compressing.step (h : Compressing chain block t s) (ht : t < 79) :
    Compressing chain block (t + 1) (Sha512CompressCore.step i s) := by
  have hlast : s.roundIndex ≠ 79 := by
    intro heq
    have hindex := h.index
    rw [heq, show (79 : BitVec 7).toNat = 79 from rfl] at hindex
    omega
  have hbusy : ¬ (!s.busy) = true := by
    rw [h.busy]
    decide
  unfold Sha512CompressCore.step
  rw [if_neg hbusy]
  dsimp only
  rw [if_neg hlast]
  refine ⟨h.busy, rfl, ?_, h.next_eq (by omega), ?_⟩
  · show (s.roundIndex + 1).toNat = t + 1
    rw [BitVec.toNat_add, h.index, show (1 : BitVec 7).toNat = 1 from rfl]
    exact Nat.mod_eq_of_lt (by omega)
  · intro k hk hk'
    have hlt : s.roundIndex < 16 ↔ t < 16 := by
      rw [BitVec.lt_def, h.index]
      rfl
    by_cases hearly : t < 16
    · show (if s.roundIndex < 16 then s.wMem else _).read _ = _
      rw [if_pos (hlt.mpr hearly)]
      exact h.window k (by omega) (by omega)
    · obtain ⟨m, rfl⟩ : ∃ m, t = m + 16 := ⟨t - 16, by omega⟩
      have hindex : (s.roundIndex.setWidth 4).toNat = m % 16 := by
        rw [BitVec.toNat_setWidth, h.index]
        omega
      show (if s.roundIndex < 16 then s.wMem else _).read _ = _
      rw [if_neg fun hc => hearly (hlt.mp hc), hindex, h.wNew_eq]
      by_cases hnew : k = m + 16
      · subst hnew
        rw [Nat.add_mod_right, RegFile.read_write_self _ _ (Nat.mod_lt m (by decide))]
      · rw [RegFile.read_write_of_ne _ _ (by omega)]
        exact h.window k (by omega) (by omega)

/-- What the core shows after the last round. -/
structure Compressed (chain : BitVec 512) (block : BitVec 1024) (s : State) : Prop where
  busy : s.busy = false
  done : s.done = true
  hOut : s.hOut = (Sha512.compress (unpack chain) block).toBits

/-- The last round adds the chaining value, which is still on the input. -/
theorem Compressing.last (h : Compressing chain block 79 s) (hchain : i.hIn = chain) :
    Compressed chain block (Sha512CompressCore.step i s) := by
  have hlast : s.roundIndex = 79 := BitVec.eq_of_toNat_eq h.index
  have hbusy : ¬ (!s.busy) = true := by
    rw [h.busy]
    decide
  unfold Sha512CompressCore.step
  rw [if_neg hbusy]
  dsimp only
  rw [if_pos hlast]
  refine ⟨rfl, rfl, ?_⟩
  rw [Sha512.compress, ← h.next_eq (by decide), ← hchain]
  rfl

/-- A start loads the chaining value and the block. -/
theorem compressing_of_start (hbusy : s.busy = false) (hstart : i.start = true) :
    Compressing i.hIn i.blockIn 0 (step i s) := by
  unfold Sha512CompressCore.step
  rw [hbusy, if_pos (by decide), if_pos hstart]
  refine ⟨rfl, rfl, rfl, rfl, ?_⟩
  intro k hk hk'
  have hlt : k < 16 := by simpa using hk
  rw [Nat.mod_eq_of_lt hlt, RegFile.read_ofFn _ hlt, Sha512.schedule_of_lt hlt]
  rfl

/-- Without a start an idle core drops `done` and stays idle. -/
theorem step_idle (hbusy : s.busy = false) (hstart : i.start = false) :
    step i s = { s with done := false } := by
  rw [step, hbusy, hstart]
  rfl

/-- The core shows a result only when it is idle again. -/
theorem busy_of_done : (step i s).done = true → (step i s).busy = false := by
  unfold step
  by_cases hbusy : (!s.busy) = true
  · rw [if_pos hbusy]
    split
    · exact fun h => absurd h Bool.false_ne_true
    · exact fun h => absurd h Bool.false_ne_true
  · rw [if_neg hbusy]
    dsimp only
    by_cases hlast : s.roundIndex = 79
    · rw [if_pos hlast]
      exact fun _ => rfl
    · rw [if_neg hlast]
      exact fun h => absurd h Bool.false_ne_true

end Sha512CompressCore

end Kv260Sigv
