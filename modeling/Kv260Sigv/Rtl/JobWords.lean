import Kv260Sigv.Rtl.SigvKv260Core
import Mathlib.Tactic.IntervalCases

/-!
# Job keys and their words

A key travels as 24 words of 32 bits.  `keyWord` reads one of them, `jobKey` is
the key the job memory holds for a job, and the loader's `captureWord` fills a
key word by word.
-/

namespace Kv260Sigv

/-- Eight words, the first in the low bits. -/
def packWords (f : ℕ → BitVec 32) : BitVec 256 :=
  (List.range 8).foldl (fun x w => x.writeSlice (w * 32) (f w)) 0

/-- The contents of the job memory, word by word. -/
abbrev JobMemory := BitVec 13 → BitVec 32

/-- Word `w` of the key of job `i` is word `24 * i + w` of the memory. -/
def jobKey (mem : JobMemory) (i : ℕ) : JobKey where
  pubkey := packWords fun w => mem (BitVec.ofNat 13 (24 * i + w))
  sigR := packWords fun w => mem (BitVec.ofNat 13 (24 * i + (8 + w)))
  sigS := packWords fun w => mem (BitVec.ofNat 13 (24 * i + (16 + w)))

/-- Word `w` of a key. -/
def keyWord (key : JobKey) (w : ℕ) : BitVec 32 :=
  if w < 8 then key.pubkey.extractLsb' (w * 32) 32
  else if w < 16 then key.sigR.extractLsb' (w * 32 - 8 * 32) 32
  else key.sigS.extractLsb' (w * 32 - 16 * 32) 32

theorem extractLsb_packWords (f : ℕ → BitVec 32) {w : ℕ} (h : w < 8) :
    (packWords f).extractLsb' (w * 32) 32 = f w := by
  have hprefix : ∀ n ≤ 8, w < n →
      ((List.range n).foldl (fun x w => x.writeSlice (w * 32) (f w)) (0 : BitVec 256)).extractLsb'
        (w * 32) 32 = f w := by
    intro n
    induction n with
    | zero =>
        intro _ hw
        omega
    | succ n ih =>
        intro hn hw
        rw [List.range_succ, List.foldl_append, List.foldl_cons, List.foldl_nil]
        by_cases hlast : w = n
        · subst hlast
          exact BitVec.extractLsb'_writeSlice_self _ _ (by omega)
        · rw [BitVec.extractLsb'_writeSlice_of_disjoint _ _ (by omega) (by omega)]
          exact ih (by omega) (by omega)
  exact hprefix 8 le_rfl h

theorem keyWord_pubkey (key : JobKey) {w : ℕ} (h : w < 8) :
    keyWord key w = key.pubkey.extractLsb' (w * 32) 32 := if_pos h

theorem keyWord_sigR (key : JobKey) {w : ℕ} (h : w < 8) :
    keyWord key (8 + w) = key.sigR.extractLsb' (w * 32) 32 := by
  rw [keyWord, if_neg (by omega), if_pos (by omega), show (8 + w) * 32 - 8 * 32 = w * 32 by omega]

theorem keyWord_sigS (key : JobKey) {w : ℕ} (h : w < 8) :
    keyWord key (16 + w) = key.sigS.extractLsb' (w * 32) 32 := by
  rw [keyWord, if_neg (by omega), if_neg (by omega),
    show (16 + w) * 32 - 16 * 32 = w * 32 by omega]

/-- The words of a job's key are the words of the memory. -/
theorem keyWord_jobKey (mem : JobMemory) (i : ℕ) {w : ℕ} (h : w < 24) :
    keyWord (jobKey mem i) w = mem (BitVec.ofNat 13 (24 * i + w)) := by
  rcases Nat.lt_or_ge w 8 with hlow | hge
  · rw [keyWord_pubkey _ hlow]
    exact extractLsb_packWords (fun w => mem (BitVec.ofNat 13 (24 * i + w))) hlow
  obtain ⟨v, rfl⟩ := Nat.exists_eq_add_of_le hge
  rcases Nat.lt_or_ge v 8 with hmid | hge'
  · rw [keyWord_sigR _ hmid]
    exact extractLsb_packWords (fun w => mem (BitVec.ofNat 13 (24 * i + (8 + w)))) hmid
  obtain ⟨u, rfl⟩ := Nat.exists_eq_add_of_le hge'
  have hhigh : u < 8 := by omega
  rw [← Nat.add_assoc, keyWord_sigS _ hhigh]
  exact extractLsb_packWords (fun w => mem (BitVec.ofNat 13 (24 * i + (16 + w)))) hhigh

theorem eq_of_extract_eq {x y : BitVec 256}
    (h : ∀ w < 8, x.extractLsb' (w * 32) 32 = y.extractLsb' (w * 32) 32) : x = y := by
  apply BitVec.eq_of_getLsbD_eq
  intro i hi
  have hword := congrArg (fun v => v.getLsbD (i % 32)) (h (i / 32) (by omega))
  have hlt : i % 32 < 32 := Nat.mod_lt _ (by decide)
  simp only [BitVec.getLsbD_extractLsb', hlt, decide_true, Bool.true_and,
    show i / 32 * 32 + i % 32 = i by omega] at hword
  exact hword

/-- A key is its 24 words. -/
theorem JobKey.ext_words {key key' : JobKey} (h : ∀ w < 24, keyWord key w = keyWord key' w) :
    key = key' := by
  have hpubkey : key.pubkey = key'.pubkey := by
    refine eq_of_extract_eq fun w hw => ?_
    rw [← keyWord_pubkey key hw, ← keyWord_pubkey key' hw]
    exact h w (by omega)
  have hsigR : key.sigR = key'.sigR := by
    refine eq_of_extract_eq fun w hw => ?_
    rw [← keyWord_sigR key hw, ← keyWord_sigR key' hw]
    exact h (8 + w) (by omega)
  have hsigS : key.sigS = key'.sigS := by
    refine eq_of_extract_eq fun w hw => ?_
    rw [← keyWord_sigS key hw, ← keyWord_sigS key' hw]
    exact h (16 + w) (by omega)
  cases key
  cases key'
  simp_all

namespace SigvKv260Core

/-- Capturing a word sets it and leaves the others. -/
theorem keyWord_captureWord (key : JobKey) {index : BitVec 5} {word : BitVec 32} {w : ℕ}
    (hindex : index.toNat < 24) (hw : w < 24) :
    keyWord (captureWord key index word) w = if w = index.toNat then word else keyWord key w := by
  have hlt8 : index < 8 ↔ index.toNat < 8 := Iff.rfl
  have hlt16 : index < 16 ↔ index.toNat < 16 := Iff.rfl
  unfold captureWord keyWord
  simp only [hlt8, hlt16]
  generalize index.toNat = k at *
  by_cases hk : w = k
  · subst hk
    rw [if_pos rfl]
    split
    · exact BitVec.extractLsb'_writeSlice_self _ _ (by omega)
    · split
      · exact BitVec.extractLsb'_writeSlice_self _ _ (by omega)
      · exact BitVec.extractLsb'_writeSlice_self _ _ (by omega)
  · rw [if_neg hk]
    split_ifs <;> dsimp only <;>
      rw [BitVec.extractLsb'_writeSlice_of_disjoint _ _ (by omega) (by omega)]

end SigvKv260Core

end Kv260Sigv
