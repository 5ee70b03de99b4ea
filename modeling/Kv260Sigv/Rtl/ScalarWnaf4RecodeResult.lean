import Kv260Sigv.Library.Wnaf
import Kv260Sigv.Rtl.ScalarWnaf4Recode

/-!
# The recoder puts out the signed digits

The working value before the digit for index `i` is what the digits below leave of the
scalar (`Recoding`).  It stays below `2 ^ (255 - i)` or at it, so that nothing is lost in 257
bits and nothing is left after the last digit.
-/

set_option autoImplicit false

namespace Kv260Sigv

namespace ScalarWnaf4Recode

open Clocked

/-! ### One digit -/

theorem getLsbD_setWidth_nibble (work : BitVec 257) :
    ((work.setWidth 4).setWidth 257).getLsbD 0 = work.getLsbD 0 := by
  rw [BitVec.getLsbD_setWidth, BitVec.getLsbD_setWidth]
  rfl

theorem setWidth_nibble (work : BitVec 257) :
    ((work.setWidth 4).setWidth 257).setWidth 4 = work.setWidth 4 := by
  rw [BitVec.setWidth_setWidth_of_le _ (by decide), BitVec.setWidth_eq]

theorem digitValue_nibble (work : BitVec 257) :
    digitValue ((work.setWidth 4).setWidth 257) = digitValue work := by
  rw [digitValue, digitValue, getLsbD_setWidth_nibble, setWidth_nibble]

theorem digitAbsValue_nibble (work : BitVec 257) :
    digitAbsValue ((work.setWidth 4).setWidth 257) = digitAbsValue work := by
  rw [digitAbsValue, digitAbsValue, getLsbD_setWidth_nibble, setWidth_nibble]

/-- The cases of the source are the digits of a window of four bits. -/
theorem toInt_digitValue (work : BitVec 257) :
    (digitValue work).toInt = Wnaf.digit 4 work.toNat := by
  have hcases : ∀ x : BitVec 4, (digitValue (x.setWidth 257)).toInt = Wnaf.digit 4 x.toNat := by
    decide
  rw [← digitValue_nibble, hcases, BitVec.toNat_setWidth, Int.natCast_emod]
  exact Wnaf.digit_emod (w := 4) (by decide) _

theorem digitAbsValue_eq (work : BitVec 257) :
    (digitAbsValue work).toNat = (digitValue work).toInt.natAbs ∧
      ((digitValue work).getLsbD 3 = decide ((digitValue work).toInt < 0)) := by
  have hcases : ∀ x : BitVec 4,
      (digitAbsValue (x.setWidth 257)).toNat = (digitValue (x.setWidth 257)).toInt.natAbs ∧
        (digitValue (x.setWidth 257)).getLsbD 3 =
          decide ((digitValue (x.setWidth 257)).toInt < 0) := by
    decide
  have hnibble := hcases (work.setWidth 4)
  rwa [digitValue_nibble, digitAbsValue_nibble] at hnibble

theorem toNat_adjustedScalar {work : BitVec 257} (h : work.toNat ≤ 2 ^ 255) :
    ((adjustedScalar work).toNat : ℤ) = work.toNat - Wnaf.digit 4 work.toNat := by
  obtain ⟨habs, hsign⟩ := digitAbsValue_eq work
  have hdigit := toInt_digitValue work
  have hsmall := Wnaf.abs_digit_lt (w := 4) (by decide) work.toNat
  have hle : Wnaf.digit 4 work.toNat ≤ work.toNat := Wnaf.digit_le (Int.natCast_nonneg _)
  rw [← hdigit] at hsmall hle ⊢
  rw [abs_lt] at hsmall
  rw [adjustedScalar]
  split
  · rw [hsign]
    split
    · next hneg =>
        rw [decide_eq_true_eq] at hneg
        rw [BitVec.toNat_add, BitVec.toNat_setWidth, habs]
        omega
    · next hpos =>
        rw [decide_eq_true_eq] at hpos
        rw [BitVec.toNat_sub, BitVec.toNat_setWidth, habs]
        omega
  · next heven =>
      rw [digitValue, if_neg heven]
      exact (sub_zero _).symm

/-- What is left after a digit. -/
theorem toNat_shifted {work : BitVec 257} (h : work.toNat ≤ 2 ^ 255) :
    ((adjustedScalar work >>> 1).toNat : ℤ) = Wnaf.next 4 work.toNat := by
  rw [BitVec.toNat_ushiftRight, Nat.shiftRight_eq_div_pow, Int.natCast_ediv,
    toNat_adjustedScalar h]
  rfl

/-! ### The loop -/

/-- Before the digit for index `i`. -/
structure Recoding (scalar : ℤ) (i : ℕ) (s : State) : Prop where
  busy : s.busy = true
  index : s.bitIndex.toNat = i
  work : (s.scalarWork.toNat : ℤ) = Wnaf.rest 4 scalar i

/-- With the digit for index `i`. -/
structure Emits (digit : ℤ) (i : ℕ) (s : State) : Prop where
  valid : s.digitValid = true
  index : s.digitIndex.toNat = i
  digit : s.digit.toInt = digit
  done : s.done = decide (i = 255)

variable {scalar : ℤ} {i : ℕ} {s : State}

theorem recoding_start (j : Inputs) (hidle : s.busy = false) (hstart : j.start = true) :
    Recoding j.scalarIn.toNat 0 (step j s) ∧ (step j s).digitValid = false ∧
      (step j s).done = false := by
  have hstep : step j s =
      { s with
        done := false
        digitValid := false
        busy := true
        scalarWork := j.scalarIn.setWidth 257
        bitIndex := 0 } := by
    simp only [step, hidle, hstart, Bool.not_false, if_true]
  rw [hstep]
  refine ⟨⟨rfl, rfl, ?_⟩, rfl, rfl⟩
  have hlt : j.scalarIn.toNat < 2 ^ 256 := j.scalarIn.isLt
  have hwork : (j.scalarIn.setWidth 257).toNat = j.scalarIn.toNat := by
    rw [BitVec.toNat_setWidth]
    omega
  exact congrArg Nat.cast hwork

/-- The registers after a digit; the last one ends the work. -/
theorem step_busy (j : Inputs) (hbusy : s.busy = true) :
    step j s =
      { s with
        digit := digitValue s.scalarWork
        digitIndex := s.bitIndex
        digitValid := true
        scalarWork := adjustedScalar s.scalarWork >>> 1
        busy := !decide (s.bitIndex = 255)
        done := decide (s.bitIndex = 255)
        bitIndex := if s.bitIndex = 255 then s.bitIndex else s.bitIndex + 1 } := by
  simp only [step, hbusy, Bool.not_true, Bool.false_eq_true, if_false]
  split
  · next hlast => simp only [hlast, decide_true, Bool.not_true]
  · next hlast => simp only [hlast, decide_false, Bool.not_false]

theorem index_eq_last (hi : s.bitIndex.toNat = i) : s.bitIndex = 255 ↔ i = 255 := by
  subst hi
  exact BitVec.toNat_inj.symm

/-- One digit. -/
theorem Recoding.step (h : Recoding scalar i s) (hle : scalar ≤ 2 ^ 255)
    (hi : i ≤ 255) (j : Inputs) :
    Emits (Wnaf.digits 4 scalar i) i (ScalarWnaf4Recode.step j s) ∧
      (i < 255 → Recoding scalar (i + 1) (ScalarWnaf4Recode.step j s)) := by
  have hbound : s.scalarWork.toNat ≤ 2 ^ 255 := by
    have hrest := Wnaf.rest_le (w := 4) (by decide) hle hi
    have hmono : (2 : ℤ) ^ (255 - i) ≤ 2 ^ 255 := pow_le_pow_right₀ one_le_two (Nat.sub_le 255 i)
    rw [← h.work] at hrest
    exact_mod_cast hrest.trans hmono
  rw [step_busy j h.busy]
  refine ⟨⟨rfl, h.index, ?_, ?_⟩, ?_⟩
  · exact (toInt_digitValue _).trans (congrArg (Wnaf.digit 4) h.work)
  · exact decide_eq_decide.mpr (index_eq_last h.index)
  · intro hlt
    have hne : s.bitIndex ≠ 255 := fun hlast => hlt.ne ((index_eq_last h.index).mp hlast)
    refine ⟨?_, ?_, ?_⟩
    · show (!decide (s.bitIndex = 255)) = true
      rw [decide_eq_false hne]
      rfl
    · show (if s.bitIndex = 255 then s.bitIndex else s.bitIndex + 1).toNat = i + 1
      rw [if_neg hne, BitVec.toNat_add, h.index]
      exact Nat.mod_eq_of_lt (show i + 1 < 2 ^ 8 by omega)
    · exact (toNat_shifted hbound).trans (congrArg (Wnaf.next 4) h.work)

/-- With the last digit the work is over. -/
theorem Recoding.rest_of_last (h : Recoding scalar 255 s) (j : Inputs) :
    (ScalarWnaf4Recode.step j s).busy = false := by
  rw [step_busy j h.busy]
  exact congrArg not (decide_eq_true ((index_eq_last h.index).mpr rfl))

/-- At rest no digit is put out, and none is the last. -/
theorem silent_of_rest (j : Inputs) (hidle : s.busy = false) :
    (step j s).digitValid = false ∧ (step j s).done = false := by
  simp only [step, hidle, Bool.not_false, if_true]
  split <;> exact ⟨rfl, rfl⟩

/-- After the last digit the recoder rests. -/
theorem Recoding.after_last (h : Recoding scalar 255 s) (j j' : Inputs) :
    (ScalarWnaf4Recode.step j' (ScalarWnaf4Recode.step j s)).digitValid = false :=
  (silent_of_rest j' (h.rest_of_last j)).1

/-- The registers before each digit. -/
theorem recoding_run {inputs : ℕ → Inputs} (hidle : s.busy = false)
    (hstart : (inputs 0).start = true) (hscalar : (inputs 0).scalarIn.toNat < 2 ^ 255)
    (hi : i ≤ 255) :
    Recoding (inputs 0).scalarIn.toNat i (run step inputs s (i + 1)) := by
  induction i with
  | zero => exact (recoding_start (inputs 0) hidle hstart).1
  | succ i ih =>
      exact ((ih (by omega)).step (by exact_mod_cast hscalar.le) (by omega)
        (inputs (i + 1))).2 (by omega)

/-! ### A whole recoding -/

/-- The digit that is put out for an index. -/
def digitAt (inputs : ℕ → Inputs) (s : State) (i : ℕ) : ℤ :=
  (run step inputs s (i + 2)).digit.toInt

theorem emits_run {inputs : ℕ → Inputs} (hidle : s.busy = false)
    (hstart : (inputs 0).start = true) (hscalar : (inputs 0).scalarIn.toNat < 2 ^ 255)
    (hi : i ≤ 255) :
    Emits (Wnaf.digits 4 (inputs 0).scalarIn.toNat i) i (run step inputs s (i + 2)) :=
  ((recoding_run hidle hstart hscalar hi).step (by exact_mod_cast hscalar.le) hi (inputs (i + 1))).1

/-- What a recoding puts out, by the registers after each cycle: no digit with the start, one in
each of the next 256 cycles, the last with `done`, and none after it. -/
structure InOrder (registers : ℕ → State) : Prop where
  start : (registers 1).digitValid = false ∧ (registers 1).done = false
  digit : ∀ i < 256, (registers (i + 2)).digitValid = true ∧
    (registers (i + 2)).digitIndex.toNat = i ∧ (registers (i + 2)).done = decide (i = 255)
  after : (registers 258).digitValid = false

theorem inOrder_run {inputs : ℕ → Inputs} (hidle : s.busy = false)
    (hstart : (inputs 0).start = true) (hscalar : (inputs 0).scalarIn.toNat < 2 ^ 255) :
    InOrder (run step inputs s) where
  start := (recoding_start (inputs 0) hidle hstart).2
  digit := by
    intro i hi
    have hemits := emits_run hidle hstart hscalar (i := i) (by omega)
    exact ⟨hemits.valid, hemits.index, hemits.done⟩
  after := by
    rw [show 258 = 255 + 1 + 1 + 1 from rfl, run_succ, run_succ]
    exact (recoding_run hidle hstart hscalar le_rfl).after_last _ _

/-- Every scalar below `2 ^ 255` is recoded: 256 digits in order, zero or odd and at most 7,
with three zeros after each nonzero one, that sum up to it. -/
theorem recode_digits {inputs : ℕ → Inputs} (hidle : s.busy = false)
    (hstart : (inputs 0).start = true) (hscalar : (inputs 0).scalarIn.toNat < 2 ^ 255) :
    InOrder (run step inputs s) ∧
      (∀ i < 256, digitAt inputs s i = 0 ∨
        digitAt inputs s i % 2 = 1 ∧ |digitAt inputs s i| ≤ 7) ∧
      (∀ i j, digitAt inputs s i ≠ 0 → i < j → j ≤ i + 3 → j < 256 → digitAt inputs s j = 0) ∧
      ∑ i ∈ Finset.range 256, digitAt inputs s i * 2 ^ i = (inputs 0).scalarIn.toNat := by
  have hdigit : ∀ i < 256, digitAt inputs s i = Wnaf.digits 4 (inputs 0).scalarIn.toNat i :=
    fun i hi => (emits_run hidle hstart hscalar (by omega)).digit
  refine ⟨inOrder_run hidle hstart hscalar, ?_, ?_, ?_⟩
  · intro i hi
    rw [hdigit i hi]
    refine (Wnaf.digit_eq_zero_or_odd (w := 4) (by decide) _).imp_right fun hodd => ⟨hodd, ?_⟩
    exact Int.lt_add_one_iff.mp (Wnaf.abs_digit_lt (w := 4) (by decide) _)
  · intro i j hne hlt hj hlast
    rw [hdigit i (by omega)] at hne
    rw [hdigit j hlast]
    exact Wnaf.digits_eq_zero (w := 4) (by decide) hne hlt (by omega)
  · rw [Finset.sum_congr rfl fun i hi => by rw [hdigit i (Finset.mem_range.mp hi)]]
    exact Wnaf.sum_all_digits (w := 4) (m := 255) (by decide) (Int.natCast_nonneg _)
      (by exact_mod_cast hscalar.le)

/-- The largest scalar below `2 ^ 255`. -/
def largest : BitVec 256 := 0x7fffffffffffffffffffffffffffffffffffffffffffffffffffffffffffffff

theorem recode_digits_largest :
    ∑ i ∈ Finset.range 256, digitAt (fun _ => ⟨true, largest⟩) reset i * 2 ^ i =
      (largest.toNat : ℤ) :=
  (@recode_digits reset (fun _ => ⟨true, largest⟩) rfl rfl (by decide)).2.2.2

end ScalarWnaf4Recode

end Kv260Sigv
