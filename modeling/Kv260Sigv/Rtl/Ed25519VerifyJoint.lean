import Kv260Sigv.Rtl.Ed25519VerifyPrecompute
import Kv260Sigv.Rtl.Ed25519VerifyProgress
import Kv260Sigv.Rtl.ScalarReduceModLResult

/-!
# Joint scalar multiplication

From `ST_RECODE_S_START` the controller packs the digits of both scalars, tabulates the odd
multiples of the key and goes through the bits from the highest to the lowest.  Before the
doubling for a bit the accumulator stands for what the higher digits leave of both scalars,
so that after the last bit it stands for `s * B - k * A`.
-/

set_option autoImplicit false

namespace Kv260Sigv

namespace Ed25519VerifyEngine

open Clocked
open Ed25519PointCore (answers_add answers_double opAdd opDouble)

universe u

variable {M : Multiplier} {w : ℕ} {mul : BitVec 255 → BitVec 255 → BitVec 255} {a : ExtPoint}
  {sScalar kScalar x y : ℤ} {j : ℕ} {s s' : State M w}

/-! ### The operands of a bit -/

/-- At bit `j` of the joint multiplication. -/
structure Joint (mul : BitVec 255 → BitVec 255 → BitVec 255) (a : ExtPoint)
    (sScalar kScalar : ℤ) (phase : Phase) (j : ℕ) (s : State M w) : Prop where
  tabled : Tabled.{u} mul a sScalar kScalar phase 4 s
  index : s.jointBitIndex.toNat = j

namespace Joint

variable {phase phase' : Phase}

theorem move (h : Joint.{u} mul a sScalar kScalar phase j s) (hstate : s'.state = phase')
    (hindex : s'.jointBitIndex = s.jointBitIndex) (hkeep : s'.multiples = s.multiples) :
    Joint.{u} mul a sScalar kScalar phase' j s' :=
  ⟨h.tabled.move hstate hkeep, by rw [hindex, h.index]⟩

theorem state (h : Joint.{u} mul a sScalar kScalar phase j s) : s.state = phase := h.tabled.state

theorem toInt_nextKDigit (h : Joint.{u} mul a sScalar kScalar phase j s) :
    s.nextKDigit.toInt = Wnaf.digits 4 kScalar j := by
  rw [← h.index]
  exact h.tabled.kPacks _ s.jointBitIndex.isLt

theorem toInt_nextSDigit (h : Joint.{u} mul a sScalar kScalar phase j s) :
    s.nextSDigit.toInt = Wnaf.digits 4 sScalar j := by
  rw [← h.index]
  exact h.tabled.sPacks _ s.jointBitIndex.isLt

theorem nextKDigit_eq_zero (h : Joint.{u} mul a sScalar kScalar phase j s) :
    s.nextKDigit = 0 ↔ Wnaf.digits 4 kScalar j = 0 := by
  rw [← h.toInt_nextKDigit]
  exact (digit_cases s.nextKDigit).2.2

theorem nextSDigit_eq_zero (h : Joint.{u} mul a sScalar kScalar phase j s) :
    s.nextSDigit = 0 ↔ Wnaf.digits 4 sScalar j = 0 := by
  rw [← h.toInt_nextSDigit]
  exact (digit_cases s.nextSDigit).2.2

/-- The multiples of the key are at hand. -/
theorem oddMultiple (h : Joint.{u} mul a sScalar kScalar phase j s) :
    ∀ n ∈ oddSizes, Combines.{u} mul a (s.oddMultiple n) 0 (-n) := by
  intro n hn
  simp only [oddSizes, List.mem_cons, List.not_mem_nil, or_false] at hn
  rcases hn with rfl | rfl | rfl | rfl
  · exact h.tabled.combines_key
  · exact h.tabled.a3 (by decide)
  · exact h.tabled.a5 (by decide)
  · exact h.tabled.a7 (by decide)

end Joint

/-- The operands for the digits of this bit are selected. -/
structure Selected (s : State M w) : Prop where
  window : s.baseWindowValue = digitAbs s.nextSDigit
  key : s.regSelA = selectA s s.nextKDigit
  base : s.regSelBase = selectBase s s.nextSDigit
  digit : s.currentSDigit = s.nextSDigit

/-- The digit of a scalar at the current bit. -/
def State.digitOf (scalar : ℤ) (s : State M w) : ℤ := Wnaf.digits 4 scalar s.jointBitIndex.toNat

/-- Where an operand is added, it is the one for the digit at the current bit: a multiple of the
key by the size of the digit, negated unless the digit is negative, or the output of the table
for the size of the digit, negated if it is negative. -/
structure UsesDigits (mul : BitVec 255 → BitVec 255 → BitVec 255) (a : ExtPoint)
    (sScalar kScalar : ℤ) (s : State M w) : Prop where
  key : s.state = .jointAddAStart → s.digitOf kScalar ≠ 0 ∧
    s.regSelA =
      (if s.digitOf kScalar < 0 then s.oddMultiple (s.digitOf kScalar).natAbs
        else negPoint (s.oddMultiple (s.digitOf kScalar).natAbs)) ∧
    Combines.{u} mul a (s.oddMultiple (s.digitOf kScalar).natAbs) 0 (-(s.digitOf kScalar).natAbs)
  base : s.state = .jointAddBStart → s.digitOf sScalar ≠ 0 ∧
    s.baseWindowValue.toNat = (s.digitOf sScalar).natAbs ∧
    s.regSelBase = if s.digitOf sScalar < 0 then negPoint s.basepoint else s.basepoint

/-- The multiplication has not come to the end. -/
def Unfinished (s : State M w) : Prop := ¬ (s.state = .jointNext ∧ s.jointBitIndex = 0)

/-- Before the end, with the right operands. -/
structure OnTheWay (mul : BitVec 255 → BitVec 255 → BitVec 255) (a : ExtPoint)
    (sScalar kScalar : ℤ) (s : State M w) : Prop where
  uses : UsesDigits.{u} mul a sScalar kScalar s
  unfinished : Unfinished s

/-- The states that neither add an operand nor end a bit. -/
def Phase.plain : Phase → Bool
  | .jointAddAStart | .jointAddBStart | .jointNext => false
  | _ => true

theorem onTheWay_of_plain (h : s.state.plain = true) : OnTheWay.{u} mul a sScalar kScalar s := by
  refine ⟨⟨?_, ?_⟩, ?_⟩
  · intro hstate
    rw [hstate] at h
    cases h
  · intro hstate
    rw [hstate] at h
    cases h
  · rintro ⟨hstate, -⟩
    rw [hstate] at h
    cases h

theorem onTheWay_of_pointWaits (h : s.state.pointWaits = true) :
    OnTheWay.{u} mul a sScalar kScalar s := by
  refine onTheWay_of_plain ?_
  revert h
  cases s.state <;> decide

/-- Where an operand is added. -/
theorem Joint.onTheWay {phase : Phase} (h : Joint.{u} mul a sScalar kScalar phase j s)
    (hselected : Selected s) (hnext : phase ≠ .jointNext)
    (hkey : phase = .jointAddAStart → Wnaf.digits 4 kScalar j ≠ 0)
    (hbase : phase = .jointAddBStart → Wnaf.digits 4 sScalar j ≠ 0) :
    OnTheWay.{u} mul a sScalar kScalar s := by
  have hkDigit := h.toInt_nextKDigit
  have hsDigit := h.toInt_nextSDigit
  refine ⟨⟨?_, ?_⟩, fun hend => hnext (h.state.symm.trans hend.1)⟩
  · intro hstate
    have hne := hkey (h.state.symm.trans hstate)
    have hsize := natAbs_digits hne
    rw [State.digitOf, h.index]
    refine ⟨hne, ?_, h.oddMultiple _ hsize⟩
    rw [hselected.key, selectA_eq s (by rwa [hkDigit]), hkDigit]
  · intro hstate
    have hne := hbase (h.state.symm.trans hstate)
    rw [State.digitOf, h.index]
    refine ⟨hne, ?_, ?_⟩
    · rw [hselected.window, (digit_cases _).1, hsDigit]
    · rw [hselected.base, selectBase_eq, hsDigit]

/-! ### One bit -/

/-- With an accumulator for `x • B - y • A`, before the doubling. -/
structure Doubles (mul : BitVec 255 → BitVec 255 → BitVec 255) (a : ExtPoint)
    (sScalar kScalar : ℤ) (j : ℕ) (x y : ℤ) (s : State M w) : Prop where
  joint : Joint.{u} mul a sScalar kScalar .jointDblStart j s
  acc : Combines.{u} mul a s.acc x y

/-- After the doubling, with the operands of the bit. -/
structure Stage (mul : BitVec 255 → BitVec 255 → BitVec 255) (a : ExtPoint)
    (sScalar kScalar : ℤ) (phase : Phase) (j : ℕ) (x y : ℤ) (s : State M w) : Prop where
  joint : Joint.{u} mul a sScalar kScalar phase j s
  selected : Selected s
  acc : Combines.{u} mul a s.acc x y

/-- After the addition of the key, by the digit of the signature. -/
def afterKey (sDigit : ℤ) : Phase := if sDigit ≠ 0 then .jointAddBStart else .jointNext

/-- After the doubling, by both digits. -/
def afterDouble (kDigit sDigit : ℤ) : Phase :=
  if kDigit ≠ 0 then .jointAddAStart else afterKey sDigit

theorem Selected.move (h : Selected s) (hindex : s'.jointBitIndex = s.jointBitIndex)
    (hkeep : s'.multiples = s.multiples) (hwindow : s'.baseWindowValue = s.baseWindowValue)
    (hkey : s'.regSelA = s.regSelA) (hbase : s'.regSelBase = s.regSelBase)
    (hdigit : s'.currentSDigit = s.currentSDigit) : Selected s' := by
  simp only [State.multiples, Prod.mk.injEq] at hkeep
  obtain ⟨ha, -, ha3, ha5, ha7, hs, hk⟩ := hkeep
  have hsDigit : s'.nextSDigit = s.nextSDigit := by
    rw [State.nextSDigit, State.nextSDigit, hs, hindex]
  have hkDigit : s'.nextKDigit = s.nextKDigit := by
    rw [State.nextKDigit, State.nextKDigit, hk, hindex]
  refine ⟨?_, ?_, ?_, ?_⟩
  · rw [hwindow, hsDigit, h.window]
  · rw [hkey, hkDigit, h.key]
    simp only [selectA, ha, ha3, ha5, ha7]
  · rw [hbase, hsDigit, h.base]
    simp only [selectBase, State.basepoint, hwindow]
  · rw [hdigit, hsDigit, h.digit]

theorem comes_double (h : M.Computes mul) (hreg : Regular mul) :
    Comes mul (OnTheWay.{u} (M := M) (w := w) mul a sScalar kScalar)
      (Doubles.{u} mul a sScalar kScalar j x y)
      (Stage.{u} mul a sScalar kScalar
        (afterDouble (Wnaf.digits 4 kScalar j) (Wnaf.digits 4 sScalar j)) j (2 * x) (2 * y)) := by
  refine comes_answer (R := fun p => Combines.{u} mul a p (2 * x) (2 * y))
    (K := fun s => Joint.{u} mul a sScalar kScalar .jointDblWait j s ∧
      s.baseWindowValue = digitAbs s.nextSDigit) h hreg ?_ ?_ ?_ ?_
  · intro i s hs
    have hstep : step i s = startPoint opDouble s.acc s.acc .jointDblWait
        { rest i s with baseWindowValue := digitAbs s.nextSDigit } := by
      rw [step, stepState, hs.joint.state]
    rw [hstep]
    exact ⟨⟨hs.joint.move rfl rfl rfl, rfl⟩, rfl, _, answers_double rfl, hs.acc.double⟩
  · rintro i s ⟨hs, hwindow⟩ hsilent
    have hstep : step i s = { rest i s with
        regSelBase := selectBase s s.nextSDigit
        regSelA := selectA s s.nextKDigit } := by
      rw [step, stepState, hs.state]
      exact if_neg (by rw [hsilent]; exact Bool.false_ne_true)
    rw [hstep]
    exact ⟨hs.move hs.state rfl rfl, hwindow⟩
  · rintro s ⟨hs, -⟩
    exact onTheWay_of_pointWaits (by rw [hs.state]; rfl)
  · rintro i s ⟨hs, hwindow⟩ hdone hout
    have hstep : step i s = { rest i s with
        regSelBase := selectBase s s.nextSDigit
        regSelA := selectA s s.nextKDigit
        acc := s.pointOut
        currentSDigit := s.nextSDigit
        currentKDigit := s.nextKDigit
        state :=
          if s.nextKDigit ≠ 0 then .jointAddAStart
          else if s.nextSDigit ≠ 0 then .jointAddBStart
          else .jointNext } := by
      rw [step, stepState, hs.state]
      exact if_pos hdone
    rw [hstep]
    refine ⟨hs.move ?_ rfl rfl, ⟨hwindow, rfl, rfl, rfl⟩, hout⟩
    show (if s.nextKDigit ≠ 0 then Phase.jointAddAStart
      else if s.nextSDigit ≠ 0 then .jointAddBStart else .jointNext) = _
    simp only [ne_eq, hs.nextKDigit_eq_zero, hs.nextSDigit_eq_zero, afterDouble, afterKey]

/-- An addition of an operand that is selected. -/
theorem comes_add (h : M.Computes mul) (hreg : Regular mul) {start next : Phase}
    {x' y' x₁ y₁ : ℤ} (hx : x + x' = x₁) (hy : y + y' = y₁) (wait : Phase)
    (operand : State M w → ExtPoint) (hwait : wait.pointWaits = true)
    (hother : wait ≠ .jointDblWait)
    (hask : ∀ i (s : State M w), s.state = start →
      step i s = startPoint opAdd s.acc (operand s) wait (rest i s))
    (hoperand : ∀ s : State M w, Joint.{u} mul a sScalar kScalar start j s → Selected s →
      Combines.{u} mul a (operand s) x' y')
    (hanswer : ∀ i (s : State M w), Joint.{u} mul a sScalar kScalar wait j s → Selected s →
      s.pointDone = true → step i s = { rest i s with acc := s.pointOut, state := next }) :
    Comes mul (OnTheWay.{u} (M := M) (w := w) mul a sScalar kScalar)
      (Stage.{u} mul a sScalar kScalar start j x y)
      (Stage.{u} mul a sScalar kScalar next j x₁ y₁) := by
  subst hx hy
  refine comes_answer (R := fun p => Combines.{u} mul a p (x + x') (y + y'))
    (K := fun s => Joint.{u} mul a sScalar kScalar wait j s ∧ Selected s) h hreg ?_ ?_ ?_ ?_
  · intro i s hs
    rw [hask i s hs.joint.state]
    exact ⟨⟨hs.joint.move rfl rfl rfl, hs.selected.move rfl rfl rfl rfl rfl rfl⟩, rfl, _,
      answers_add rfl, hs.acc.add (hoperand s hs.joint hs.selected)⟩
  · rintro i s ⟨hs, hselected⟩ hsilent
    rw [step_wait i (by rwa [hs.state]) (by rwa [hs.state]) hsilent]
    exact ⟨hs.move hs.state rfl rfl, hselected.move rfl rfl rfl rfl rfl rfl⟩
  · rintro s ⟨hs, -⟩
    exact onTheWay_of_pointWaits (by rwa [hs.state])
  · rintro i s ⟨hs, hselected⟩ hdone hout
    rw [hanswer i s hs hselected hdone]
    exact ⟨hs.move rfl rfl rfl, hselected.move rfl rfl rfl rfl rfl rfl, hout⟩

/-- The addition of the key. -/
theorem comes_addA (h : M.Computes mul) (hreg : Regular mul) (hk : Wnaf.digits 4 kScalar j ≠ 0) :
    Comes mul (OnTheWay.{u} (M := M) (w := w) mul a sScalar kScalar)
      (Stage.{u} mul a sScalar kScalar .jointAddAStart j x y)
      (Stage.{u} mul a sScalar kScalar (afterKey (Wnaf.digits 4 sScalar j)) j x
        (y + Wnaf.digits 4 kScalar j)) := by
  refine comes_add h hreg (add_zero x) rfl .jointAddAWait State.regSelA rfl (by decide) ?_ ?_ ?_
  · intro i s hstate
    rw [step, stepState, hstate]
  · intro s hs hselected
    have hdigit := hs.toInt_nextKDigit
    rw [hselected.key, ← hdigit]
    exact Combines.selectA hs.oddMultiple (by rw [hdigit]; exact natAbs_digits hk)
  · intro i s hs hselected hdone
    have hnext : (if s.currentSDigit ≠ 0 then Phase.jointAddBStart else .jointNext) =
        afterKey (Wnaf.digits 4 sScalar j) := by
      simp only [hselected.digit, ne_eq, hs.nextSDigit_eq_zero, afterKey]
    rw [step, stepState, hs.state, ← hnext]
    exact if_pos hdone

/-- The addition of the table. -/
theorem comes_addB (h : M.Computes mul) (hreg : Regular mul) (hs : Wnaf.digits 4 sScalar j ≠ 0) :
    Comes mul (OnTheWay.{u} (M := M) (w := w) mul a sScalar kScalar)
      (Stage.{u} mul a sScalar kScalar .jointAddBStart j x y)
      (Stage.{u} mul a sScalar kScalar .jointNext j (x + Wnaf.digits 4 sScalar j) y) := by
  refine comes_add h hreg rfl (add_zero y) .jointAddBWait State.regSelBase rfl (by decide) ?_ ?_ ?_
  · intro i s hstate
    rw [step, stepState, hstate]
  · intro s hjoint hselected
    have hdigit := hjoint.toInt_nextSDigit
    rw [hselected.base, ← hdigit]
    exact Combines.selectBase hselected.window (by rw [hdigit]; exact natAbs_digits hs)
  · intro i s hjoint _ hdone
    rw [step, stepState, hjoint.state]
    exact if_pos hdone

/-- All of one bit. -/
theorem comes_bit (h : M.Computes mul) (hreg : Regular mul) :
    Comes mul (OnTheWay.{u} (M := M) (w := w) mul a sScalar kScalar)
      (Doubles.{u} mul a sScalar kScalar j x y)
      (Stage.{u} mul a sScalar kScalar .jointNext j (2 * x + Wnaf.digits 4 sScalar j)
        (2 * y + Wnaf.digits 4 kScalar j)) := by
  have hdouble := @comes_double M w mul a sScalar kScalar x y j h hreg
  by_cases hk : Wnaf.digits 4 kScalar j = 0
  · rw [hk, afterDouble, if_neg (not_not.mpr rfl)] at hdouble
    rw [hk, add_zero]
    by_cases hs : Wnaf.digits 4 sScalar j = 0
    · rw [hs, afterKey, if_neg (not_not.mpr rfl)] at hdouble
      rw [hs, add_zero]
      exact hdouble
    · rw [afterKey, if_pos hs] at hdouble
      exact hdouble.trans (fun s hstage => hstage.joint.onTheWay hstage.selected (by decide)
        (fun h => by cases h) fun _ => hs) (comes_addB h hreg hs)
  · rw [afterDouble, if_pos hk] at hdouble
    have hkey := hdouble.trans (fun s hstage => hstage.joint.onTheWay hstage.selected (by decide)
      (fun _ => hk) fun h => by cases h) (comes_addA h hreg hk)
    by_cases hs : Wnaf.digits 4 sScalar j = 0
    · rw [hs, afterKey, if_neg (not_not.mpr rfl)] at hkey
      rw [hs, add_zero]
      exact hkey
    · rw [afterKey, if_pos hs] at hkey
      exact hkey.trans (fun s hstage => hstage.joint.onTheWay hstage.selected (by decide)
        (fun h => by cases h) fun _ => hs) (comes_addB h hreg hs)

/-! ### All bits -/

/-- One bit takes the accumulator from what the higher digits leave to what this one leaves. -/
theorem comes_round (h : M.Computes mul) (hreg : Regular mul) (j : ℕ) :
    Comes mul (OnTheWay.{u} (M := M) (w := w) mul a sScalar kScalar)
      (Doubles.{u} mul a sScalar kScalar j (Wnaf.rest 4 sScalar (j + 1))
        (Wnaf.rest 4 kScalar (j + 1)))
      (Stage.{u} mul a sScalar kScalar .jointNext j (Wnaf.rest 4 sScalar j)
        (Wnaf.rest 4 kScalar j)) := by
  have hleft : ∀ n : ℤ, 2 * Wnaf.rest 4 n (j + 1) + Wnaf.digits 4 n j = Wnaf.rest 4 n j :=
    fun n => Wnaf.two_mul_next (by decide) (Wnaf.rest 4 n j)
  have hbit := @comes_bit M w mul a sScalar kScalar (Wnaf.rest 4 sScalar (j + 1))
    (Wnaf.rest 4 kScalar (j + 1)) j h hreg
  rwa [hleft, hleft] at hbit

/-- On to the next lower bit. -/
theorem Stage.next {i : Inputs} (hs : Stage.{u} mul a sScalar kScalar .jointNext (j + 1) x y s) :
    Doubles.{u} mul a sScalar kScalar j x y (step i s) := by
  have hindex := hs.joint.index
  have hne : ¬ s.jointBitIndex = 0 := by
    intro hzero
    rw [hzero] at hindex
    cases hindex
  have hstep : step i s = { rest i s with
      jointBitIndex := s.jointBitIndex - 1
      state := .jointDblStart } := by
    rw [step, stepState, hs.joint.state]
    exact if_neg hne
  rw [hstep]
  refine ⟨⟨hs.joint.tabled.move rfl rfl, ?_⟩, hs.acc⟩
  have hle : (1 : BitVec 8) ≤ s.jointBitIndex := by
    rw [BitVec.le_def, hindex]
    exact Nat.succ_le_succ (Nat.zero_le j)
  show (s.jointBitIndex - 1).toNat = j
  rw [BitVec.toNat_sub_of_le hle, hindex]
  rfl

theorem Doubles.onTheWay (hs : Doubles.{u} mul a sScalar kScalar j x y s) :
    OnTheWay.{u} mul a sScalar kScalar s := by
  refine onTheWay_of_plain ?_
  rw [hs.joint.state]
  rfl

theorem Stage.onTheWay (hs : Stage.{u} mul a sScalar kScalar .jointNext (j + 1) x y s) :
    OnTheWay.{u} mul a sScalar kScalar s := by
  have hstate := hs.joint.state
  refine ⟨⟨?_, ?_⟩, ?_⟩
  · intro h
    rw [hstate] at h
    cases h
  · intro h
    rw [hstate] at h
    cases h
  · rintro ⟨-, hzero⟩
    have hindex := hs.joint.index
    rw [hzero] at hindex
    cases hindex

theorem comes_bits (h : M.Computes mul) (hreg : Regular mul) :
    Comes mul (OnTheWay.{u} (M := M) (w := w) mul a sScalar kScalar)
      (Stage.{u} mul a sScalar kScalar .jointNext 255 (Wnaf.rest 4 sScalar 255)
        (Wnaf.rest 4 kScalar 255))
      (Stage.{u} mul a sScalar kScalar .jointNext 0 sScalar kScalar) := by
  have hloop := @Reaches.loop _ _ (@step M w) (OnTheWay.{u} mul a sScalar kScalar)
    (fun k s => s.Sound mul ∧ Stage.{u} mul a sScalar kScalar .jointNext (255 - k)
      (Wnaf.rest 4 sScalar (255 - k)) (Wnaf.rest 4 kScalar (255 - k)) s) 255 ?_ ?_
  · exact hloop
  · intro k hk
    have hindex : 255 - k = 255 - (k + 1) + 1 := by omega
    have hnext : Comes mul (OnTheWay.{u} (M := M) (w := w) mul a sScalar kScalar)
        (Stage.{u} mul a sScalar kScalar .jointNext (255 - (k + 1) + 1)
          (Wnaf.rest 4 sScalar (255 - (k + 1) + 1)) (Wnaf.rest 4 kScalar (255 - (k + 1) + 1)))
        (Doubles.{u} mul a sScalar kScalar (255 - (k + 1))
          (Wnaf.rest 4 sScalar (255 - (k + 1) + 1))
          (Wnaf.rest 4 kScalar (255 - (k + 1) + 1))) :=
      comes_step h hreg fun i s => Stage.next
    rw [hindex]
    exact hnext.trans (fun s hs => hs.onTheWay) (comes_round h hreg _)
  · rintro k hk s ⟨-, hs⟩
    have hindex : 255 - k = 255 - (k + 1) + 1 := by omega
    rw [hindex] at hs
    exact hs.onTheWay

/-- `ST_JOINT_INIT`. -/
theorem Tabled.init {i : Inputs} (hs : Tabled.{u} mul a sScalar kScalar .jointInit 4 s) :
    Doubles.{u} mul a sScalar kScalar 255 0 0 (step i s) := by
  have hstep : step i s = { rest i s with
      acc := onePoint
      jointBitIndex := 255
      currentSDigit := 0
      currentKDigit := 0
      baseWindowValue := 0
      state := .jointDblStart } := by
    rw [step, stepState, hs.state]
  rw [hstep]
  exact ⟨⟨hs.move rfl rfl, rfl⟩, .neutral⟩

/-! ### From the scalars to the sum -/

theorem Tabled.onTheWay {phase : Phase} {n : ℕ} (hphase : phase.plain = true)
    (hs : Tabled.{u} mul a sScalar kScalar phase n s) : OnTheWay.{u} mul a sScalar kScalar s :=
  onTheWay_of_plain (by rwa [hs.state])

/-- The four multiples. -/
theorem comes_multiples (h : M.Computes mul) (hreg : Regular mul) :
    Comes mul (OnTheWay.{u} (M := M) (w := w) mul a sScalar kScalar)
      (Tabled.{u} mul a sScalar kScalar .oddA2DblStart 0)
      (Tabled.{u} mul a sScalar kScalar .jointInit 4) := by
  have hwait : ∀ s : State M w, s.state.pointWaits = true →
      OnTheWay.{u} mul a sScalar kScalar s := fun s => onTheWay_of_pointWaits
  have h2 := @comes_a2 M w mul a sScalar kScalar _ h hreg hwait
  have h3 := h2.trans (fun s hs => hs.onTheWay rfl) (comes_a3 h hreg hwait)
  have h5 := h3.trans (fun s hs => hs.onTheWay rfl) (comes_a5 h hreg hwait)
  exact h5.trans (fun s hs => hs.onTheWay rfl) (comes_a7 h hreg hwait)

/-- From the multiples to the end. -/
theorem comes_sum (h : M.Computes mul) (hreg : Regular mul) (hs : 0 ≤ sScalar)
    (hs' : sScalar ≤ 2 ^ 255) (hk : 0 ≤ kScalar) (hk' : kScalar ≤ 2 ^ 255) :
    Comes mul (OnTheWay.{u} (M := M) (w := w) mul a sScalar kScalar)
      (Tabled.{u} mul a sScalar kScalar .oddA2DblStart 0)
      (Stage.{u} mul a sScalar kScalar .jointNext 0 sScalar kScalar) := by
  have hfirst := @comes_round M w mul a sScalar kScalar h hreg 255
  -- nothing is left above the highest digit
  rw [Wnaf.rest_eq_zero (by decide) hs hs', Wnaf.rest_eq_zero (by decide) hk hk'] at hfirst
  have hinit : Comes mul (OnTheWay.{u} (M := M) (w := w) mul a sScalar kScalar)
      (Tabled.{u} mul a sScalar kScalar .jointInit 4)
      (Doubles.{u} mul a sScalar kScalar 255 0 0) := comes_step h hreg fun i s => Tabled.init
  have hready := (comes_multiples h hreg).trans (fun s hs => hs.onTheWay rfl) hinit
  have hhighest := hready.trans (fun s hs => hs.onTheWay) hfirst
  refine hhighest.trans (fun s hs => ?_) (comes_bits h hreg)
  exact Stage.onTheWay (j := 254) hs

/-- Both recodings. -/
theorem reaches_tabled {s k : BitVec 256} (hs : s.toNat ≤ 2 ^ 255) (hk : k.toNat ≤ 2 ^ 255) :
    Reaches (@step M w) (OnTheWay.{u} mul a s.toNat k.toNat)
      (Scheduled .recodeSStart State.sScalar (fun t => t.a = a ∧ t.kScalar = k) s)
      (Tabled.{u} mul a s.toNat k.toNat .oddA2DblStart 0) := by
  have hfirst := (@recording_s M w a k).reaches
    (D := OnTheWay.{u} mul a s.toNat k.toNat) hs fun t ht => onTheWay_of_plain (by rw [ht]; rfl)
  have hsecond := (@recording_k M w a s.toNat).reaches
    (D := OnTheWay.{u} mul a s.toNat k.toNat) hk fun t ht => onTheWay_of_plain (by rw [ht]; rfl)
  refine hfirst.trans (fun t ht => onTheWay_of_plain (by rw [ht.state]; rfl))
    (hsecond.mono ?_ ?_)
  · intro t ht
    exact ⟨ht.state, ht.start, ht.keeps.2, ht.idle, ht.keeps.1, ht.packs⟩
  · intro t ht
    exact ⟨ht.state, ht.keeps.2, ht.packs, ht.keeps.1, fun hn => absurd hn (by decide),
      fun hn => absurd hn (by decide), fun hn => absurd hn (by decide),
      fun hn => absurd hn (by decide)⟩

theorem le_of_lt_scalarL {x : BitVec 256} (h : x < ed25519ScalarL) : x.toNat ≤ 2 ^ 255 := by
  have hlt := BitVec.lt_def.mp h
  rw [ScalarReduceModL.toNat_ed25519ScalarL] at hlt
  exact (hlt.trans ScalarReduceModL.scalarL_lt).le.trans (by decide)

/-- From any state before the recoding that is in step with its sub-engines, as all reachable ones
are: whatever the scalars below the group order and the group with `A` and `B`, the run comes to
the end of the joint multiplication, with `s * B - k * A` in the accumulator, and on the way
adds the operands of the current bit only. -/
theorem joint_multiplication {inputs : ℕ → Inputs} {s : State wideMultiplier w}
    (hs : s.InStep mulWide) (hstate : s.state = .recodeSStart) (hsL : s.sScalar < ed25519ScalarL)
    (hkL : s.kScalar < ed25519ScalarL) (hrst : ∀ k, (inputs k).engineRstN = true) :
    ∃ n, (run State.clock inputs s n).state = .jointNext ∧
      (run State.clock inputs s n).jointBitIndex = 0 ∧
      (∀ (G : Type u) [AddCommGroup G] (A B : G),
        Denotes mulWide A B s.a (run State.clock inputs s n).acc
          (s.sScalar.toNat • B - s.kScalar.toNat • A)) ∧
      ∀ m < n, OnTheWay.{u} mulWide s.a s.sScalar.toNat s.kScalar.toNat
        (run State.clock inputs s m) := by
  have hlink := hs.recode
  rw [hstate] at hlink
  obtain ⟨hstart, hidle, -⟩ := hlink.of_not_waiting
  have hs' := le_of_lt_scalarL hsL
  have hk' := le_of_lt_scalarL hkL
  have htabled := comes_of_reaches computes_wideMultiplier regular_mulWide
    (@reaches_tabled.{u} wideMultiplier w mulWide s.a s.sScalar s.kScalar hs' hk')
  have hsum := @comes_sum.{u} wideMultiplier w mulWide s.a s.sScalar.toNat s.kScalar.toNat
    computes_wideMultiplier regular_mulWide (Int.natCast_nonneg _) (by exact_mod_cast hs')
    (Int.natCast_nonneg _) (by exact_mod_cast hk')
  have hwhole := htabled.trans (fun t ht => ht.onTheWay rfl) hsum
  obtain ⟨n, ⟨-, hend⟩, hbefore⟩ := hwhole inputs s
    ⟨hs.point, hstate, hstart, rfl, hidle, rfl, rfl⟩
  simp only [run_clock hrst]
  refine ⟨n, hend.joint.state, BitVec.eq_of_toNat_eq hend.joint.index, ?_, ?_⟩
  · intro G _ A B
    have hvalue := hend.acc G A B
    rwa [natCast_zsmul, natCast_zsmul] at hvalue
  · intro m hm
    rcases Nat.eq_zero_or_pos m with rfl | hpos
    · exact onTheWay_of_plain (by rw [run_zero, hstate]; rfl)
    · exact hbefore m hpos hm

/-- The engine of the device before the recoding of `5` and `7`. -/
def beforeRecoding : State wideMultiplier 12 :=
  { outOfReset with state := .recodeSStart, sScalar := 5, kScalar := 7 }

theorem inStep_beforeRecoding : beforeRecoding.InStep mulWide := by
  have hreset := @inStep_reset wideMultiplier 12 mulWide computes_wideMultiplier zeroMultiplier
  exact ⟨hreset.point, hreset.hash, hreset.reduce, hreset.recode⟩

theorem joint_multiplication_beforeRecoding :
    ∃ n, (run State.clock granting beforeRecoding n).state = .jointNext ∧
      Denotes mulWide (0, 1) (1, 0) beforeRecoding.a
        (run State.clock granting beforeRecoding n).acc ((5, -7) : ℤ × ℤ) := by
  obtain ⟨n, hstate, -, hvalue, -⟩ := joint_multiplication inStep_beforeRecoding rfl (by decide)
    (by decide) (fun k => (rfl : (granting k).engineRstN = true))
  exact ⟨n, hstate, hvalue (ℤ × ℤ) (0, 1) (1, 0)⟩

end Ed25519VerifyEngine

end Kv260Sigv
