import Kv260Sigv.Rtl.Ed25519Field
import Kv260Sigv.Rtl.Ed25519PointRun

/-!
# Addition and doubling in the point core

What `STEP_ADD_0 .. STEP_ADD_15` and `STEP_DBL_0 .. STEP_DBL_15` compute is read off the
steps (`added`, `doubled`).  With an exact multiplier both are the formulas for extended
coordinates, which have no exceptions on this curve.
-/

set_option autoImplicit false

namespace Kv260Sigv

namespace Ed25519PointCore

open Clocked

variable {M : Multiplier} {mul : BitVec 255 → BitVec 255 → BitVec 255}

/-! ### The steps of an addition -/

/-- What `OP_ADD` computes; with `bAffine` the product of the `Z` is taken to be the first. -/
def added (mul : BitVec 255 → BitVec 255 → BitVec 255) (bAffine : Bool) (p q : ExtPoint) :
    ExtPoint :=
  let a := mul (Fe25519AuxCore.subModP p.y p.x) (Fe25519AuxCore.subModP q.y q.x)
  let b := mul (Fe25519AuxCore.addModP p.y p.x) (Fe25519AuxCore.addModP q.y q.x)
  let c := mul (mul p.t q.t) ed25519D2
  let zz := if bAffine then p.z else mul p.z q.z
  let d := Fe25519AuxCore.addModP zz zz
  let e := Fe25519AuxCore.subModP b a
  let f := Fe25519AuxCore.subModP d c
  let g := Fe25519AuxCore.addModP d c
  let h := Fe25519AuxCore.addModP b a
  ⟨mul e f, mul g h, mul f g, mul e h⟩

theorem auxPipeSubResult_eq (r : Regs) :
    auxPipeSubResult r = Fe25519AuxCore.subModP r.auxPipeA r.auxPipeB := rfl

/-- The steps `STEP_ADD_0 .. STEP_ADD_15`. -/
theorem finish_add {r : Regs} (hstep : r.step = .add0) :
    (r.finish mul 22).step = .done ∧ (r.finish mul 22).flag = true ∧
      (r.finish mul 22).out = added mul r.addBAffine r.p r.q := by
  have hr : r = { r with step := .add0 } := by rw [← hstep]
  rw [hr]
  -- the shortcut leaves out `STEP_ADD_7`
  cases haffine : r.addBAffine <;>
    simp only [Regs.finish, Regs.advance, stepBusy, Step.waits, issue, auxResult, auxMux,
      Regs.rest, Fe25519AuxCore.result, auxPipeAddResult_eq, auxPipeSubResult_eq, reduceCtorEq,
      if_true, ite_cond_eq_false, Bool.false_eq_true, added, and_self]

/-- The steps of a doubling raise `flag`. -/
theorem finish_double_flag {i : Inputs} (hop : i.op = opDouble) (n : Regs) :
    ((load i n).finish mul 18).flag = true := by
  have hload : load i n = { load i n with step := .dbl0 } := by
    simp [load, hop, opDouble, opAdd]
  rw [hload]
  simp only [Regs.finish, Regs.advance, stepBusy, Step.waits, issue, Regs.rest, reduceCtorEq,
    if_true, ite_cond_eq_false, Bool.false_eq_true]

theorem load_add {i : Inputs} (hop : i.op = opAdd) (n : Regs) :
    (load i n).step = .add0 ∧ (load i n).p = i.pointA ∧ (load i n).q = i.pointB ∧
      (load i n).addBAffine = decide (i.pointB.z = 1) := by
  simp [load, hop]

theorem answers_add {i : Inputs} (hop : i.op = opAdd) :
    Answers mul i (added mul (decide (i.pointB.z = 1)) i.pointA i.pointB) := by
  intro n
  obtain ⟨hstep, hp, hq, haffine⟩ := load_add hop n
  obtain ⟨hlast, -, hout⟩ := @finish_add mul _ hstep
  rw [hp, hq, haffine] at hout
  exact ⟨22, hlast, hout⟩

/-! ### The formulas -/

section formulas

variable {p q : ExtPoint} {bAffine : Bool}

/-- The shortcut: with `Z = 1` nothing is to be multiplied. -/
theorem added_affine (hp : Canonical p.z) (hz : bAffine = true → q.z = 1) :
    added mulModP bAffine p q = added mulModP false p q := by
  cases bAffine with
  | false => rfl
  | true =>
      have hone : mulModP p.z q.z = p.z := by
        refine (canonical_mulModP _ _).ext hp ?_
        rw [toField_mulModP, hz rfl, toField_one, mul_one]
      simp only [added, hone, if_true, Bool.false_eq_true, if_false]

theorem canonicalPoint_added : CanonicalPoint (added mulModP bAffine p q) :=
  ⟨canonical_mulModP _ _, canonical_mulModP _ _, canonical_mulModP _ _, canonical_mulModP _ _⟩

theorem canonicalPoint_doubled : CanonicalPoint (doubled mulModP p) :=
  ⟨canonical_mulModP _ _, canonical_mulModP _ _, canonical_mulModP _ _, canonical_mulModP _ _⟩

/-- The addition formulas in the field. -/
theorem toField_added (hp : CanonicalPoint p) (hq : CanonicalPoint q) :
    (added mulModP false p q).toField =
      Edwards.Extended.add (curve.d + curve.d) p.toField q.toField := by
  have hm := canonical_mulModP
  have hadd := @Fe25519AuxCore.canonical_addModP
  have hsub := @Fe25519AuxCore.canonical_subModP
  simp only [added, ExtPoint.toField, Edwards.Extended.add, curve, toField_mulModP,
    Fe25519AuxCore.toField_addModP, Fe25519AuxCore.toField_subModP, toField_ed25519D2, hm, hadd,
    hp.x, hp.y, hq.x, hq.y, Bool.false_eq_true, if_false]

/-- The doubling formulas in the field. -/
theorem toField_doubled (hp : CanonicalPoint p) :
    (doubled mulModP p).toField = Edwards.Extended.double p.toField := by
  have hm := canonical_mulModP
  have hadd := @Fe25519AuxCore.canonical_addModP
  have hsub := @Fe25519AuxCore.canonical_subModP
  simp only [doubled, ExtPoint.toField, Edwards.Extended.double, toField_mulModP,
    Fe25519AuxCore.toField_addModP, Fe25519AuxCore.toField_subModP,
    Fe25519AuxCore.toField_negModP, hm, hadd, hsub, hp.x, hp.y]

theorem represents_added {P Q : Edwards.Point curve} (hp : CanonicalPoint p)
    (hq : CanonicalPoint q) (hP : p.toField.Represents P) (hQ : q.toField.Represents Q) :
    (added mulModP false p q).toField.Represents (P + Q) := by
  rw [toField_added hp hq]
  exact hP.add hQ

theorem represents_doubled {P : Edwards.Point curve} (hp : CanonicalPoint p)
    (hP : p.toField.Represents P) : (doubled mulModP p).toField.Represents (P + P) := by
  rw [toField_doubled hp]
  exact hP.double

end formulas

/-! ### The core -/

/-- A core that takes a request and goes the general path, whatever `Z` of `point_b`. -/
def takeGeneral (i : Inputs) (s : State M) : State M :=
  { step i s with regs := { (step i s).regs with addBAffine := false } }

section requests

variable {s : State M} {i : Inputs} (after : ℕ → Inputs)

theorem ends_add (h : M.Computes mul) (hs : s.Sound mul) (hidle : s.regs.step = .idle)
    (hstart : i.start = true) (hop : i.op = opAdd) :
    Ends after (step i s) true
        (added mul (decide (i.pointB.z = 1)) i.pointA i.pointB) ∧
      Ends after (takeGeneral i s) true (added mul false i.pointA i.pointB) := by
  obtain ⟨hload, hrunning⟩ := at_load h hs hidle hstart
  obtain ⟨hstep, hpoint, hpoint', haffine⟩ := load_add hop s.regs.rest
  refine ⟨?_, ?_⟩
  · obtain ⟨hlast, hflag, hout⟩ := @finish_add mul _ hstep
    rw [← haffine, ← hpoint', ← hpoint, ← hout]
    rw [← hflag]
    exact ends_of_finish h 22 hload hrunning hlast
  · let r : Regs := { load i s.regs.rest with addBAffine := false }
    obtain ⟨hlast, hflag, hout⟩ := @finish_add mul r hstep
    have hat : At r (takeGeneral i s) :=
      ⟨congrArg (fun r : Regs => { r with addBAffine := false }) hload.regs, hload.idle,
        hload.silent⟩
    have hrun : r.Running := ⟨hrunning.busy, hrunning.step, hrunning.asks, hrunning.silent⟩
    rw [show added mul false i.pointA i.pointB = (r.finish mul 22).out by
      rw [hout, ← hpoint', ← hpoint]]
    rw [← hflag]
    exact ends_of_finish h 22 hat hrun hlast

theorem ends_double (h : M.Computes mul) (hs : s.Sound mul) (hidle : s.regs.step = .idle)
    (hstart : i.start = true) (hop : i.op = opDouble) :
    Ends after (step i s) true (doubled mul i.pointA) := by
  obtain ⟨hload, hrunning⟩ := at_load h hs hidle hstart
  obtain ⟨hlast, hout⟩ := @finish_double mul i hop s.regs.rest
  rw [← hout, ← @finish_double_flag mul i hop s.regs.rest]
  exact ends_of_finish h 18 hload hrunning hlast

end requests

/-- Proportional coordinates. -/
def SamePoint (p q : ExtPoint) : Prop :=
  mulModP p.x q.z = mulModP q.x p.z ∧ mulModP p.y q.z = mulModP q.y p.z ∧
    mulModP p.t q.z = mulModP q.t p.z

theorem samePoint_of_represents {p q : ExtPoint} {P : Edwards.Point curve}
    (hp : p.toField.Represents P) (hq : q.toField.Represents P) : SamePoint p q := by
  have hext : ∀ a b c d : BitVec 255, toField a * toField b = toField c * toField d →
      mulModP a b = mulModP c d := by
    intro a b c d h
    refine (canonical_mulModP _ _).ext (canonical_mulModP _ _) ?_
    rw [toField_mulModP, toField_mulModP, h]
  obtain ⟨hx, hy, ht⟩ := hp.proportional hq
  exact ⟨hext _ _ _ _ hx, hext _ _ _ _ hy, hext _ _ _ _ ht⟩

/-- With an exact multiplier `OP_ADD` and `OP_DOUBLE` compute the sum on the curve, for all
valid points and in every cycle the core is idle in: the sum is a valid point, the
shortcut does not change it, and a doubling is the same point as the sum. -/
theorem add_double_complete (h : M.Exact) (before after : ℕ → Inputs) (s₀ : State M) (n : ℕ)
    (hidle : (run step before (reset s₀) n).regs.busy = false) {p q : ExtPoint}
    (hp : ValidPoint p) (hq : ValidPoint q) :
    ∃ P Q : Edwards.Point curve, p.toField.Represents P ∧ q.toField.Represents Q ∧
      (∃ sum, ValidPoint sum ∧ sum.toField.Represents (P + Q) ∧
        ∀ i : Inputs, i.start = true → i.op = opAdd → i.pointA = p → i.pointB = q →
          Ends after (step i (run step before (reset s₀) n)) true sum ∧
            Ends after (takeGeneral i (run step before (reset s₀) n)) true sum) ∧
      ∃ twice sum, ValidPoint twice ∧ twice.toField.Represents (P + P) ∧ SamePoint twice sum ∧
        (∀ i : Inputs, i.start = true → i.op = opDouble → i.pointA = p →
          Ends after (step i (run step before (reset s₀) n)) true twice) ∧
        ∀ i : Inputs, i.start = true → i.op = opAdd → i.pointA = p → i.pointB = p →
          Ends after (step i (run step before (reset s₀) n)) true sum := by
  obtain ⟨P, hP⟩ := hp.exists_represents
  obtain ⟨Q, hQ⟩ := hq.exists_represents
  have hcomputes := h.computes
  have hsound := sound_run hcomputes regular_mulModP before s₀ n
  have hstep := hsound.step_eq_idle hidle
  have hadd : ∀ i : Inputs, i.start = true → i.op = opAdd → Canonical i.pointA.z →
      Ends after (step i (run step before (reset s₀) n)) true
          (added mulModP false i.pointA i.pointB) ∧
        Ends after (takeGeneral i (run step before (reset s₀) n)) true
          (added mulModP false i.pointA i.pointB) := by
    intro i hstart hop hz
    obtain ⟨hends, hgeneral⟩ := ends_add after hcomputes hsound hstep hstart hop
    rw [added_affine hz of_decide_eq_true] at hends
    exact ⟨hends, hgeneral⟩
  have hsum := represents_added hp.canonical hq.canonical hP hQ
  have hself := represents_added hp.canonical hp.canonical hP hP
  have htwice := represents_doubled hp.canonical hP
  refine ⟨P, Q, hP, hQ, ⟨added mulModP false p q,
    validPoint_of_represents canonicalPoint_added hsum, hsum, ?_⟩,
    doubled mulModP p, added mulModP false p p,
    validPoint_of_represents canonicalPoint_doubled htwice, htwice,
    samePoint_of_represents htwice hself, ?_, ?_⟩
  · rintro i hstart hop rfl rfl
    exact hadd i hstart hop hp.canonical.z
  · rintro i hstart hop rfl
    exact ends_double after hcomputes hsound hstep hstart hop
  · intro i hstart hop ha hb
    have hends := (hadd i hstart hop (by rw [ha]; exact hp.canonical.z)).1
    rw [ha, hb] at hends
    exact hends

/-- The point of order two, added to itself. -/
theorem add_double_complete_orderTwo :
    let p : ExtPoint := ⟨0, BitVec.ofNat 255 (fieldP - 1), 1, 0⟩
    let i : Inputs := ⟨true, opAdd, 0, p, p⟩
    ∃ sum, ValidPoint sum ∧
      Ends (fun _ => i) (step i (reset (⟨resetRegs, none⟩ : State promptMultiplier))) true sum := by
  intro p i
  have hp : ValidPoint p := by decide +kernel
  obtain ⟨-, -, -, -, ⟨sum, hvalid, -, hends⟩, -⟩ :=
    add_double_complete exact_promptMultiplier (fun _ => i) (fun _ => i) ⟨resetRegs, none⟩ 0 rfl
      hp hp
  exact ⟨sum, hvalid, (hends i rfl rfl rfl rfl).1⟩

end Ed25519PointCore

end Kv260Sigv
