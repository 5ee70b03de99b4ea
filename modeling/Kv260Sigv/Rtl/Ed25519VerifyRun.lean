import Kv260Sigv.Rtl.Ed25519PointRun
import Kv260Sigv.Rtl.Ed25519VerifyControl

/-!
# Runs of the verify engine

The controller is a patient client of the point core: in every reachable state the two
are `Linked`, so that a point answer comes to a wait state only and finds the core at
rest.
-/

set_option autoImplicit false

namespace Kv260Sigv

namespace Ed25519VerifyEngine

open Clocked Handshake

variable {M : Multiplier} {w : ℕ} {mul : BitVec 255 → BitVec 255 → BitVec 255}

/-- The states a run can be in: whatever the registers held, a reset, and any cycles after
it, resets and aborts among them. -/
inductive Reachable : State M w → Prop
  | reset (feCore : M.State) : Reachable (reset (M.reset feCore))
  | clock (i : Inputs) {s : State M w} (h : Reachable s) : Reachable (s.clock i)

/-! ### The sub-engines

The controller leaves their registers alone. -/

theorem stepState_pointCore (i : Inputs) (s n : State M w) :
    (stepState i s n).pointCore = n.pointCore := by
  simp only [stepState, load]
  split <;> (repeat' split) <;> rfl

theorem stepState_hashEngine (i : Inputs) (s n : State M w) :
    (stepState i s n).hashEngine = n.hashEngine := by
  simp only [stepState, load]
  split <;> (repeat' split) <;> rfl

theorem stepState_reduceEngine (i : Inputs) (s n : State M w) :
    (stepState i s n).reduceEngine = n.reduceEngine := by
  simp only [stepState, load]
  split <;> (repeat' split) <;> rfl

theorem stepState_recodeEngine (i : Inputs) (s n : State M w) :
    (stepState i s n).recodeEngine = n.recodeEngine := by
  simp only [stepState, load]
  split <;> (repeat' split) <;> rfl

/-- The controller waits for every answer of the point core. -/
theorem step_patient (i : Inputs) (s : State M w) :
    Patient s.pointDone s.state.pointWaits (step i s).state.pointWaits
      (step i s).pointStartReg := by
  have hstart : (step i s).pointStartReg = s.state.pointAsks :=
    congrArg Prod.fst (step_starts i s)
  rw [hstart]
  refine step_patient_of i s ?_ ?_ ?_ waiting_of_pointWaits
  · intro p
    cases p <;> decide
  · intro p
    cases p <;> decide
  · intro p
    cases p <;> decide

/-! ### The invariant -/

/-- What holds in every reachable state: no start meets a busy point core, and no answer
of it a controller that does not wait. -/
def State.Sound (mul : BitVec 255 → BitVec 255 → BitVec 255) (s : State M w) : Prop :=
  (Ed25519PointCore.pointServer M mul).Linked s.pointCore s.state.pointWaits s.pointStartReg

theorem sound_step (h : M.Computes mul) (hreg : Regular mul) (i : Inputs) {s : State M w}
    (hs : s.Sound mul) : (step i s).Sound mul := by
  have hstart : (Ed25519PointCore.pointServer M mul).start s.pointInputs = s.pointStartReg := rfl
  have hlink :=
    Server.Linked.step (Ed25519PointCore.sound_pointServer h hreg) hs hstart (step_patient i s)
  rw [State.Sound, step, stepState_pointCore]
  exact hlink

theorem sound_reset (h : M.Computes mul) (feCore : M.State) :
    (reset (M.reset feCore) : State M w).Sound mul :=
  .quiet ⟨.of_reset h ⟨Ed25519PointCore.resetRegs, feCore⟩, rfl⟩ rfl

theorem Reachable.sound (h : M.Computes mul) (hreg : Regular mul) {s : State M w}
    (hs : Reachable s) : s.Sound mul := by
  induction hs with
  | reset feCore => exact sound_reset h feCore
  | @clock i s _ ih =>
      rw [State.clock]
      split
      · exact sound_step h hreg i ih
      · exact sound_reset h s.pointCore.feCore

theorem State.Sound.of_pointDone {s : State M w} (hs : s.Sound mul) (hdone : s.pointDone = true) :
    Canonical s.pointOut.y := by
  obtain ⟨-, -, -, hy, -⟩ := Server.Linked.of_done hs hdone
  exact hy

/-! ### Requests -/

/-- The point core alone, in a run of the engine. -/
theorem run_pointCore (inputs : ℕ → Inputs) (s : State M w) (k : ℕ) :
    (run step inputs s k).pointCore =
      run Ed25519PointCore.step (fun k => (run step inputs s k).pointInputs) s.pointCore k := by
  induction k with
  | zero => rfl
  | succ k ih =>
      rw [run_succ, run_succ, ← ih, step, stepState_pointCore]
      rfl

/-- Waiting for a point changes nothing else, but in `ST_JOINT_DBL_WAIT`. -/
theorem step_wait (i : Inputs) {s : State M w} (hwait : s.state.pointWaits = true)
    (hother : s.state ≠ .jointDblWait) (hsilent : s.pointDone = false) : step i s = rest i s := by
  have hquiet : ¬ s.pointDone = true := by
    rw [hsilent]
    exact Bool.false_ne_true
  rw [step, stepState]
  cases h : s.state <;> rw [h] at hwait hother <;>
    first
    | exact if_neg hquiet
    | exact absurd rfl hother
    | cases hwait

/-- In a state of `K`, with a request that an output in `R` answers. -/
structure Requested (mul : BitVec 255 → BitVec 255 → BitVec 255) (K : State M w → Prop)
    (R : ExtPoint → Prop) (s : State M w) : Prop where
  keeps : K s
  sound : s.Sound mul
  start : s.pointStartReg = true
  answers : ∃ out, Ed25519PointCore.Answers mul s.pointInputs out ∧ R out

/-- In a state of `K`, with an answer in `R`. -/
structure Answered (mul : BitVec 255 → BitVec 255 → BitVec 255) (K : State M w → Prop)
    (R : ExtPoint → Prop) (s : State M w) : Prop where
  keeps : K s
  sound : s.Sound mul
  pointDone : s.pointDone = true
  out : R s.pointOut

/-- The answer comes, whatever the inputs, to a controller that goes on waiting for it. -/
theorem reaches_answer (h : M.Computes mul) (hreg : Regular mul) {D K : State M w → Prop}
    {R : ExtPoint → Prop} (hkeep : ∀ i s, K s → s.pointDone = false → K (step i s))
    (hD : ∀ s, K s → D s) :
    Reaches (@step M w) D (Requested mul K R) (Answered mul K R) := by
  rintro inputs s ⟨hK, hs, hstart, out, hanswers, hR⟩
  have hlink := hs
  rw [State.Sound, hstart] at hlink
  obtain ⟨⟨hcore, hidle⟩, hfirst⟩ := hlink.idle_of_asking
  obtain ⟨k, hbefore, hdone, hout⟩ :=
    @Ed25519PointCore.run_answers M mul h (fun k => (run step inputs s k).pointInputs) _ hcore
      hidle hstart out hanswers
  have hpoint := run_pointCore inputs s
  have hwait : ∀ m ≤ k + 1, K (run step inputs s m) := by
    intro m
    induction m with
    | zero =>
        intro _
        exact hK
    | succ m ih =>
        intro hm
        have hsilent : (run step inputs s m).pointDone = false := by
          cases m with
          | zero => exact hfirst
          | succ m =>
              rw [State.pointDone, hpoint]
              exact hbefore m (by omega)
        exact hkeep _ _ (ih (by omega)) hsilent
  refine ⟨k + 1, ⟨hwait _ le_rfl, ?_, ?_, ?_⟩, ?_⟩
  · exact run_invariant (fun i s => sound_step h hreg i) hs (k + 1)
  · rw [State.pointDone, hpoint]
    exact hdone
  · rw [State.pointOut, hpoint, hout]
    exact hR
  · intro m _ hlt
    exact hD _ (hwait m (by omega))

end Ed25519VerifyEngine

end Kv260Sigv
