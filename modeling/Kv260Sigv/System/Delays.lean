import Kv260Sigv.System.Batch
import Mathlib.Data.ENat.Basic

/-!
# Engines that may never answer

Every engine of `Bench` answers.  In `Watch` a run takes any number of cycles, or
never ends.  A batch depends on an engine only through what shows within one cycle:
its outputs, its verdict, and whether a run is under way (`Alike`).  An engine of
`Bench` that shows the same is `Worker.shown`, so one cycle of `Watch` is one cycle
of `Bench` up to `Alike`, and the facts about a batch carry over.
-/

set_option autoImplicit false

namespace Kv260Sigv

open SigvKv260Core

/-- A verify engine whose runs take any time. -/
structure Worker where
  /-- Cycles left before `done` is raised, `⊤` for a run that never ends. -/
  remaining : Option ℕ∞
  /-- The verdict of the run. -/
  verdict : Bool
  out : EngineOut

namespace Engine

/-- Two engines that show the same in a cycle. -/
structure Alike (e e' : Engine) : Prop where
  remaining : e.remaining.isNone = e'.remaining.isNone
  verdict : e.verdict = e'.verdict
  out : e.out = e'.out

variable {e e' : Engine}

theorem Alike.refl (e : Engine) : Alike e e := ⟨rfl, rfl, rfl⟩

theorem Alike.visible (h : Alike e e') (abort : Bool) : Alike (e.visible abort) (e'.visible abort) := by
  cases abort with
  | false => exact h
  | true => exact .refl _

theorem Alike.quiet (h : Alike e e') (he : e.Quiet) : e'.Quiet := by
  refine ⟨?_, by rw [← h.out]; exact he.2⟩
  rw [← Option.isNone_iff_eq_none, ← h.remaining, Option.isNone_iff_eq_none]
  exact he.1

theorem Alike.active (h : Alike e e') (he : e.Active) : e'.Active := by
  rw [Active, ← h.out, ← h.remaining]
  exact he

theorem Alike.attends (h : Alike e e') {slot : Slot} (he : Attends slot e) : Attends slot e' := by
  unfold Attends at he ⊢
  split
  · next hbusy =>
      rw [if_pos hbusy] at he
      split
      · next hstart =>
          rw [if_pos hstart] at he
          exact h.quiet he
      · next hstart =>
          rw [if_neg hstart] at he
          exact h.active he
  · next hfree =>
      rw [if_neg hfree] at he
      exact ⟨he.1, h.quiet he.2⟩

end Engine

namespace Bench

/-- Two benches that differ at most in how long their engines still take. -/
structure Alike (b b' : Bench) : Prop where
  core : b.core = b'.core
  engine0 : b.engine0.Alike b'.engine0
  engine1 : b.engine1.Alike b'.engine1
  jobBramDout : b.jobBramDout = b'.jobBramDout
  dispatches : b.dispatches = b'.dispatches
  completions : b.completions = b'.completions

namespace Alike

variable {en : Bool} {b b' : Bench} {sb : Scoreboard} {n : ℕ}

theorem live0 (h : Alike b b') : b.live0.Alike b'.live0 := by
  rw [Bench.live0, Bench.live0, ← h.core]
  exact h.engine0.visible _

theorem live1 (h : Alike b b') : b.live1.Alike b'.live1 := by
  rw [Bench.live1, Bench.live1, ← h.core]
  exact h.engine1.visible _

theorem parked (h : Alike b b') (hb : Parked b) : Parked b' := by
  obtain ⟨hidle, hfree0, hfree1, hattends0, hattends1⟩ := hb
  rw [h.core] at hidle hfree0 hfree1 hattends0 hattends1
  exact ⟨hidle, hfree0, hfree1, h.live0.attends hattends0, h.live1.attends hattends1⟩

theorem accounted (h : Alike b b') (hb : Accounted en sb n b) : Accounted en sb n b' := by
  obtain ⟨⟨h₁, h₂, h₃, h₄, h₅, h₆, h₇, h₈, h₉, h₁₀⟩, hunfinished, haborted⟩ := hb
  rw [h.core] at h₁ h₂ h₃ h₄ h₅ h₆ h₇ h₈ h₉ h₁₀ haborted
  exact ⟨⟨h₁, h₂, h₃, h₄, h₅, h.live0.attends h₆, h.live1.attends h₇, h₈, h₉, h₁₀⟩,
    hunfinished, haborted⟩

theorem settled (h : Alike b b') (hb : Settled en b) : Settled en b' := by
  rcases hb with hparked | ⟨sb, n, haccounted⟩
  · exact Or.inl (h.parked hparked)
  · exact Or.inr ⟨sb, n, h.accounted haccounted⟩

end Alike

end Bench

namespace Worker

/-- A worker that is doing nothing. -/
def idle : Worker := ⟨none, false, ⟨false, false⟩⟩

/-- Abort is an asynchronous reset. -/
def visible (abort : Bool) (w : Worker) : Worker := if abort then idle else w

/-- A run with so many cycles to go. -/
def working (verdict : Bool) (cycles : ℕ∞) : Worker :=
  if cycles = 0 then ⟨none, verdict, ⟨true, verdict⟩⟩
  else ⟨some (cycles - 1), verdict, ⟨false, false⟩⟩

/-- One cycle: a start is answered after `latency` more cycles. -/
def step (start verdict : Bool) (latency : ℕ∞) (w : Worker) : Worker :=
  if start then working verdict latency
  else
    match w.remaining with
    | some cycles => working w.verdict cycles
    | none => ⟨none, w.verdict, ⟨false, false⟩⟩

/-- Now, or not yet. -/
def soon (cycles : ℕ∞) : ℕ := if cycles = 0 then 0 else 1

/-- An engine that answers in the next cycle if the worker does. -/
def shown (w : Worker) : Engine := ⟨w.remaining.map soon, w.verdict, w.out⟩

variable {w : Worker}

theorem shown_visible (abort : Bool) (w : Worker) :
    (w.visible abort).shown = w.shown.visible abort := by
  cases abort with
  | false => rfl
  | true => rfl

/-- A run with so many cycles to go shows what an engine shows that answers as soon. -/
theorem alike_working (e : Engine) (verdict : Bool) (cycles : ℕ∞) :
    (e.step true verdict (soon cycles)).Alike (working verdict cycles).shown := by
  by_cases hnow : cycles = 0
  · rw [soon, working, if_pos hnow, if_pos hnow]
    exact ⟨rfl, rfl, rfl⟩
  · rw [soon, working, if_neg hnow, if_neg hnow]
    exact ⟨rfl, rfl, rfl⟩

/-- One cycle of a worker is one cycle of an engine. -/
theorem alike_step (start verdict : Bool) (latency : ℕ∞) (w : Worker) :
    (w.shown.step start verdict (soon latency)).Alike (w.step start verdict latency).shown := by
  cases start with
  | true => exact alike_working _ _ _
  | false =>
      obtain ⟨remaining, held, out⟩ := w
      cases remaining with
      | none => exact ⟨rfl, rfl, rfl⟩
      | some cycles =>
          -- the countdown of a run under way is a start with what is left of it
          have hcount : (Worker.shown ⟨some cycles, held, out⟩).step false verdict (soon latency) =
              (Worker.shown ⟨some cycles, held, out⟩).step true held (soon cycles) := by
            by_cases hnow : cycles = 0
            · simp [shown, Engine.step, soon, hnow]
            · simp [shown, Engine.step, soon, hnow]
          rw [hcount]
          exact alike_working _ _ _

end Worker

/-- The core, its workers, the output register of the job memory, and the
observers. -/
structure Watch where
  core : SigvKv260Core.State
  engine0 : Worker
  engine1 : Worker
  jobBramDout : BitVec 32
  dispatches : List Dispatch
  completions : ℕ

namespace Watch

/-- What the environment decides in a cycle. -/
structure Inputs where
  start : Bool
  softReset : Bool
  config : Config
  /-- The latency of a run that starts in this cycle. -/
  latency0 : ℕ∞
  latency1 : ℕ∞
  /-- The verdict on a key of a run that starts in this cycle. -/
  verdict : JobKey → Bool
  /-- The contents of the job memory. -/
  jobMemory : JobMemory

/-- The worker of slot 0 in this cycle. -/
def live0 (w : Watch) : Worker := w.engine0.visible w.core.verifierAbort

@[inherit_doc live0] def live1 (w : Watch) : Worker := w.engine1.visible w.core.verifierAbort

/-- The core's view of the cycle. -/
def coreInputs (i : Inputs) (w : Watch) : SigvKv260Core.Inputs where
  start := i.start
  softReset := i.softReset
  config := i.config
  engine0 := w.live0.out
  engine1 := w.live1.out
  jobBramDout := w.jobBramDout

/-- The worker of a slot after the cycle. -/
def stepWorker (abort : Bool) (slot : SigvKv260Core.Slot) (verdict : JobKey → Bool)
    (latency : ℕ∞) (w : Worker) : Worker :=
  if abort then .idle else w.step slot.startPulse (verdict slot.key) latency

/-- One clock cycle. -/
def step (engine1Enabled : Bool) (i : Inputs) (w : Watch) : Watch where
  core := SigvKv260Core.step engine1Enabled (coreInputs i w) w.core
  engine0 := stepWorker w.core.verifierAbort w.core.engine0 i.verdict i.latency0 w.engine0
  engine1 := stepWorker w.core.verifierAbort w.core.engine1 i.verdict i.latency1 w.engine1
  jobBramDout :=
    if SigvKv260Core.jobBramEn w.core then i.jobMemory (SigvKv260Core.jobBramAddr w.core)
    else w.jobBramDout
  dispatches := w.dispatches ++
    Bench.sampled ⟨0, Nat.two_pos⟩ w.core.verifierAbort w.core.engine0 ++
    Bench.sampled ⟨1, Nat.one_lt_two⟩ w.core.verifierAbort w.core.engine1
  completions := w.completions + w.live0.out.done.toNat + w.live1.out.done.toNat

/-- After `rst_n`; the memory output is whatever it was. -/
def reset (jobBramDout : BitVec 32) : Watch :=
  ⟨SigvKv260Core.reset, Worker.idle, Worker.idle, jobBramDout, [], 0⟩

/-- Some run from reset leads here. -/
def Reachable (engine1Enabled : Bool) (w : Watch) : Prop :=
  ∃ (jobBramDout : BitVec 32) (inputs : ℕ → Inputs) (n : ℕ),
    w = Clocked.run (step engine1Enabled) inputs (reset jobBramDout) n

/-- The bench that shows the same. -/
def shown (w : Watch) : Bench :=
  ⟨w.core, w.engine0.shown, w.engine1.shown, w.jobBramDout, w.dispatches, w.completions⟩

/-- The inputs with latencies that show the same in the next cycle. -/
def Inputs.shown (i : Inputs) : Bench.Inputs :=
  ⟨i.start, i.softReset, i.config, Worker.soon i.latency0, Worker.soon i.latency1, i.verdict,
    i.jobMemory⟩

/-- The cycle accepts a launch. -/
def Launches (i : Inputs) (w : Watch) : Prop := Bench.Launches i.shown w.shown

variable {en : Bool} {i : Inputs} {w : Watch}

theorem shown_live0 (w : Watch) : w.shown.live0 = w.live0.shown :=
  (Worker.shown_visible _ _).symm

theorem shown_live1 (w : Watch) : w.shown.live1 = w.live1.shown :=
  (Worker.shown_visible _ _).symm

/-- The core cannot tell the benches apart. -/
theorem coreInputs_shown (i : Inputs) (w : Watch) :
    Bench.coreInputs i.shown w.shown = coreInputs i w := by
  rw [Bench.coreInputs, shown_live0, shown_live1]
  rfl

theorem alike_stepWorker (abort : Bool) (slot : SigvKv260Core.Slot) (verdict : JobKey → Bool)
    (latency : ℕ∞) (w : Worker) :
    (Bench.stepEngine abort slot verdict (Worker.soon latency) w.shown).Alike
      (stepWorker abort slot verdict latency w).shown := by
  cases abort with
  | true => exact .refl _
  | false => exact Worker.alike_step _ _ _ _

/-- One cycle here is one cycle of `Bench`. -/
theorem alike_step (en : Bool) (i : Inputs) (w : Watch) :
    (Bench.step en i.shown w.shown).Alike (step en i w).shown := by
  refine ⟨?_, alike_stepWorker _ _ _ _ _, alike_stepWorker _ _ _ _ _, rfl, rfl, ?_⟩
  · show SigvKv260Core.step en (Bench.coreInputs i.shown w.shown) w.core = _
    rw [coreInputs_shown]
    rfl
  · show w.completions + w.shown.live0.out.done.toNat + w.shown.live1.out.done.toNat = _
    rw [shown_live0, shown_live1]
    rfl

theorem Reachable.settled (h : Reachable en w) : Bench.Settled en w.shown := by
  obtain ⟨dout, inputs, n, rfl⟩ := h
  refine @Clocked.run_invariant _ _ (step en) inputs (reset dout) (fun w => Bench.Settled en w.shown)
    ?_ ?_ n
  · intro i w hw
    exact (alike_step en i w).settled (hw.step i.shown)
  · exact Or.inl ⟨rfl, rfl, rfl, ⟨rfl, rfl, rfl⟩, ⟨rfl, rfl, rfl⟩⟩

end Watch

end Kv260Sigv
