import Kv260Sigv.System.Batch
import Kv260Sigv.System.Launch

/-!
# What a batch reports

When a batch ends, with or without its watchdog, the snapshot holds the number of jobs
it took and the number it dropped, and without the watchdog the mask holds the
verdicts.  The outputs then stand still.
-/

set_option autoImplicit false

namespace Kv260Sigv

open SigvKv260Core

/-- The outputs of a core whose batch of `accepted` jobs is over. -/
structure Reports (mem : JobMemory) (verdict : JobKey → Bool) (accepted : BitVec 8)
    (dropped : BitVec 32) (s : CoreStatus) : Prop where
  accepted : s.snapshot.acceptedJobCount = accepted
  dropped : s.snapshot.jobsDropped = dropped
  valid : s.snapshot.resultValid = true
  mask : s.snapshot.error = false →
    Marks verdict mem (Finset.range s.snapshot.acceptedJobCount.toNat) s.resultMask

theorem afterDispatch_jobsDropped (s n : State) :
    (afterDispatch s n).jobsDropped = n.jobsDropped := by
  unfold afterDispatch
  dsimp only
  split <;> rfl

namespace Bench

variable {en : Bool} {mem : JobMemory} {verdict : JobKey → Bool} {launched b : Bench}
  {accepted : BitVec 8} {dropped : BitVec 32} {i : Inputs}

/-- A batch of `accepted` jobs under way, and `dropped` jobs that it left out. -/
structure Pending (en : Bool) (mem : JobMemory) (verdict : JobKey → Bool) (launched : Bench)
    (accepted : BitVec 8) (dropped : BitVec 32) (b : Bench) : Prop where
  isOpen : Open en mem verdict launched accepted.toNat b
  dropped : b.core.jobsDropped = dropped

/-- A batch that is over. -/
structure Reported (mem : JobMemory) (verdict : JobKey → Bool) (accepted : BitVec 8)
    (dropped : BitVec 32) (b : Bench) : Prop where
  idle : b.core.state = .idle
  busy : b.core.busy = false
  reports : Reports mem verdict accepted dropped (status b.core)

theorem Open.running {n : ℕ} (h : Open en mem verdict launched n b) : b.core.state = .run := by
  obtain ⟨sb, ha, -⟩ := h
  exact ha.accounts.running

theorem Open.of_running {n : ℕ} (h : Open en mem verdict launched n b)
    (hi : Steady mem verdict i) (hrun : (Bench.step en i b).core.state = .run) :
    Open en mem verdict launched n (Bench.step en i b) := by
  rcases h.step hi with hopen | hover | ⟨-, htimeout⟩
  · exact hopen
  · rw [hover.parked.idle] at hrun
    contradiction
  · rw [htimeout.parked.idle] at hrun
    contradiction

/-- One cycle of a batch under way. -/
theorem Pending.step (h : Pending en mem verdict launched accepted dropped b)
    (hi : Steady mem verdict i) :
    Pending en mem verdict launched accepted dropped (Bench.step en i b) ∨
      Reported mem verdict accepted dropped (Bench.step en i b) := by
  have hnext := h.isOpen.step hi
  obtain ⟨sb, ha, -⟩ := h.isOpen
  have haccepted : b.core.acceptedJobCount = accepted :=
    ha.accounts.accepted.trans (BitVec.eq_of_toNat_eq ha.accounts.prefetch.scheduled)
  cases ha.step hi.softReset with
  | timeout _ _ enabled core parked =>
      refine Or.inr ⟨parked.idle, by rw [core]; rfl, ?_, ?_, ?_, ?_⟩
      · rw [core]
        exact haccepted
      · rw [core]
        exact h.dropped
      · rw [core]
        rfl
      · rw [core]
        intro herror
        exact absurd herror.symm Bool.false_ne_true
  | complete all core parked =>
      have hover : Over mem verdict launched accepted.toNat (Bench.step en i b) := by
        rcases hnext with hopen | hover | ⟨-, htimeout⟩
        · have hrun := hopen.running
          rw [parked.idle] at hrun
          contradiction
        · exact hover
        · have herror := htimeout.error
          rw [core] at herror
          exact absurd herror Bool.false_ne_true
      have hcount : (status (Bench.step en i b).core).snapshot.acceptedJobCount = accepted := by
        rw [core]
        exact haccepted
      refine Or.inr ⟨parked.idle, by rw [core]; rfl, hcount, ?_, ?_, fun _ => ?_⟩
      · rw [core]
        exact h.dropped
      · rw [core]
        rfl
      · rw [hcount]
        exact hover.mask
  | hand0 shadow core next =>
      refine Or.inl ⟨h.isOpen.of_running hi next.accounts.running, ?_⟩
      rw [core, afterDispatch_jobsDropped]
      exact h.dropped
  | hand1 shadow core next =>
      refine Or.inl ⟨h.isOpen.of_running hi next.accounts.running, ?_⟩
      rw [core, afterDispatch_jobsDropped]
      exact h.dropped
  | wait taken core next =>
      refine Or.inl ⟨h.isOpen.of_running hi next.accounts.running, ?_⟩
      rw [core]
      exact h.dropped

/-- Without a start a report stays. -/
theorem Reported.step (h : Reported mem verdict accepted dropped b) (hreset : i.softReset = false)
    (hstart : i.start = false) : Reported mem verdict accepted dropped (Bench.step en i b) := by
  obtain ⟨hidle, hstatus⟩ := step_rest (i := coreInputs i b) en h.idle h.busy hreset hstart
  refine ⟨hidle, (congrArg CoreStatus.busy hstatus).trans h.busy, ?_⟩
  rw [show status (Bench.step en i b).core = status b.core from hstatus]
  exact h.reports

/-- An accepted launch with a soft reset. -/
theorem Launches.pending (en : Bool) (mem : JobMemory) (verdict : JobKey → Bool)
    (h : Launches i b) (hreset : i.softReset = true) :
    Pending en mem verdict (Bench.step en i b) (dispatchJobCount i.config)
      ((dispatchDroppedCount i.config).setWidth 32) (Bench.step en i b) := by
  refine ⟨h.opens (Or.inl hreset), ?_⟩
  obtain ⟨m, -, hcore⟩ := core_start en h.1 h.2.1
  rw [hcore, launchBatch_of_launchable h.2.2, hreset]
  rfl

end Bench

end Kv260Sigv
