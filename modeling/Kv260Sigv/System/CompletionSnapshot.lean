import Kv260Sigv.System.CoreCycle

/-!
# The completion snapshot

The snapshot registers are written in one place per way a batch can end, always all
of them, and partly from registers that the same cycle updates.  `Latches` says what
each ending writes, `snapshot_step` that no other cycle writes anything.  A core that
shows `done` therefore shows the batch of its snapshot: `Coherent` holds from the
cycle after the ending until the next launch or soft reset takes `done` away.
-/

set_option autoImplicit false

namespace Kv260Sigv

namespace SigvKv260Core

/-- What a cycle that ends a batch writes into the snapshot. -/
inductive Latches (en : Bool) (i : Inputs) (s : State) : Snapshot → Prop
  | refused (h : Refuses i s) :
      Latches en i s ⟨s.batchId + 1, 0, 0, 0, true, false, refusalCode i.config⟩
  | timedOut (h : TimesOut en i s) :
      Latches en i s ⟨s.batchId, s.acceptedJobCount, completedWith en i s, s.jobsDropped,
        true, true, errJobTimeout⟩
  | completed (h : Completes en i s) :
      Latches en i s ⟨s.batchId, s.acceptedJobCount, completedWith en i s, s.jobsDropped,
        false, true, errNone⟩

/-- The snapshot agrees with the live outputs.  A refused launch leaves the job counters
of the batches before it alone and reports none of its own. -/
structure Coherent (refused : Prop) (s : State) : Prop where
  busy : s.busy = false
  batchId : s.snapshot.batchId = s.batchId
  error : s.snapshot.error = s.error
  resultValid : s.snapshot.resultValid = s.resultValid
  errorCode : s.snapshot.errorCode = s.errorCode
  acceptedJobCount : s.snapshot.acceptedJobCount = s.acceptedJobCount
  jobsCompleted : ¬ refused → s.snapshot.jobsCompleted = s.jobsCompleted
  jobsDropped : ¬ refused → s.snapshot.jobsDropped = s.jobsDropped

variable {en : Bool} {i : Inputs} {s : State}

/-! ### One cycle -/

theorem Latches.concludes {snapshot : Snapshot} (h : Latches en i s snapshot) :
    Concludes en i s := by
  cases h with
  | refused h => exact Or.inl h
  | timedOut h => exact Or.inr (Or.inl h)
  | completed h => exact Or.inr (Or.inr h)

theorem not_concludes_of_reset (hreset : i.softReset = true) (h : ¬ Refuses i s) :
    ¬ Concludes en i s := by
  have hruns : ¬ Runs i s := fun hruns => Bool.false_ne_true (hruns.2.symm.trans hreset)
  rintro (hrefuses | htime | hall)
  · exact h hrefuses
  · exact hruns htime.1
  · exact hruns hall.1

theorem not_starts_of_runs (h : Runs i s) : ¬ Starts i s := by
  rintro ⟨-, hreset | hidle⟩
  · exact Bool.false_ne_true (h.2.symm.trans hreset)
  · cases hidle.symm.trans h.1

/-- The snapshot is written by the cycles that end a batch, and by no other. -/
theorem snapshot_step (en : Bool) (i : Inputs) (h : Orderly s) :
    Latches en i s (step en i s).snapshot ∨
      ¬ Concludes en i s ∧ (step en i s).snapshot = s.snapshot := by
  cases cycle en i s with
  | accepts hcycle =>
      refine Or.inr ⟨?_, (step_of_accepts en hcycle).snapshot⟩
      rintro (hrefuses | htime | hall)
      · exact hrefuses.2 hcycle.2
      · exact not_starts_of_runs htime.1 hcycle.1
      · exact not_starts_of_runs hall.1 hcycle.1
  | refuses hcycle =>
      obtain ⟨m, -, hstep⟩ := step_of_refuses en hcycle
      rw [hstep]
      exact Or.inl (.refused hcycle)
  | resets hreset hstart =>
      refine Or.inr ⟨not_concludes_of_reset hreset ?_, ?_⟩
      · exact fun hrefuses => Bool.false_ne_true (hstart.symm.trans hrefuses.1.1)
      · rw [step_of_resets hreset hstart]
        rfl
  | timesOut hcycle =>
      obtain ⟨m, -, hstep⟩ := step_of_timesOut hcycle
      rw [hstep]
      exact Or.inl (.timedOut hcycle)
  | completes hcycle =>
      obtain ⟨m, -, hstep⟩ := step_of_completes hcycle
      rw [hstep]
      exact Or.inl (.completed hcycle)
  | carriesOn hruns htime hall =>
      refine Or.inr ⟨?_, (step_of_carriesOn hruns htime hall).snapshot⟩
      rintro (hrefuses | h | h)
      · exact not_starts_of_runs hruns hrefuses.1
      · exact htime h
      · exact hall h
  | rests hidle hreset hstart =>
      refine Or.inr ⟨?_, ?_⟩
      · rintro (hrefuses | htime | hall)
        · exact Bool.false_ne_true (hstart.symm.trans hrefuses.1.1)
        · cases hidle.symm.trans htime.1.1
        · cases hidle.symm.trans hall.1.1
      · rw [step_of_rests hidle (h.loader hidle).1 hreset hstart]
        rfl

/-- A cycle that shows `done` afterwards has just ended a batch, or has left alone what
the core showed before. -/
theorem coherent_step (h : Orderly s) {refused refused' : Prop}
    (hs : s.done = true → Coherent refused s) (hnew : Refuses i s → refused')
    (hkeep : ¬ Starts i s → refused → refused') (hdone : (step en i s).done = true) :
    Coherent refused' (step en i s) := by
  cases cycle en i s with
  | accepts hcycle =>
      rw [(step_of_accepts en hcycle).pending.1] at hdone
      cases hdone
  | refuses hcycle =>
      obtain ⟨m, -, hstep⟩ := step_of_refuses en hcycle
      have hrefused := hnew hcycle
      rw [hstep]
      exact ⟨rfl, rfl, rfl, rfl, rfl, rfl, fun hnot => absurd hrefused hnot,
        fun hnot => absurd hrefused hnot⟩
  | resets hreset hstart =>
      rw [step_of_resets hreset hstart] at hdone
      cases hdone
  | timesOut hcycle =>
      obtain ⟨m, hm, hstep⟩ := step_of_timesOut hcycle
      rw [hstep]
      exact ⟨rfl, hm.batchId.symm, rfl, rfl, rfl, hm.acceptedJobCount.symm,
        fun _ => hm.jobsCompleted.symm, fun _ => hm.jobsDropped.symm⟩
  | completes hcycle =>
      obtain ⟨m, hm, hstep⟩ := step_of_completes hcycle
      rw [hstep]
      exact ⟨rfl, hm.batchId.symm, rfl, rfl, rfl, hm.acceptedJobCount.symm,
        fun _ => hm.jobsCompleted.symm, fun _ => hm.jobsDropped.symm⟩
  | carriesOn hruns htime hall =>
      rw [(step_of_carriesOn hruns htime hall).done, (h.pending hruns.1).1] at hdone
      cases hdone
  | rests hidle hreset hstart =>
      rw [step_of_rests hidle (h.loader hidle).1 hreset hstart] at hdone ⊢
      have hstarts : ¬ Starts i s := fun hstarts => Bool.false_ne_true (hstart.symm.trans hstarts.1)
      obtain ⟨hbusy, hid, herror, hvalid, hcode, haccepted, hcompleted, hdropped⟩ := hs hdone
      exact ⟨hbusy, hid, herror, hvalid, hcode, haccepted,
        fun hnot => hcompleted fun hrefused => hnot (hkeep hstarts hrefused),
        fun hnot => hdropped fun hrefused => hnot (hkeep hstarts hrefused)⟩

/-! ### Runs -/

/-- The core after `n` cycles from reset. -/
def trace (en : Bool) (inputs : ℕ → Inputs) (n : ℕ) : State :=
  Clocked.run (step en) inputs reset n

/-- The latest launch of the first `n` cycles was refused. -/
def LatestRefused (en : Bool) (inputs : ℕ → Inputs) (n : ℕ) : Prop :=
  ∃ k < n, Refuses (inputs k) (trace en inputs k) ∧
    ∀ j, k < j → j < n → ¬ Starts (inputs j) (trace en inputs j)

/-- While the core shows `done`, its snapshot is that of the batch it shows. -/
theorem coherent_of_done (en : Bool) (inputs : ℕ → Inputs) :
    ∀ n, (trace en inputs n).done = true →
      Coherent (LatestRefused en inputs n) (trace en inputs n) := by
  intro n
  induction n with
  | zero => nofun
  | succ n ih =>
      refine coherent_step (.run en inputs n) ih ?_ ?_
      · intro hrefuses
        exact ⟨n, Nat.lt_succ_self n, hrefuses, fun j hk hj => absurd hj (by omega)⟩
      · rintro hstarts ⟨k, hk, hrefuses, hlater⟩
        refine ⟨k, Nat.lt_succ_of_lt hk, hrefuses, ?_⟩
        intro j hkj hj
        rcases Nat.lt_succ_iff_lt_or_eq.mp hj with hlt | rfl
        · exact hlater j hkj hlt
        · exact hstarts

/-- The completion snapshot is coherent with the live outputs whenever the core shows
`done`; it is written as a whole, in the cycles that end a batch and in no others; and a
soft reset, with the batch it cuts short, leaves it alone. -/
theorem snapshot_atomic (en : Bool) (inputs : ℕ → Inputs) (n : ℕ) :
    ((trace en inputs n).done = true →
        Coherent (LatestRefused en inputs n) (trace en inputs n)) ∧
      (Concludes en (inputs n) (trace en inputs n) →
        Latches en (inputs n) (trace en inputs n) (trace en inputs (n + 1)).snapshot) ∧
      (¬ Concludes en (inputs n) (trace en inputs n) →
        (trace en inputs (n + 1)).snapshot = (trace en inputs n).snapshot) ∧
      ((inputs n).softReset = true → ¬ Refuses (inputs n) (trace en inputs n) →
        (trace en inputs (n + 1)).snapshot = (trace en inputs n).snapshot) := by
  have hsnapshot := snapshot_step en (inputs n) (Orderly.run en inputs n)
  have hkept : ¬ Concludes en (inputs n) (trace en inputs n) →
      (trace en inputs (n + 1)).snapshot = (trace en inputs n).snapshot := by
    intro hnot
    rcases hsnapshot with hlatches | ⟨-, hsame⟩
    · exact absurd hlatches.concludes hnot
    · exact hsame
  refine ⟨coherent_of_done en inputs n, ?_, hkept, ?_⟩
  · intro hconcludes
    rcases hsnapshot with hlatches | ⟨hnot, -⟩
    · exact hlatches
    · exact absurd hconcludes hnot
  · intro hreset hrefuses
    exact hkept (not_concludes_of_reset hreset hrefuses)

end SigvKv260Core

end Kv260Sigv
