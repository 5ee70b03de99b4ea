import Kv260Sigv.System.Dispatch

/-!
# How a cycle of the core ends a batch

A batch ends in one of three ways: its launch is refused, the watchdog of a slot
expires, or its last job completes.  Every other cycle leaves the reported outcome
alone, except that a launch and a soft reset clear the live half of it.  The lemmas
here say so once, for one and for two engines and whatever the engines answer; the
properties of the snapshot, of the status bits and of the interrupt rest on them.
-/

set_option autoImplicit false

namespace Kv260Sigv

namespace SigvKv260Core

/-! ### The cycles that matter -/

/-- The cycle launches a batch, accepted or refused. -/
def Starts (i : Inputs) (s : State) : Prop :=
  i.start = true ∧ (i.softReset = true ∨ s.state = .idle)

/-- The cycle accepts a launch. -/
def Accepts (i : Inputs) (s : State) : Prop := Starts i s ∧ i.config.Launchable

/-- The cycle refuses a launch. -/
def Refuses (i : Inputs) (s : State) : Prop := Starts i s ∧ ¬ i.config.Launchable

/-- A batch runs through the cycle: no soft reset cuts it short. -/
def Runs (i : Inputs) (s : State) : Prop := s.state = .run ∧ i.softReset = false

/-- The watchdog of a slot expires. -/
def TimesOut (en : Bool) (i : Inputs) (s : State) : Prop :=
  Runs i s ∧ (timedOut true i.config s.engine0 i.engine0 ||
    timedOut en i.config s.engine1 i.engine1) = true

/-- The last job of the batch completes, and no watchdog expires. -/
def Completes (en : Bool) (i : Inputs) (s : State) : Prop :=
  Runs i s ∧ (timedOut true i.config s.engine0 i.engine0 ||
      timedOut en i.config s.engine1 i.engine1) = false ∧
    s.batchCompletedCount + (BitVec.ofBool (doneEvt true s.engine0 i.engine0)).setWidth 8 +
      (BitVec.ofBool (doneEvt en s.engine1 i.engine1)).setWidth 8 = s.scheduledJobCount

/-- The cycle ends a batch. -/
def Concludes (en : Bool) (i : Inputs) (s : State) : Prop :=
  Refuses i s ∨ TimesOut en i s ∨ Completes en i s

/-- The jobs completed, with those of the cycle. -/
def completedWith (en : Bool) (i : Inputs) (s : State) : BitVec 32 :=
  s.jobsCompleted + (BitVec.ofBool (doneEvt true s.engine0 i.engine0)).setWidth 32 +
    (BitVec.ofBool (doneEvt en s.engine1 i.engine1)).setWidth 32

/-- The error code of a refused launch. -/
def refusalCode (c : Config) : BitVec 8 :=
  if c.messageLength > maxMessageBytes then errMessageLen else errJobCount

variable {en : Bool} {i : Inputs} {s : State}

/-! ### Launches -/

/-- Registers that a cycle leaves to the launch in it. -/
structure Untouched (s m : State) : Prop where
  snapshot : m.snapshot = s.snapshot
  jobsStarted : m.jobsStarted = s.jobsStarted
  jobsCompleted : m.jobsCompleted = s.jobsCompleted
  jobsDropped : m.jobsDropped = s.jobsDropped

/-- A launch clears what the core shows and then writes the outcome of the checks. -/
theorem step_of_starts (en : Bool) (h : Starts i s) :
    ∃ m : State, Untouched s m ∧ step en i s = launchBatch i.softReset i.config s m := by
  obtain ⟨hstart, hwhen⟩ := h
  cases hreset : i.softReset with
  | true =>
      refine ⟨{ s with
        verifierAbort := true
        engine0 := { s.engine0 with startPulse := false }
        engine1 := { s.engine1 with startPulse := false } }, ⟨rfl, rfl, rfl, rfl⟩, ?_⟩
      rw [step, hreset, hstart]
      rfl
  | false =>
      have hidle : s.state = .idle := by simpa [hreset] using hwhen
      refine ⟨stepLoader i s (tick en s), ?_, ?_⟩
      · rw [stepLoader_eq i s (n := tick en s) rfl rfl rfl rfl]
        exact ⟨rfl, rfl, rfl, rfl⟩
      · rw [step_idle en i s hidle hreset, if_pos hstart]

/-- What a refused launch writes. -/
theorem launchBatch_of_refused {c : Config} (clearCounters : Bool) (s m : State)
    (h : ¬ c.Launchable) :
    launchBatch clearCounters c s m =
      rejectLaunch (refusalCode c) (s.batchId + 1)
        (clearLiveState clearCounters { m with batchId := s.batchId + 1 }) := by
  unfold launchBatch refusalCode
  dsimp only
  split
  · rfl
  · next hlength =>
      split
      · rfl
      · next hcount =>
          rw [not_or] at hcount
          exact absurd ⟨Nat.le_of_not_lt hlength, hcount.1, Nat.le_of_not_lt hcount.2⟩ h

theorem step_of_refuses (en : Bool) (h : Refuses i s) :
    ∃ m : State, Untouched s m ∧
      step en i s = rejectLaunch (refusalCode i.config) (s.batchId + 1)
        (clearLiveState i.softReset { m with batchId := s.batchId + 1 }) := by
  obtain ⟨m, hm, hstep⟩ := step_of_starts en h.1
  exact ⟨m, hm, hstep.trans (launchBatch_of_refused _ _ _ h.2)⟩

/-! ### Cycles of a running batch -/

/-- The cycle of a running batch, with the loader's part separated. -/
theorem step_of_runs (h : Runs i s) :
    step en i s = stepRun en i s (stepLoader i s (tick en s)) := by
  rw [step_eq en i s h.2, h.1]

/-- What the report of a batch that ends by itself is taken from. -/
structure Closing (en : Bool) (i : Inputs) (s m : State) : Prop where
  batchId : m.batchId = s.batchId
  acceptedJobCount : m.acceptedJobCount = s.acceptedJobCount
  jobsCompleted : m.jobsCompleted = completedWith en i s
  jobsDropped : m.jobsDropped = s.jobsDropped
  start0 : m.engine0.startPulse = false
  start1 : m.engine1.startPulse = false

/-- An expired watchdog finalizes the batch. -/
theorem step_of_timesOut (h : TimesOut en i s) :
    ∃ m : State, Closing en i s m ∧
      step en i s = finalizeBatch true true errJobTimeout (completedWith en i s) s m := by
  have hload := stepLoader_eq i s (n := tick en s) rfl rfl rfl rfl
  rw [step_of_runs h.1, hload]
  unfold stepRun
  dsimp only
  rw [if_pos h.2]
  refine ⟨_, ?_, rfl⟩
  exact ⟨rfl, rfl, rfl, rfl, freeSlot_startPulse _ _ _, freeSlot_startPulse _ _ _⟩

/-- The last completion finalizes the batch. -/
theorem step_of_completes (h : Completes en i s) :
    ∃ m : State, Closing en i s m ∧
      step en i s = finalizeBatch false true errNone (completedWith en i s) s m := by
  have hload := stepLoader_eq i s (n := tick en s) rfl rfl rfl rfl
  rw [step_of_runs h.1, hload]
  unfold stepRun
  dsimp only
  rw [if_neg (by rw [h.2.1]; exact Bool.false_ne_true), if_pos h.2.2]
  refine ⟨_, ?_, rfl⟩
  exact ⟨rfl, rfl, rfl, rfl, freeSlot_startPulse _ _ _, freeSlot_startPulse _ _ _⟩

/-- What the host reads of an outcome. -/
structure SameOutcome (s s' : State) : Prop where
  state : s'.state = s.state
  busy : s'.busy = s.busy
  done : s'.done = s.done
  error : s'.error = s.error
  resultValid : s'.resultValid = s.resultValid
  errorCode : s'.errorCode = s.errorCode
  acceptedJobCount : s'.acceptedJobCount = s.acceptedJobCount
  jobsDropped : s'.jobsDropped = s.jobsDropped
  batchId : s'.batchId = s.batchId
  snapshot : s'.snapshot = s.snapshot

theorem SameOutcome.afterDispatch {n : State} (h : SameOutcome s n) (s₀ : State) :
    SameOutcome s (afterDispatch s₀ n) := by
  unfold SigvKv260Core.afterDispatch
  dsimp only
  split
  · exact ⟨h.state, h.busy, h.done, h.error, h.resultValid, h.errorCode, h.acceptedJobCount,
      h.jobsDropped, h.batchId, h.snapshot⟩
  · exact ⟨h.state, h.busy, h.done, h.error, h.resultValid, h.errorCode, h.acceptedJobCount,
      h.jobsDropped, h.batchId, h.snapshot⟩

/-- Handing out a job does not show. -/
theorem SameOutcome.dispatch {n : State} (h : SameOutcome s n) (evt0 evt1 : Bool) (s₀ : State) :
    SameOutcome s (dispatch en evt0 evt1 s₀ n) := by
  have hslot : ∀ slot0 slot1, SameOutcome s { n with engine0 := slot0, engine1 := slot1 } :=
    fun _ _ => ⟨h.state, h.busy, h.done, h.error, h.resultValid, h.errorCode, h.acceptedJobCount,
      h.jobsDropped, h.batchId, h.snapshot⟩
  unfold SigvKv260Core.dispatch
  split
  · split
    · exact (hslot _ _).afterDispatch s₀
    · split
      · exact (hslot _ _).afterDispatch s₀
      · exact h
  · exact h

/-- A running batch that does not end shows nothing new. -/
theorem step_of_carriesOn (hruns : Runs i s) (htime : ¬ TimesOut en i s)
    (hall : ¬ Completes en i s) : SameOutcome s (step en i s) := by
  have hexpired : ¬ (timedOut true i.config s.engine0 i.engine0 ||
      timedOut en i.config s.engine1 i.engine1) = true := fun h => htime ⟨hruns, h⟩
  have hload := stepLoader_eq i s (n := tick en s) rfl rfl rfl rfl
  rw [step_of_runs hruns, hload]
  unfold stepRun
  dsimp only
  rw [if_neg hexpired, if_neg fun h => hall ⟨hruns, Bool.eq_false_iff.mpr hexpired, h⟩]
  refine SameOutcome.dispatch ?_ _ _ _
  exact ⟨rfl, rfl, rfl, rfl, rfl, rfl, rfl, rfl, rfl, rfl⟩

/-- Nothing happens to an idle core that is neither started nor reset. -/
theorem step_of_rests (hidle : s.state = .idle) (hload : s.loaderState = .idle)
    (hreset : i.softReset = false) (hstart : i.start = false) : step en i s = tick en s := by
  rw [step_idle en i s hidle hreset, hstart, stepLoader, hload]
  rfl

/-- A soft reset clears the live state and keeps the snapshot. -/
theorem step_of_resets (hreset : i.softReset = true) (hstart : i.start = false) :
    step en i s = clearLiveState true
      { s with
        verifierAbort := true
        engine0 := { s.engine0 with startPulse := false }
        engine1 := { s.engine1 with startPulse := false } } := by
  rw [step, hreset, hstart]
  rfl

/-! ### All cycles -/

/-- The kinds of cycles. -/
inductive Cycle (en : Bool) (i : Inputs) (s : State) : Prop
  | accepts (h : Accepts i s)
  | refuses (h : Refuses i s)
  | resets (hreset : i.softReset = true) (hstart : i.start = false)
  | timesOut (h : TimesOut en i s)
  | completes (h : Completes en i s)
  | carriesOn (hruns : Runs i s) (htime : ¬ TimesOut en i s) (hall : ¬ Completes en i s)
  | rests (hidle : s.state = .idle) (hreset : i.softReset = false) (hstart : i.start = false)

theorem cycle (en : Bool) (i : Inputs) (s : State) : Cycle en i s := by
  by_cases hstarts : Starts i s
  · by_cases hconfig : i.config.Launchable
    · exact .accepts ⟨hstarts, hconfig⟩
    · exact .refuses ⟨hstarts, hconfig⟩
  cases hreset : i.softReset with
  | true =>
      refine .resets hreset ?_
      rw [← Bool.not_eq_true]
      exact fun hstart => hstarts ⟨hstart, Or.inl hreset⟩
  | false =>
      cases hstate : s.state with
      | idle =>
          refine .rests hstate hreset ?_
          rw [← Bool.not_eq_true]
          exact fun hstart => hstarts ⟨hstart, Or.inr hstate⟩
      | run =>
          by_cases htime : TimesOut en i s
          · exact .timesOut htime
          · by_cases hall : Completes en i s
            · exact .completes hall
            · exact .carriesOn ⟨hstate, hreset⟩ htime hall

/-! ### The outputs of a reachable core -/

/-- `busy` shows the running state, a running batch shows no outcome, and an idle core
neither loads nor starts a job. -/
structure Orderly (s : State) : Prop where
  busy : s.busy = true ↔ s.state = .run
  pending : s.state = .run → s.done = false ∧ s.error = false ∧ s.resultValid = false
  error : s.error = true → s.done = true
  loader : s.state = .idle → s.loaderState = .idle ∧ s.shadowValid = false
  starts : s.state = .idle → s.engine0.startPulse = false ∧ s.engine1.startPulse = false

theorem Orderly.reset : Orderly reset :=
  ⟨⟨fun h => absurd h Bool.false_ne_true, nofun⟩, nofun, nofun, fun _ => ⟨rfl, rfl⟩,
    fun _ => ⟨rfl, rfl⟩⟩

/-- A state without a batch, whatever it reports. -/
theorem Orderly.of_idle (hstate : s.state = .idle) (hbusy : s.busy = false)
    (herror : s.error = true → s.done = true)
    (hload : s.loaderState = .idle ∧ s.shadowValid = false)
    (hstart : s.engine0.startPulse = false ∧ s.engine1.startPulse = false) : Orderly s := by
  refine ⟨?_, ?_, herror, fun _ => hload, fun _ => hstart⟩
  · rw [hbusy, hstate]
    exact ⟨fun h => absurd h Bool.false_ne_true, nofun⟩
  · intro hrun
    rw [hstate] at hrun
    cases hrun

/-- A state with a batch running. -/
theorem Orderly.of_run (hstate : s.state = .run) (hbusy : s.busy = true)
    (hpending : s.done = false ∧ s.error = false ∧ s.resultValid = false) : Orderly s := by
  refine ⟨⟨fun _ => hstate, fun _ => hbusy⟩, fun _ => hpending, ?_, ?_, ?_⟩
  · intro herror
    rw [hpending.2.1] at herror
    cases herror
  · intro hidle
    rw [hstate] at hidle
    cases hidle
  · intro hidle
    rw [hstate] at hidle
    cases hidle

/-- What an accepted launch shows. -/
structure Fresh (i : Inputs) (s s' : State) : Prop where
  state : s'.state = .run
  busy : s'.busy = true
  pending : s'.done = false ∧ s'.error = false ∧ s'.resultValid = false
  batchId : s'.batchId = s.batchId + 1
  snapshot : s'.snapshot = s.snapshot

theorem step_of_accepts (en : Bool) (h : Accepts i s) : Fresh i s (step en i s) := by
  obtain ⟨m, hm, hstep⟩ := step_of_starts en h.1
  rw [hstep, Bench.launchBatch_of_launchable h.2]
  exact ⟨rfl, rfl, ⟨rfl, rfl, rfl⟩, rfl, hm.snapshot⟩

theorem Orderly.step (h : Orderly s) : Orderly (step en i s) := by
  cases cycle en i s with
  | accepts hcycle =>
      have hfresh := step_of_accepts en hcycle
      exact .of_run hfresh.state hfresh.busy hfresh.pending
  | refuses hcycle =>
      obtain ⟨m, -, hstep⟩ := step_of_refuses en hcycle
      rw [hstep]
      exact .of_idle rfl rfl (fun _ => rfl) ⟨rfl, rfl⟩ ⟨rfl, rfl⟩
  | resets hreset hstart =>
      rw [step_of_resets hreset hstart]
      exact .of_idle rfl rfl nofun ⟨rfl, rfl⟩ ⟨rfl, rfl⟩
  | timesOut hcycle =>
      obtain ⟨m, hm, hstep⟩ := step_of_timesOut hcycle
      rw [hstep]
      exact .of_idle rfl rfl (fun _ => rfl) ⟨rfl, rfl⟩ ⟨hm.start0, hm.start1⟩
  | completes hcycle =>
      obtain ⟨m, hm, hstep⟩ := step_of_completes hcycle
      rw [hstep]
      exact .of_idle rfl rfl (fun _ => rfl) ⟨rfl, rfl⟩ ⟨hm.start0, hm.start1⟩
  | carriesOn hruns htime hall =>
      have hsame := step_of_carriesOn hruns htime hall
      have hpending := h.pending hruns.1
      refine .of_run (hsame.state.trans hruns.1) (hsame.busy.trans (h.busy.mpr hruns.1)) ?_
      rwa [hsame.done, hsame.error, hsame.resultValid]
  | rests hidle hreset hstart =>
      rw [step_of_rests hidle (h.loader hidle).1 hreset hstart]
      have hbusy : s.busy = false := by
        rw [← Bool.not_eq_true, h.busy, hidle]
        nofun
      exact .of_idle hidle hbusy h.error (h.loader hidle) ⟨rfl, rfl⟩

/-- A core that shows an outcome is idle. -/
theorem Orderly.idle_of_done (h : Orderly s) (hdone : s.done = true) : s.state = .idle := by
  cases hstate : s.state with
  | idle => rfl
  | run =>
      rw [(h.pending hstate).1] at hdone
      cases hdone

theorem Orderly.busy_of_idle (h : Orderly s) (hidle : s.state = .idle) : s.busy = false := by
  rw [← Bool.not_eq_true, h.busy, hidle]
  nofun

/-- Every run from reset is orderly. -/
theorem Orderly.run (en : Bool) (inputs : ℕ → Inputs) (n : ℕ) :
    Orderly (Clocked.run (SigvKv260Core.step en) inputs SigvKv260Core.reset n) :=
  Clocked.run_invariant (fun _ _ h => h.step) .reset n

end SigvKv260Core

end Kv260Sigv
