import Kv260Sigv.Library.Scoreboard
import Kv260Sigv.System.Bench
import Mathlib.Data.Finset.Lattice.Basic

/-!
# Who works on which job

The sequencer against a `Scoreboard`: the jobs handed out are the ones before the
job in the shadow slot, the jobs in flight are the ones in the engine slots, and
`batch_completed_count` counts the finished ones.  `Accounted` says so for a
running batch and `Parked` for an idle core; together they hold in every
reachable state, whatever the job memory holds and whichever resets, timeouts and
launches occur.
-/

namespace Kv260Sigv

open SigvKv260Core

namespace SigvKv260Core

/-! ### One cycle of `ST_RUN`, by cases -/

/-- The registers before the loader and the state machine of a cycle without soft
reset. -/
def tick (engine1Enabled : Bool) (s : State) : State :=
  { s with
    verifierAbort := false
    activeCycles := if s.busy then s.activeCycles + 1 else s.activeCycles
    engine0 := tickSlot true s.engine0
    engine1 := tickSlot engine1Enabled s.engine1 }

/-- The registers after the loader and the completions of a cycle of `ST_RUN`. -/
def retire (engine1Enabled : Bool) (i : Inputs) (s : State) : State :=
  let evt0 := doneEvt true s.engine0 i.engine0
  let evt1 := doneEvt engine1Enabled s.engine1 i.engine1
  let mask0 :=
    if evt0 then
      s.resultMask.writeSlice s.engine0.jobIndex.toNat (BitVec.ofBool i.engine0.verified)
    else s.resultMask
  { s with
    verifierAbort := false
    activeCycles := if s.busy then s.activeCycles + 1 else s.activeCycles
    loaderState := (stepLoader i s s).loaderState
    shadow := (stepLoader i s s).shadow
    shadowValid := (stepLoader i s s).shadowValid
    loadWordIndex := (stepLoader i s s).loadWordIndex
    resultMask :=
      if evt1 then mask0.writeSlice s.engine1.jobIndex.toNat (BitVec.ofBool i.engine1.verified)
      else mask0
    engine0 := freeSlot evt0 (tickSlot true s.engine0)
    engine1 := freeSlot evt1 (tickSlot engine1Enabled s.engine1)
    jobsCompleted :=
      s.jobsCompleted + (BitVec.ofBool evt0).setWidth 32 + (BitVec.ofBool evt1).setWidth 32
    batchCompletedCount :=
      s.batchCompletedCount + (BitVec.ofBool evt0).setWidth 8 + (BitVec.ofBool evt1).setWidth 8
    lastJobCycles :=
      if evt1 then s.engine1.cycles + 1 else if evt0 then s.engine0.cycles + 1
      else s.lastJobCycles
    maxJobCycles :=
      maxCycles evt1 (s.engine1.cycles + 1)
        (maxCycles evt0 (s.engine0.cycles + 1) s.maxJobCycles) }

section retire

variable (en : Bool) (i : Inputs) (s : State)

/-- The loader writes its own registers, and what it writes there does not depend
on what else the cycle writes. -/
theorem stepLoader_eq {n : State} (hstate : n.loaderState = s.loaderState)
    (hshadow : n.shadow = s.shadow) (hvalid : n.shadowValid = s.shadowValid)
    (hword : n.loadWordIndex = s.loadWordIndex) :
    stepLoader i s n =
      { n with
        loaderState := (stepLoader i s s).loaderState
        shadow := (stepLoader i s s).shadow
        shadowValid := (stepLoader i s s).shadowValid
        loadWordIndex := (stepLoader i s s).loadWordIndex } := by
  cases n
  subst hstate hshadow hvalid hword
  unfold stepLoader
  split
  · rfl
  · rfl
  · rfl
  · dsimp only
    split <;> rfl

/-! The cycles of the loader, by its state. -/

variable {i s}

theorem stepLoader_idle (h : s.loaderState = .idle) : stepLoader i s s = s := by
  rw [stepLoader, h]

theorem stepLoader_req (h : s.loaderState = .req) :
    stepLoader i s s = { s with loaderState := .wait } := by
  rw [stepLoader, h]

theorem stepLoader_wait (h : s.loaderState = .wait) :
    stepLoader i s s = { s with loaderState := .capture } := by
  rw [stepLoader, h]

/-- The last word fills the shadow. -/
theorem stepLoader_last (h : s.loaderState = .capture) (hlast : s.loadWordIndex = jobLastWordIndex) :
    stepLoader i s s =
      { s with
        shadow := captureWord s.shadow s.loadWordIndex i.jobBramDout
        loaderState := .idle
        shadowValid := true } := by
  rw [stepLoader, h]
  exact if_pos hlast

theorem stepLoader_next (h : s.loaderState = .capture) (hlast : s.loadWordIndex ≠ jobLastWordIndex) :
    stepLoader i s s =
      { s with
        shadow := captureWord s.shadow s.loadWordIndex i.jobBramDout
        loadWordIndex := s.loadWordIndex + 1
        loaderState := .req } := by
  rw [stepLoader, h]
  exact if_neg hlast

variable (i s)

/-- What a cycle of `ST_RUN` does. -/
inductive RunStep (en : Bool) (i : Inputs) (s : State) : State → Prop
  /-- The watchdog of a slot expires. -/
  | timeout (lastJobCycles maxJobCycles : BitVec 32) (h : i.config.jobTimeoutCycles ≠ 0) :
      RunStep en i s (finalizeBatch true true errJobTimeout (retire en i s).jobsCompleted s
        { retire en i s with
          lastJobCycles := lastJobCycles
          maxJobCycles := maxJobCycles
          verifierAbort := true })
  /-- The last job completes. -/
  | complete (h : (retire en i s).batchCompletedCount = s.scheduledJobCount) :
      RunStep en i s (finalizeBatch false true errNone (retire en i s).jobsCompleted s
        (retire en i s))
  /-- The shadow goes to engine 0. -/
  | hand0 (h : (retire en i s).batchCompletedCount ≠ s.scheduledJobCount)
      (hshadow : s.shadowValid = true) (hfree : (retire en i s).engine0.busySlot = false) :
      RunStep en i s (afterDispatch s { retire en i s with engine0 := dispatchSlot s })
  /-- The shadow goes to engine 1. -/
  | hand1 (h : (retire en i s).batchCompletedCount ≠ s.scheduledJobCount) (hen : en = true)
      (hshadow : s.shadowValid = true) (hfree : (retire en i s).engine1.busySlot = false) :
      RunStep en i s (afterDispatch s { retire en i s with engine1 := dispatchSlot s })
  /-- Nothing is handed out: there is no shadow, or engine 0 is taken. -/
  | wait (h : (retire en i s).batchCompletedCount ≠ s.scheduledJobCount)
      (hwait : s.shadowValid = true → (retire en i s).engine0.busySlot = true) :
      RunStep en i s (retire en i s)

/-- A slot is busy after the completions if it was and did not complete. -/
theorem freeSlot_busySlot (evt enabled : Bool) (slot : Slot) :
    (freeSlot evt (tickSlot enabled slot)).busySlot = (slot.busySlot && !evt) := by
  cases evt with
  | false => exact (Bool.and_true _).symm
  | true => exact (Bool.and_false _).symm

theorem freeSlot_startPulse (evt enabled : Bool) (slot : Slot) :
    (freeSlot evt (tickSlot enabled slot)).startPulse = false := by
  cases evt with
  | false => rfl
  | true => rfl

/-- A cycle without soft reset. -/
theorem step_eq (hreset : i.softReset = false) :
    step en i s =
      match s.state with
      | .idle =>
          if i.start then launchBatch false i.config s (stepLoader i s (tick en s))
          else stepLoader i s (tick en s)
      | .run => stepRun en i s (stepLoader i s (tick en s)) := by
  rw [step, hreset]
  rfl

theorem step_run (hrun : s.state = .run) (hreset : i.softReset = false) :
    RunStep en i s (step en i s) := by
  have hload := stepLoader_eq i s (n := tick en s) rfl rfl rfl rfl
  have hstep : step en i s = stepRun en i s (stepLoader i s (tick en s)) := by
    rw [step_eq en i s hreset, hrun]
  have hbusy0 : (retire en i s).engine0.busySlot =
      (s.engine0.busySlot && !doneEvt true s.engine0 i.engine0) := freeSlot_busySlot _ _ _
  have hbusy1 : (retire en i s).engine1.busySlot =
      (s.engine1.busySlot && !doneEvt en s.engine1 i.engine1) := freeSlot_busySlot _ _ _
  rw [hstep, hload]
  unfold stepRun
  dsimp only
  split
  · next htimeout =>
      refine .timeout _ _ ?_
      intro hzero
      simp [timedOut, hzero] at htimeout
  · split
    · next hall => exact .complete hall
    · next hmore =>
        unfold dispatch
        split
        · next hshadow =>
            split
            · next hfree =>
                refine .hand0 hmore hshadow ?_
                rw [hbusy0, ← Bool.not_eq_true', Bool.not_and, Bool.not_not]
                exact hfree
            · next htaken =>
                have hwait : (retire en i s).engine0.busySlot = true := by
                  rw [hbusy0]
                  simpa using htaken
                split
                · next hfree =>
                    rw [Bool.and_eq_true] at hfree
                    refine .hand1 hmore hfree.1 hshadow ?_
                    rw [hbusy1, ← Bool.not_eq_true', Bool.not_and, Bool.not_not]
                    exact hfree.2
                · exact .wait hmore (fun _ => hwait)
        · next hshadow => exact .wait hmore (fun h => absurd h hshadow)

/-- A cycle of `ST_IDLE`. -/
theorem step_idle (hidle : s.state = .idle) (hreset : i.softReset = false) :
    step en i s =
      if i.start then launchBatch false i.config s (stepLoader i s (tick en s))
      else stepLoader i s (tick en s) := by
  rw [step_eq en i s hreset, hidle]

end retire

/-! ### What a dispatch leaves alone -/

section afterDispatch

variable (s n : State)

/-- A dispatch writes the loader, the shadow and the job counters. -/
theorem afterDispatch_frame :
    (afterDispatch s n).state = n.state ∧ (afterDispatch s n).engine0 = n.engine0 ∧
      (afterDispatch s n).engine1 = n.engine1 ∧
      (afterDispatch s n).batchCompletedCount = n.batchCompletedCount ∧
      (afterDispatch s n).jobsCompleted = n.jobsCompleted ∧
      (afterDispatch s n).resultMask = n.resultMask ∧
      (afterDispatch s n).verifierAbort = n.verifierAbort ∧
      (afterDispatch s n).busy = n.busy ∧ (afterDispatch s n).done = n.done ∧
      (afterDispatch s n).acceptedJobCount = n.acceptedJobCount ∧
      (afterDispatch s n).scheduledJobCount = n.scheduledJobCount := by
  unfold afterDispatch
  dsimp only
  split <;> exact ⟨rfl, rfl, rfl, rfl, rfl, rfl, rfl, rfl, rfl, rfl, rfl⟩

@[simp] theorem afterDispatch_state : (afterDispatch s n).state = n.state :=
  (afterDispatch_frame s n).1

@[simp] theorem afterDispatch_engine0 : (afterDispatch s n).engine0 = n.engine0 :=
  (afterDispatch_frame s n).2.1

@[simp] theorem afterDispatch_engine1 : (afterDispatch s n).engine1 = n.engine1 :=
  (afterDispatch_frame s n).2.2.1

@[simp] theorem afterDispatch_batchCompletedCount :
    (afterDispatch s n).batchCompletedCount = n.batchCompletedCount :=
  (afterDispatch_frame s n).2.2.2.1

@[simp] theorem afterDispatch_jobsCompleted :
    (afterDispatch s n).jobsCompleted = n.jobsCompleted :=
  (afterDispatch_frame s n).2.2.2.2.1

@[simp] theorem afterDispatch_resultMask : (afterDispatch s n).resultMask = n.resultMask :=
  (afterDispatch_frame s n).2.2.2.2.2.1

@[simp] theorem afterDispatch_verifierAbort :
    (afterDispatch s n).verifierAbort = n.verifierAbort :=
  (afterDispatch_frame s n).2.2.2.2.2.2.1

@[simp] theorem afterDispatch_busy : (afterDispatch s n).busy = n.busy :=
  (afterDispatch_frame s n).2.2.2.2.2.2.2.1

@[simp] theorem afterDispatch_done : (afterDispatch s n).done = n.done :=
  (afterDispatch_frame s n).2.2.2.2.2.2.2.2.1

@[simp] theorem afterDispatch_acceptedJobCount :
    (afterDispatch s n).acceptedJobCount = n.acceptedJobCount :=
  (afterDispatch_frame s n).2.2.2.2.2.2.2.2.2.1

@[simp] theorem afterDispatch_scheduledJobCount :
    (afterDispatch s n).scheduledJobCount = n.scheduledJobCount :=
  (afterDispatch_frame s n).2.2.2.2.2.2.2.2.2.2

@[simp] theorem afterDispatch_shadowValid : (afterDispatch s n).shadowValid = false := by
  unfold afterDispatch
  dsimp only
  split <;> rfl

@[simp] theorem afterDispatch_jobsStarted :
    (afterDispatch s n).jobsStarted = s.jobsStarted + 1 := by
  unfold afterDispatch
  dsimp only
  split <;> rfl

end afterDispatch

/-! ### The loader and the shadow slot -/

/-- `d` of `n` jobs have been handed out: job `d` is in the shadow slot or on its
way there. -/
structure Prefetch (d n : ℕ) (s : State) : Prop where
  scheduled : s.scheduledJobCount.toNat = n
  le : d ≤ n
  next : s.nextLoadJobIndex.toNat = min (d + 1) n
  nextBase : s.nextLoadWordBase = BitVec.ofNat 13 (24 * s.nextLoadJobIndex.toNat)
  word : s.loadWordIndex.toNat < 24
  shadow : d < n → s.shadowJobIndex.toNat = d ∧
    (s.loaderState = .idle ↔ s.shadowValid = true) ∧
    (s.loaderState ≠ .idle → s.loadWordBase = BitVec.ofNat 13 (24 * d))
  drained : d = n → s.loaderState = .idle ∧ s.shadowValid = false

namespace Prefetch

variable {en : Bool} {i : Inputs} {s : State} {d n : ℕ}

theorem lt_of_shadowValid (h : Prefetch d n s) (hvalid : s.shadowValid = true) : d < n := by
  rcases Nat.lt_or_eq_of_le h.le with hlt | heq
  · exact hlt
  · rw [(h.drained heq).2] at hvalid
    contradiction

theorem not_shadowValid (h : Prefetch d n s) (hload : s.loaderState ≠ .idle) :
    s.shadowValid = false := by
  rcases Nat.lt_or_eq_of_le h.le with hlt | heq
  · rw [← Bool.not_eq_true]
    intro hvalid
    exact hload ((h.shadow hlt).2.1.mpr hvalid)
  · exact (h.drained heq).2

/-- The loader prefetches the job it was sent for. -/
theorem retire (h : Prefetch d n s) : Prefetch d n (retire en i s) := by
  by_cases hidle : s.loaderState = .idle
  · have hsame := @stepLoader_idle i s hidle
    refine ⟨h.scheduled, h.le, h.next, h.nextBase, ?_, ?_, ?_⟩
    · simpa only [SigvKv260Core.retire, hsame] using h.word
    · simpa only [SigvKv260Core.retire, hsame] using h.shadow
    · simpa only [SigvKv260Core.retire, hsame] using h.drained
  · have hlt : d < n := by
      refine Nat.lt_of_le_of_ne h.le ?_
      intro heq
      exact hidle (h.drained heq).1
    have hvalid := h.not_shadowValid hidle
    obtain ⟨hindex, -, hbase⟩ := h.shadow hlt
    have hload : (stepLoader i s s).loadWordIndex.toNat < 24 ∧
        ((stepLoader i s s).loaderState = .idle ↔ (stepLoader i s s).shadowValid = true) := by
      have hword := h.word
      unfold stepLoader
      split
      · contradiction
      · exact ⟨hword, by simp [hvalid]⟩
      · exact ⟨hword, by simp [hvalid]⟩
      · dsimp only
        split
        · exact ⟨hword, by simp⟩
        · next hlast =>
            refine ⟨?_, by simp [hvalid]⟩
            have hne : s.loadWordIndex.toNat ≠ 23 := by
              intro heq
              exact hlast (BitVec.eq_of_toNat_eq heq)
            have hone : (1 : BitVec 5).toNat = 1 := rfl
            show (s.loadWordIndex + 1).toNat < 24
            rw [BitVec.toNat_add_of_lt (by omega)]
            omega
    exact ⟨h.scheduled, h.le, h.next, h.nextBase, hload.1,
      fun _ => ⟨hindex, hload.2, fun _ => hbase hidle⟩, fun heq => absurd heq hlt.ne⟩

theorem retire_idle (h : Prefetch d n s) (hvalid : s.shadowValid = true) :
    (SigvKv260Core.retire en i s).loaderState = .idle := by
  have hidle := (h.shadow (h.lt_of_shadowValid hvalid)).2.1.mpr hvalid
  show (stepLoader i s s).loaderState = .idle
  rw [stepLoader_idle hidle]
  exact hidle

/-- Handing out the shadow sends the loader for the next job, if there is one. -/
theorem hand (h : Prefetch d n s) (hvalid : s.shadowValid = true) {m : State}
    (hm : Prefetch d n m) (hidle : m.loaderState = .idle) :
    Prefetch (d + 1) n (afterDispatch s m) := by
  have hlt := h.lt_of_shadowValid hvalid
  have hone : (1 : BitVec 8).toNat = 1 := rfl
  have hcount := s.scheduledJobCount.isLt
  have hsched := h.scheduled
  have hnext := h.next
  unfold afterDispatch
  dsimp only
  split
  · next hmore =>
      have hmore' : s.nextLoadJobIndex.toNat < n := by
        rw [← hsched]
        exact hmore
      have hnext' : (s.nextLoadJobIndex + 1).toNat = d + 2 := by
        rw [BitVec.toNat_add_of_lt (by omega)]
        omega
      refine ⟨hm.scheduled, hlt, ?_, ?_, Nat.zero_lt_succ _, ?_, ?_⟩
      · show (s.nextLoadJobIndex + 1).toNat = min (d + 2) n
        omega
      · show s.nextLoadWordBase + jobWordStride = BitVec.ofNat 13 (24 * _)
        rw [hnext', h.nextBase, show jobWordStride = BitVec.ofNat 13 24 from rfl,
          ← BitVec.ofNat_add]
        congr 1
        omega
      · intro _
        refine ⟨by show s.nextLoadJobIndex.toNat = d + 1; omega, by simp [kickLoader], ?_⟩
        intro _
        show s.nextLoadWordBase = BitVec.ofNat 13 (24 * (d + 1))
        rw [h.nextBase, hnext, show min (d + 1) n = d + 1 by omega]
      · intro heq
        omega
  · next hlast =>
      have hlast' : n ≤ s.nextLoadJobIndex.toNat := by
        rw [← hsched]
        exact Nat.le_of_not_lt hlast
      refine ⟨hm.scheduled, hlt, ?_, hm.nextBase, hm.word, ?_, fun _ => ⟨hidle, rfl⟩⟩
      · show m.nextLoadJobIndex.toNat = min (d + 2) n
        rw [hm.next]
        omega
      · intro hlt'
        omega

end Prefetch

end SigvKv260Core

/-! ### Slots and engines -/

namespace Engine

/-- Nothing runs and nothing is reported. -/
def Quiet (e : Engine) : Prop := e.remaining = none ∧ e.out.done = false

/-- A run is under way, or ended in the cycle before. -/
def Active (e : Engine) : Prop := e.out.done = e.remaining.isNone

end Engine

namespace SigvKv260Core

/-- The engine works exactly while its slot is busy. -/
def Attends (slot : Slot) (e : Engine) : Prop :=
  if slot.busySlot then (if slot.startPulse then e.Quiet else e.Active)
  else slot.startPulse = false ∧ e.Quiet

/-- The job in a slot. -/
def jobsOf (slot : Slot) : Finset ℕ := if slot.busySlot then {slot.jobIndex.toNat} else ∅

/-- The job a slot completes in this cycle. -/
def reports (slot : Slot) (e : Engine) : Finset ℕ := if e.out.done then jobsOf slot else ∅

variable {slot : Slot} {e : Engine} {enabled abort : Bool} {verdict : JobKey → Bool} {latency : ℕ}

theorem Attends.of_free (h : Attends slot e) (hfree : slot.busySlot = false) :
    slot.startPulse = false ∧ e.Quiet := by
  rw [Attends, hfree] at h
  exact h

/-- A free slot reports nothing. -/
theorem Attends.busySlot_of_done (h : Attends slot e) (hdone : e.out.done = true) :
    slot.busySlot = true := by
  rw [← Bool.not_eq_false]
  intro hfree
  rw [(h.of_free hfree).2.2] at hdone
  contradiction

theorem Attends.doneEvt_eq (h : Attends slot e) (hen : enabled = false → slot.busySlot = false) :
    doneEvt enabled slot e.out = e.out.done := by
  by_cases hdone : e.out.done = true
  · have hbusy := h.busySlot_of_done hdone
    have henabled : enabled = true := by
      rw [← Bool.not_eq_false]
      intro hdisabled
      rw [hen hdisabled] at hbusy
      contradiction
    simp [doneEvt, hdone, hbusy, henabled]
  · simp [doneEvt, hdone]

/-- One cycle of a slot that is not refilled. -/
theorem Attends.step (h : Attends slot e) (verdict : Bool) :
    Attends (freeSlot e.out.done (tickSlot enabled slot))
      (e.step slot.startPulse verdict latency) := by
  obtain ⟨remaining, held, done, verified⟩ := e
  obtain ⟨key, jobIndex, busy, start, cycles⟩ := slot
  cases busy with
  | false =>
      obtain ⟨hstart, hremaining, hdone⟩ := h.of_free rfl
      dsimp only at hstart hremaining hdone
      subst hstart hremaining hdone
      exact ⟨rfl, rfl, rfl⟩
  | true =>
      cases start with
      | true =>
          obtain ⟨hremaining, hdone⟩ : remaining = none ∧ done = false := h
          subst hremaining hdone
          cases latency with
          | zero => rfl
          | succ latency => rfl
      | false =>
          have hdone : done = remaining.isNone := h
          subst hdone
          cases remaining with
          | none => exact ⟨rfl, rfl, rfl⟩
          | some r =>
              cases r with
              | zero => rfl
              | succ r => rfl

/-- The same with the abort of the cycle, which no busy slot meets. -/
theorem Attends.stepEngine (h : Attends slot (e.visible abort))
    (habort : abort = true → slot.busySlot = false) :
    Attends (freeSlot (e.visible abort).out.done (tickSlot enabled slot))
      (Bench.stepEngine abort slot verdict latency e) := by
  cases abort with
  | false => exact h.step _
  | true =>
      have hstart := (h.of_free (habort rfl)).1
      have hnext : Attends (freeSlot Engine.idle.out.done (tickSlot enabled slot))
          (Engine.idle.step slot.startPulse false 0) := h.step false
      rw [hstart] at hnext
      exact hnext

/-- Handing a job to a free slot. -/
theorem Attends.hand (h : Attends slot e) (hfree : slot.busySlot = false) (s : State) :
    Attends (dispatchSlot s) e := (h.of_free hfree).2

/-- An abort quiets the engine of a free slot. -/
theorem attends_idle (hfree : slot.busySlot = false) (hstart : slot.startPulse = false) :
    Attends slot Engine.idle := by
  rw [Attends, hfree]
  exact ⟨hstart, rfl, rfl⟩

/-- The job of a slot after the completions. -/
theorem jobsOf_freeSlot (evt : Bool) :
    jobsOf (freeSlot evt (tickSlot enabled slot)) = if evt then ∅ else jobsOf slot := by
  cases evt with
  | false => rfl
  | true => rfl

theorem Attends.card_reports (h : Attends slot e) :
    (reports slot e).card = e.out.done.toNat := by
  unfold reports
  split
  · next hdone =>
      rw [jobsOf, if_pos (h.busySlot_of_done hdone), Finset.card_singleton, hdone]
      rfl
  · next hdone =>
      rw [Bool.not_eq_true] at hdone
      rw [hdone]
      rfl

theorem reports_subset : reports slot e ⊆ jobsOf slot := by
  unfold reports
  split
  · exact Finset.Subset.refl _
  · exact Finset.empty_subset _

/-- The jobs of two slots after their completions. -/
theorem jobsOf_sdiff_reports {slot' : Slot} {e' : Engine} {enabled' : Bool}
    (h : Disjoint (jobsOf slot) (jobsOf slot')) :
    (jobsOf slot ∪ jobsOf slot') \ (reports slot e ∪ reports slot' e') =
      jobsOf (freeSlot e.out.done (tickSlot enabled slot)) ∪
        jobsOf (freeSlot e'.out.done (tickSlot enabled' slot')) := by
  rw [jobsOf_freeSlot, jobsOf_freeSlot, reports, reports]
  cases e.out.done <;> cases e'.out.done <;>
    simp [Finset.union_sdiff_cancel_left h, Finset.union_sdiff_cancel_right h]

/-! ### The running batch -/

/-- The registers of a running batch of `n` jobs, and its engines, agree with the
scoreboard. -/
structure Accounts (en : Bool) (sb : Scoreboard) (n : ℕ) (s : State) (e0 e1 : Engine) : Prop where
  running : s.state = .run
  underWay : s.busy = true ∧ s.done = false
  accepted : s.acceptedJobCount = s.scheduledJobCount
  prefetch : Prefetch sb.handed n s
  counted : s.batchCompletedCount.toNat = sb.finished.card
  attends0 : Attends s.engine0 e0
  attends1 : Attends s.engine1 e1
  inFlight : sb.inFlight = jobsOf s.engine0 ∪ jobsOf s.engine1
  disjoint : Disjoint (jobsOf s.engine0) (jobsOf s.engine1)
  disabled : en = false → s.engine1.busySlot = false

namespace Accounts

variable {en : Bool} {sb : Scoreboard} {n : ℕ} {s m : State} {e0 e1 e0' e1' : Engine} {i : Inputs}

theorem reports_subset (h : Accounts en sb n s e0 e1) :
    reports s.engine0 e0 ∪ reports s.engine1 e1 ⊆ sb.inFlight := by
  rw [h.inFlight]
  exact Finset.union_subset_union SigvKv260Core.reports_subset SigvKv260Core.reports_subset

theorem card_reports (h : Accounts en sb n s e0 e1) :
    (reports s.engine0 e0 ∪ reports s.engine1 e1).card = e0.out.done.toNat + e1.out.done.toNat := by
  have hdisjoint := h.disjoint.mono (SigvKv260Core.reports_subset (e := e0))
    (SigvKv260Core.reports_subset (e := e1))
  rw [Finset.card_union_of_disjoint hdisjoint, h.attends0.card_reports, h.attends1.card_reports]

theorem card_lt (h : Accounts en sb n s e0 e1) : sb.handed < 256 := by
  have hle := h.prefetch.le
  have hsched := h.prefetch.scheduled
  have hlt := s.scheduledJobCount.isLt
  omega

theorem doneEvt0 (h : Accounts en sb n s e0 e1) : doneEvt true s.engine0 e0.out = e0.out.done :=
  h.attends0.doneEvt_eq (by simp)

theorem doneEvt1 (h : Accounts en sb n s e0 e1) : doneEvt en s.engine1 e1.out = e1.out.done :=
  h.attends1.doneEvt_eq h.disabled

/-- The completions of a cycle, in `jobs_completed`. -/
theorem retire_jobsCompleted (h : Accounts en sb n s e0 e1) (hi0 : i.engine0 = e0.out)
    (hi1 : i.engine1 = e1.out) : (SigvKv260Core.retire en i s).jobsCompleted =
      s.jobsCompleted + BitVec.ofNat 32 (reports s.engine0 e0 ∪ reports s.engine1 e1).card := by
  have hevt : ∀ c : Bool, (BitVec.ofBool c).setWidth 32 = BitVec.ofNat 32 c.toNat := by decide
  show s.jobsCompleted + (BitVec.ofBool (doneEvt true s.engine0 i.engine0)).setWidth 32 +
    (BitVec.ofBool (doneEvt en s.engine1 i.engine1)).setWidth 32 = _
  rw [hi0, hi1, h.doneEvt0, h.doneEvt1, hevt, hevt, h.card_reports, BitVec.ofNat_add,
    BitVec.add_assoc]

/-- The completions of a cycle, on the scoreboard and in the registers. -/
theorem retire (h : Accounts en sb n s e0 e1) (hi0 : i.engine0 = e0.out) (hi1 : i.engine1 = e1.out)
    (he0 : Attends (freeSlot e0.out.done (tickSlot true s.engine0)) e0')
    (he1 : Attends (freeSlot e1.out.done (tickSlot en s.engine1)) e1') :
    Accounts en (sb.finish (reports s.engine0 e0 ∪ reports s.engine1 e1)) n (retire en i s)
      e0' e1' := by
  have hengine0 : (SigvKv260Core.retire en i s).engine0 =
      freeSlot e0.out.done (tickSlot true s.engine0) := by
    rw [← h.doneEvt0, ← hi0]
    rfl
  have hengine1 : (SigvKv260Core.retire en i s).engine1 =
      freeSlot e1.out.done (tickSlot en s.engine1) := by
    rw [← h.doneEvt1, ← hi1]
    rfl
  refine ⟨h.running, h.underWay, h.accepted, h.prefetch.retire, ?_, ?_, ?_, ?_, ?_, ?_⟩
  · have hcard := Scoreboard.card_finished_finish h.reports_subset
    have htotal := (sb.finish (reports s.engine0 e0 ∪ reports s.engine1 e1)).card_finished
    have hlt := h.card_lt
    rw [h.card_reports] at hcard
    rw [Scoreboard.finish_handed] at htotal
    show (s.batchCompletedCount + (BitVec.ofBool (doneEvt true s.engine0 i.engine0)).setWidth 8 +
      (BitVec.ofBool (doneEvt en s.engine1 i.engine1)).setWidth 8).toNat = _
    have hevt : ∀ c : Bool, ((BitVec.ofBool c).setWidth 8).toNat = c.toNat := by decide
    rw [hi0, hi1, h.doneEvt0, h.doneEvt1, hcard, BitVec.toNat_add_of_lt,
      BitVec.toNat_add_of_lt, hevt, hevt, h.counted, Nat.add_assoc]
    · rw [hevt, h.counted]
      omega
    · rw [BitVec.toNat_add_of_lt, hevt, hevt, h.counted]
      · omega
      · rw [hevt, h.counted]
        omega
  · rw [hengine0]
    exact he0
  · rw [hengine1]
    exact he1
  · rw [hengine0, hengine1, Scoreboard.finish_inFlight, h.inFlight]
    exact jobsOf_sdiff_reports h.disjoint
  · rw [hengine0, hengine1, jobsOf_freeSlot, jobsOf_freeSlot]
    exact h.disjoint.mono (by split <;> simp) (by split <;> simp)
  · intro hdisabled
    rw [hengine1, freeSlot_busySlot, h.disabled hdisabled, Bool.false_and]

/-- The shadow goes to engine 0. -/
theorem hand0 (h : Accounts en sb n m e0 e1) (hs : Prefetch sb.handed n s)
    (hvalid : s.shadowValid = true) (hidle : m.loaderState = .idle)
    (hfree : m.engine0.busySlot = false) :
    Accounts en sb.hand n (afterDispatch s { m with engine0 := dispatchSlot s }) e0 e1 := by
  have hindex : s.shadowJobIndex.toNat = sb.handed := (hs.shadow (hs.lt_of_shadowValid hvalid)).1
  have hjobs : jobsOf (dispatchSlot s) = {sb.handed} := by
    rw [← hindex]
    rfl
  have hin : sb.inFlight = jobsOf m.engine1 := by
    rw [h.inFlight, jobsOf, hfree]
    exact Finset.empty_union _
  have hm : Prefetch sb.handed n { m with engine0 := dispatchSlot s } := by
    obtain ⟨h₁, h₂, h₃, h₄, h₅, h₆, h₇⟩ := h.prefetch
    exact ⟨h₁, h₂, h₃, h₄, h₅, h₆, h₇⟩
  refine ⟨?_, ?_, ?_, hs.hand hvalid hm hidle, ?_, ?_, ?_, ?_, ?_, ?_⟩
  · simpa using h.running
  · simpa using h.underWay
  · simpa using h.accepted
  · simpa using h.counted
  · simpa using h.attends0.hand hfree s
  · simpa using h.attends1
  · simp only [afterDispatch_engine0, afterDispatch_engine1, Scoreboard.hand_inFlight, hjobs, hin]
    exact Finset.insert_eq _ _
  · simp only [afterDispatch_engine0, afterDispatch_engine1, hjobs, ← hin]
    exact Finset.disjoint_singleton_left.mpr Scoreboard.handed_notMem
  · simpa using h.disabled

/-- The shadow goes to engine 1. -/
theorem hand1 (h : Accounts en sb n m e0 e1) (hs : Prefetch sb.handed n s)
    (hvalid : s.shadowValid = true) (hidle : m.loaderState = .idle) (hen : en = true)
    (hfree : m.engine1.busySlot = false) :
    Accounts en sb.hand n (afterDispatch s { m with engine1 := dispatchSlot s }) e0 e1 := by
  have hindex : s.shadowJobIndex.toNat = sb.handed := (hs.shadow (hs.lt_of_shadowValid hvalid)).1
  have hjobs : jobsOf (dispatchSlot s) = {sb.handed} := by
    rw [← hindex]
    rfl
  have hin : sb.inFlight = jobsOf m.engine0 := by
    rw [h.inFlight, jobsOf, jobsOf, hfree]
    exact Finset.union_empty _
  have hm : Prefetch sb.handed n { m with engine1 := dispatchSlot s } := by
    obtain ⟨h₁, h₂, h₃, h₄, h₅, h₆, h₇⟩ := h.prefetch
    exact ⟨h₁, h₂, h₃, h₄, h₅, h₆, h₇⟩
  refine ⟨?_, ?_, ?_, hs.hand hvalid hm hidle, ?_, ?_, ?_, ?_, ?_, ?_⟩
  · simpa using h.running
  · simpa using h.underWay
  · simpa using h.accepted
  · simpa using h.counted
  · simpa using h.attends0
  · simpa using h.attends1.hand hfree s
  · simp only [afterDispatch_engine0, afterDispatch_engine1, Scoreboard.hand_inFlight, hjobs, hin]
    rw [Finset.union_comm]
    exact Finset.insert_eq _ _
  · simp only [afterDispatch_engine0, afterDispatch_engine1, hjobs, ← hin]
    exact Finset.disjoint_singleton_right.mpr Scoreboard.handed_notMem
  · simp [hen]

end Accounts

end SigvKv260Core

namespace Bench

open SigvKv260Core

/-- An idle core: no slot is busy. -/
structure Parked (b : Bench) : Prop where
  idle : b.core.state = .idle
  free0 : b.core.engine0.busySlot = false
  free1 : b.core.engine1.busySlot = false
  attends0 : Attends b.core.engine0 b.live0
  attends1 : Attends b.core.engine1 b.live1

/-- A batch of `n` jobs is under way and the scoreboard shows how far it is. -/
structure Accounted (en : Bool) (sb : Scoreboard) (n : ℕ) (b : Bench) : Prop where
  accounts : Accounts en sb n b.core b.live0 b.live1
  unfinished : sb.finished.card < n
  aborted : b.core.verifierAbort = true → sb.handed = 0

/-- The jobs completed in this cycle. -/
def reported (b : Bench) : Finset ℕ :=
  reports b.core.engine0 b.live0 ∪ reports b.core.engine1 b.live1

variable {en : Bool} {sb : Scoreboard} {n : ℕ} {b : Bench} {i : Inputs}

namespace Accounted

/-- An abort meets no busy slot. -/
theorem free_of_abort (h : Accounted en sb n b) (habort : b.core.verifierAbort = true) :
    b.core.engine0.busySlot = false ∧ b.core.engine1.busySlot = false := by
  have hempty : jobsOf b.core.engine0 ∪ jobsOf b.core.engine1 = ∅ := by
    rw [← h.accounts.inFlight, Finset.eq_empty_iff_forall_notMem]
    intro j hj
    have hlt := sb.lt_handed j hj
    rw [h.aborted habort] at hlt
    exact absurd hlt (Nat.not_lt_zero j)
  rw [Finset.union_eq_empty, jobsOf, jobsOf] at hempty
  exact ⟨by simpa using hempty.1, by simpa using hempty.2⟩

/-- The loader, the engines and the completions of a cycle. -/
theorem retire (h : Accounted en sb n b) :
    Accounts en (sb.finish b.reported) n (retire en (coreInputs i b) b.core)
      (step en i b).engine0 (step en i b).engine1 :=
  h.accounts.retire rfl rfl (h.accounts.attends0.stepEngine fun ha => (h.free_of_abort ha).1)
    (h.accounts.attends1.stepEngine fun ha => (h.free_of_abort ha).2)

/-- The batch is over for the scoreboard when the counter says so. -/
theorem counted_iff (h : Accounted en sb n b) :
    (SigvKv260Core.retire en (coreInputs i b) b.core).batchCompletedCount =
        b.core.scheduledJobCount ↔ (sb.finish b.reported).finished.card = n := by
  rw [← h.retire.counted, ← h.accounts.prefetch.scheduled, BitVec.toNat_inj]

end Accounted

/-- What a cycle does to a batch under way, in the registers and on the
scoreboard. -/
inductive Advances (en : Bool) (sb : Scoreboard) (n : ℕ) (i : Inputs) (b : Bench) : Prop
  | timeout (lastJobCycles maxJobCycles : BitVec 32) (enabled : i.config.jobTimeoutCycles ≠ 0)
      (core : (step en i b).core =
        finalizeBatch true true errJobTimeout (retire en (coreInputs i b) b.core).jobsCompleted
          b.core
          { retire en (coreInputs i b) b.core with
            lastJobCycles := lastJobCycles
            maxJobCycles := maxJobCycles
            verifierAbort := true })
      (parked : Parked (step en i b))
  | complete (all : (sb.finish b.reported).finished.card = n)
      (core : (step en i b).core =
        finalizeBatch false true errNone (retire en (coreInputs i b) b.core).jobsCompleted b.core
          (retire en (coreInputs i b) b.core))
      (parked : Parked (step en i b))
  | hand0 (shadow : b.core.shadowValid = true)
      (core : (step en i b).core = afterDispatch b.core
        { retire en (coreInputs i b) b.core with engine0 := dispatchSlot b.core })
      (next : Accounted en (sb.finish b.reported).hand n (step en i b))
  | hand1 (shadow : b.core.shadowValid = true)
      (core : (step en i b).core = afterDispatch b.core
        { retire en (coreInputs i b) b.core with engine1 := dispatchSlot b.core })
      (next : Accounted en (sb.finish b.reported).hand n (step en i b))
  | wait (taken : b.core.shadowValid = true →
        (retire en (coreInputs i b) b.core).engine0.busySlot = true)
      (core : (step en i b).core = retire en (coreInputs i b) b.core)
      (next : Accounted en (sb.finish b.reported) n (step en i b))

theorem visible_of_abort {abort : Bool} {e : Engine} (h : abort = false) : e.visible abort = e := by
  rw [h]
  rfl

namespace Accounted

theorem free_of_complete (h : Accounted en sb n b)
    (hall : (sb.finish b.reported).finished.card = n) :
    (SigvKv260Core.retire en (coreInputs i b) b.core).engine0.busySlot = false ∧
      (SigvKv260Core.retire en (coreInputs i b) b.core).engine1.busySlot = false := by
  have hnext := h.retire (i := i)
  have hempty := (Scoreboard.finished_eq_range hnext.prefetch.le hall).2.1
  rw [hnext.inFlight, Finset.union_eq_empty, jobsOf, jobsOf] at hempty
  exact ⟨by simpa using hempty.1, by simpa using hempty.2⟩

/-- One cycle of a batch under way. -/
theorem step (h : Accounted en sb n b) (hreset : i.softReset = false) :
    Advances en sb n i b := by
  have hnext := h.retire (i := i)
  have hprefetch := h.accounts.prefetch
  have hunfinished : (SigvKv260Core.retire en (coreInputs i b) b.core).batchCompletedCount ≠
      b.core.scheduledJobCount → (sb.finish b.reported).finished.card < n := by
    intro hmore
    rw [Ne, h.counted_iff] at hmore
    have hcard := (sb.finish b.reported).card_finished
    have hle := hnext.prefetch.le
    omega
  have hstep := step_run en (coreInputs i b) b.core h.accounts.running hreset
  have hcore : (Bench.step en i b).core = SigvKv260Core.step en (coreInputs i b) b.core := rfl
  -- a cycle without timeout leaves the abort low, so the engines show
  have hlive : (Bench.step en i b).core.verifierAbort = false →
      (Bench.step en i b).live0 = (Bench.step en i b).engine0 ∧
        (Bench.step en i b).live1 = (Bench.step en i b).engine1 := by
    intro habort
    exact ⟨visible_of_abort habort, visible_of_abort habort⟩
  generalize hs : SigvKv260Core.step en (coreInputs i b) b.core = s' at hstep hcore
  cases hstep with
  | timeout last max henabled =>
      refine .timeout last max henabled hcore ?_
      have habort : (Bench.step en i b).core.verifierAbort = true := by
        rw [hcore]
        rfl
      have hquiet : (Bench.step en i b).live0 = Engine.idle ∧
          (Bench.step en i b).live1 = Engine.idle := by
        rw [live0, live1, habort]
        exact ⟨rfl, rfl⟩
      refine ⟨by rw [hcore]; rfl, by rw [hcore]; rfl, by rw [hcore]; rfl, ?_, ?_⟩
      · rw [hquiet.1, hcore]
        exact attends_idle rfl (freeSlot_startPulse _ _ _)
      · rw [hquiet.2, hcore]
        exact attends_idle rfl (freeSlot_startPulse _ _ _)
  | complete hall =>
      have hall := h.counted_iff.mp hall
      refine .complete hall hcore ?_
      obtain ⟨hlive0, hlive1⟩ := hlive (by rw [hcore]; rfl)
      obtain ⟨hfree0, hfree1⟩ := h.free_of_complete (i := i) hall
      refine ⟨by rw [hcore]; rfl, by rw [hcore]; rfl, by rw [hcore]; rfl, ?_, ?_⟩
      · rw [hlive0, hcore]
        exact hnext.attends0.of_free hfree0
      · rw [hlive1, hcore]
        exact hnext.attends1.of_free hfree1
  | hand0 hmore hvalid hfree =>
      have habort : (Bench.step en i b).core.verifierAbort = false := by
        rw [hcore, afterDispatch_verifierAbort]
        rfl
      refine .hand0 hvalid hcore ⟨?_, ?_, ?_⟩
      · rw [(hlive habort).1, (hlive habort).2, hcore]
        exact hnext.hand0 hprefetch hvalid (hprefetch.retire_idle hvalid) hfree
      · rw [Scoreboard.finished_hand]
        exact hunfinished hmore
      · intro ha
        rw [habort] at ha
        contradiction
  | hand1 hmore hen hvalid hfree =>
      have habort : (Bench.step en i b).core.verifierAbort = false := by
        rw [hcore, afterDispatch_verifierAbort]
        rfl
      refine .hand1 hvalid hcore ⟨?_, ?_, ?_⟩
      · rw [(hlive habort).1, (hlive habort).2, hcore]
        exact hnext.hand1 hprefetch hvalid (hprefetch.retire_idle hvalid) hen hfree
      · rw [Scoreboard.finished_hand]
        exact hunfinished hmore
      · intro ha
        rw [habort] at ha
        contradiction
  | wait hmore hwait =>
      have habort : (Bench.step en i b).core.verifierAbort = false := by
        rw [hcore]
        rfl
      refine .wait hwait hcore ⟨?_, hunfinished hmore, ?_⟩
      · rw [(hlive habort).1, (hlive habort).2, hcore]
        exact hnext
      · intro ha
        rw [habort] at ha
        contradiction

end Accounted

/-! ### Launches -/

section launch

variable {c : Config} {clearCounters : Bool} {s m : State}

theorem dispatchJobCount_pos (h : c.Launchable) : 0 < (dispatchJobCount c).toNat := by
  have hle : c.requestedJobCount.toNat ≤ 255 := h.2.2
  have hrequested : (requestedJobCountU8 c).toNat = c.requestedJobCount.toNat := by
    rw [requestedJobCountU8, BitVec.toNat_setWidth, Nat.mod_eq_of_lt (by omega)]
  have hpos : 0 < c.requestedJobCount.toNat := by
    rw [Nat.pos_iff_ne_zero]
    intro hzero
    exact h.2.1 (BitVec.eq_of_toNat_eq hzero)
  have hlimit : 0 < (dispatchLimitEffective c).toNat := by
    unfold dispatchLimitEffective
    split
    · decide
    · next hne =>
        rw [Nat.pos_iff_ne_zero]
        intro hzero
        exact hne (BitVec.eq_of_toNat_eq hzero)
  unfold dispatchJobCount
  split
  · exact hlimit
  · omega

/-- No job count of 8 bits exceeds the job memory. -/
theorem dispatchJobSpan_le (c : Config) : ¬ dispatchJobSpan c > jobRamDepth := by
  have hlt := (dispatchJobCount c).isLt
  have hspan : (dispatchJobSpan c).toNat = (dispatchJobCount c).toNat * 96 := by
    show ((dispatchJobCount c).setWidth 23 * (96 : BitVec 23)).toNat = _
    rw [BitVec.toNat_mul, BitVec.toNat_setWidth, show (96 : BitVec 23).toNat = 96 from rfl,
      Nat.mod_eq_of_lt (show (dispatchJobCount c).toNat < 2 ^ 23 by omega),
      Nat.mod_eq_of_lt (by omega)]
  show ¬ (32768 < (dispatchJobSpan c).toNat)
  omega

/-- What an accepted launch writes. -/
theorem launchBatch_of_launchable (h : c.Launchable) :
    launchBatch clearCounters c s m =
      kickLoader 0
        { clearLiveState clearCounters { m with batchId := s.batchId + 1 } with
          busy := true
          acceptedJobCount := dispatchJobCount c
          currentJobIndex := 0
          scheduledJobCount := dispatchJobCount c
          nextLoadJobIndex := 1
          nextLoadWordBase := jobWordStride
          jobsDropped :=
            if clearCounters then (dispatchDroppedCount c).setWidth 32
            else s.jobsDropped + (dispatchDroppedCount c).setWidth 32
          shadowJobIndex := 0
          state := .run } := by
  have hcount : ¬ (c.requestedJobCount = 0 ∨ c.requestedJobCount > maxJobCount) := by
    intro hbad
    exact hbad.elim h.2.1 (Nat.not_lt_of_le h.2.2)
  have hlength : ¬ c.messageLength > maxMessageBytes := Nat.not_lt_of_le h.1
  unfold launchBatch
  dsimp only
  rw [if_neg hlength, if_neg hcount, if_neg (dispatchJobSpan_le c)]

/-- A refused launch leaves an idle core with empty slots. -/
theorem launchBatch_of_not_launchable (clearCounters : Bool) (s m : State) (h : ¬ c.Launchable) :
    (launchBatch clearCounters c s m).state = .idle ∧
      (launchBatch clearCounters c s m).engine0 = emptySlot ∧
      (launchBatch clearCounters c s m).engine1 = emptySlot := by
  unfold launchBatch
  dsimp only
  split
  · exact ⟨rfl, rfl, rfl⟩
  · next hlength =>
      split
      · exact ⟨rfl, rfl, rfl⟩
      · next hcount =>
          rw [not_or] at hcount
          exact absurd ⟨Nat.le_of_not_lt hlength, hcount.1, Nat.le_of_not_lt hcount.2⟩ h

end launch

/-- The loader does not touch the slots or the abort. -/
theorem stepLoader_tick (en : Bool) (i : SigvKv260Core.Inputs) (s : State) :
    (stepLoader i s (tick en s)).verifierAbort = false ∧
      (stepLoader i s (tick en s)).state = s.state ∧
      (stepLoader i s (tick en s)).engine0 = tickSlot true s.engine0 ∧
      (stepLoader i s (tick en s)).engine1 = tickSlot en s.engine1 := by
  rw [stepLoader_eq i s (n := tick en s) rfl rfl rfl rfl]
  exact ⟨rfl, rfl, rfl, rfl⟩

/-- A cycle that starts a batch, accepted or not. -/
theorem core_start (en : Bool) (hstart : i.start = true)
    (hwhen : i.softReset = true ∨ b.core.state = .idle) :
    ∃ m : State, m.verifierAbort = i.softReset ∧
      (step en i b).core = launchBatch i.softReset i.config b.core m := by
  cases hreset : i.softReset with
  | true =>
      refine ⟨{ b.core with
        verifierAbort := true
        engine0 := { b.core.engine0 with startPulse := false }
        engine1 := { b.core.engine1 with startPulse := false } }, rfl, ?_⟩
      show SigvKv260Core.step en (coreInputs i b) b.core = _
      simp [SigvKv260Core.step, coreInputs, hreset, hstart]
  | false =>
      have hidle : b.core.state = .idle := by simpa [hreset] using hwhen
      refine ⟨stepLoader (coreInputs i b) b.core (tick en b.core), (stepLoader_tick _ _ _).1, ?_⟩
      show SigvKv260Core.step en (coreInputs i b) b.core = _
      rw [step_idle en _ _ hidle hreset]
      exact if_pos hstart

/-- The engines of a free pair of slots stay quiet. -/
theorem Parked.quiet (en : Bool) (i : Inputs) (h : Parked b) :
    (step en i b).engine0.Quiet ∧ (step en i b).engine1.Quiet := by
  have h0 : Attends (freeSlot b.live0.out.done (tickSlot true b.core.engine0))
      (step en i b).engine0 := h.attends0.stepEngine fun _ => h.free0
  have h1 : Attends (freeSlot b.live1.out.done (tickSlot en b.core.engine1))
      (step en i b).engine1 := h.attends1.stepEngine fun _ => h.free1
  refine ⟨(h0.of_free ?_).2, (h1.of_free ?_).2⟩
  · rw [freeSlot_busySlot, h.free0, Bool.false_and]
  · rw [freeSlot_busySlot, h.free1, Bool.false_and]

theorem visible_quiet {abort : Bool} {e : Engine} (h : abort = true ∨ e.Quiet) :
    (e.visible abort).Quiet := by
  cases abort with
  | false => exact h.resolve_left Bool.false_ne_true
  | true => exact ⟨rfl, rfl⟩

/-- The engines after a cycle that starts a batch. -/
theorem start_quiet (en : Bool) (hstart : i.start = true) (hwhen : i.softReset = true ∨ Parked b) :
    (step en i b).live0.Quiet ∧ (step en i b).live1.Quiet := by
  have habort : (step en i b).core.verifierAbort = i.softReset := by
    obtain ⟨m, hm, hcore⟩ := core_start en hstart (hwhen.imp_right Parked.idle)
    rw [hcore, ← hm]
    unfold launchBatch
    dsimp only
    split_ifs <;> rfl
  rcases hwhen with hreset | hparked
  · rw [hreset] at habort
    exact ⟨visible_quiet (Or.inl habort), visible_quiet (Or.inl habort)⟩
  · exact ⟨visible_quiet (Or.inr (hparked.quiet en i).1), visible_quiet (Or.inr (hparked.quiet en i).2)⟩

/-- A batch that is launched starts with nothing handed out. -/
theorem Launches.accounted (h : Launches i b) (hwhen : i.softReset = true ∨ Parked b) :
    Accounted en Scoreboard.empty (dispatchJobCount i.config).toNat (step en i b) := by
  obtain ⟨hquiet0, hquiet1⟩ := start_quiet en h.1 hwhen
  obtain ⟨m, -, hcore⟩ := core_start en h.1 h.2.1
  rw [launchBatch_of_launchable h.2.2] at hcore
  have hpos := dispatchJobCount_pos h.2.2
  refine ⟨⟨by rw [hcore]; rfl, by rw [hcore]; exact ⟨rfl, rfl⟩, by rw [hcore]; rfl, ?_,
    by rw [hcore]; rfl, ?_, ?_, ?_, ?_, ?_⟩, hpos, fun _ => rfl⟩
  · refine ⟨by rw [hcore]; rfl, Nat.zero_le _, ?_, by rw [hcore]; rfl, ?_, ?_, ?_⟩
    · rw [hcore]
      exact (Nat.min_eq_left hpos).symm
    · rw [hcore]
      exact Nat.zero_lt_succ _
    · intro _
      rw [hcore]
      exact ⟨rfl, by simp [kickLoader, clearLiveState], fun _ => rfl⟩
    · intro hzero
      exact absurd hzero hpos.ne
  · rw [hcore]
    exact ⟨rfl, hquiet0⟩
  · rw [hcore]
    exact ⟨rfl, hquiet1⟩
  · rw [hcore]
    rfl
  · rw [hcore]
    exact Finset.disjoint_empty_left _
  · rw [hcore]
    intro _
    rfl

/-- A refused launch parks the core. -/
theorem parked_of_refused (hstart : i.start = true) (hwhen : i.softReset = true ∨ Parked b)
    (hrefused : ¬ i.config.Launchable) : Parked (step en i b) := by
  obtain ⟨hquiet0, hquiet1⟩ := start_quiet en hstart hwhen
  obtain ⟨m, -, hcore⟩ := core_start en hstart (hwhen.imp_right Parked.idle)
  obtain ⟨hidle, hslot0, hslot1⟩ := launchBatch_of_not_launchable i.softReset b.core m hrefused
  rw [← hcore] at hidle hslot0 hslot1
  refine ⟨hidle, by rw [hslot0]; rfl, by rw [hslot1]; rfl, ?_, ?_⟩
  · rw [hslot0]
    exact ⟨rfl, hquiet0⟩
  · rw [hslot1]
    exact ⟨rfl, hquiet1⟩

/-- A soft reset without start parks the core. -/
theorem parked_of_reset (hreset : i.softReset = true) (hstart : i.start = false) :
    Parked (step en i b) := by
  have hcore : (step en i b).core = clearLiveState true
      { b.core with
        verifierAbort := true
        engine0 := { b.core.engine0 with startPulse := false }
        engine1 := { b.core.engine1 with startPulse := false } } := by
    show SigvKv260Core.step en (coreInputs i b) b.core = _
    simp [SigvKv260Core.step, coreInputs, hreset, hstart]
  have habort : (step en i b).core.verifierAbort = true := by
    rw [hcore]
    rfl
  refine ⟨by rw [hcore]; rfl, by rw [hcore]; rfl, by rw [hcore]; rfl, ?_, ?_⟩
  · rw [hcore]
    exact ⟨rfl, visible_quiet (Or.inl habort)⟩
  · rw [hcore]
    exact ⟨rfl, visible_quiet (Or.inl habort)⟩

/-- Without start the core stays parked. -/
theorem Parked.stay (h : Parked b) (hreset : i.softReset = false) (hstart : i.start = false) :
    Parked (step en i b) := by
  have hcore : (step en i b).core = stepLoader (coreInputs i b) b.core (tick en b.core) := by
    show SigvKv260Core.step en (coreInputs i b) b.core = _
    rw [step_idle en _ _ h.idle hreset]
    exact if_neg (by simp [coreInputs, hstart])
  obtain ⟨-, hstate, hslot0, hslot1⟩ := stepLoader_tick en (coreInputs i b) b.core
  obtain ⟨hquiet0, hquiet1⟩ := h.quiet en i
  refine ⟨by rw [hcore, hstate]; exact h.idle, by rw [hcore, hslot0]; exact h.free0,
    by rw [hcore, hslot1]; exact h.free1, ?_, ?_⟩
  · rw [hcore, hslot0, Attends, show (tickSlot true b.core.engine0).busySlot = false from h.free0]
    exact ⟨rfl, visible_quiet (Or.inr hquiet0)⟩
  · rw [hcore, hslot1, Attends, show (tickSlot en b.core.engine1).busySlot = false from h.free1]
    exact ⟨rfl, visible_quiet (Or.inr hquiet1)⟩

/-! ### Every reachable state -/

/-- The core is idle, or a batch is under way. -/
def Settled (en : Bool) (b : Bench) : Prop := Parked b ∨ ∃ sb n, Accounted en sb n b

theorem Settled.parked (h : Settled en b) (hidle : b.core.state = .idle) : Parked b := by
  rcases h with hparked | ⟨sb, n, haccounted⟩
  · exact hparked
  · rw [haccounted.accounts.running] at hidle
    contradiction

theorem Settled.step (i : Inputs) (h : Settled en b) : Settled en (step en i b) := by
  have hstarted : i.start = true → i.softReset = true ∨ Parked b → Settled en (Bench.step en i b) := by
    intro hstart hwhen
    by_cases hlaunch : i.config.Launchable
    · exact Or.inr ⟨_, _, Launches.accounted ⟨hstart, hwhen.imp_right Parked.idle, hlaunch⟩ hwhen⟩
    · exact Or.inl (parked_of_refused hstart hwhen hlaunch)
  cases hreset : i.softReset with
  | true =>
      cases hstart : i.start with
      | true => exact hstarted hstart (Or.inl hreset)
      | false => exact Or.inl (parked_of_reset hreset hstart)
  | false =>
      rcases h with hparked | ⟨sb, n, haccounted⟩
      · cases hstart : i.start with
        | true => exact hstarted hstart (Or.inr hparked)
        | false => exact Or.inl (hparked.stay hreset hstart)
      · cases haccounted.step hreset with
        | timeout _ _ _ _ parked => exact Or.inl parked
        | complete _ _ parked => exact Or.inl parked
        | hand0 _ _ next => exact Or.inr ⟨_, _, next⟩
        | hand1 _ _ next => exact Or.inr ⟨_, _, next⟩
        | wait _ _ next => exact Or.inr ⟨_, _, next⟩

theorem Reachable.settled (h : Reachable en b) : Settled en b := by
  obtain ⟨dout, inputs, n, rfl⟩ := h
  refine Clocked.run_invariant (fun i s => Settled.step i) ?_ n
  exact Or.inl ⟨rfl, rfl, rfl, ⟨rfl, rfl, rfl⟩, ⟨rfl, rfl, rfl⟩⟩

end Bench

end Kv260Sigv
