import Kv260Sigv.System.Delays

/-!
# The watchdog

A batch with `job_timeout_cycles` above zero, over engines that may take any time.
A run is dispatched in the cycle whose edge fills the slot; it is on time if its
`done` is seen within `job_timeout_cycles` cycles of that.  A batch whose runs are
all on time passes through the very states it passes through with the watchdog off.
Any other batch ends with `ERR_JOB_TIMEOUT` in the cycle after a slot has expired,
and what completed up to and including that cycle counts.

The age of a slot is the number its `cycles` register shows (`Running`), so a slot
expires exactly when its run is late.
-/

set_option autoImplicit false

namespace Kv260Sigv

open SigvKv260Core

namespace SigvKv260Core

/-- The slot of an engine. -/
def State.slot (s : State) : Fin 2 → Slot
  | 0 => s.engine0
  | 1 => s.engine1

/-- The same inputs with `job_timeout_cycles` at zero. -/
def Inputs.untimed (i : Inputs) : Inputs :=
  { i with config := { i.config with jobTimeoutCycles := 0 } }

/-- The watchdog of a slot expires in this cycle. -/
def expires (engine1Enabled : Bool) (i : Inputs) (s : State) : Bool :=
  timedOut true i.config s.engine0 i.engine0 || timedOut engine1Enabled i.config s.engine1 i.engine1

section expires

variable {en : Bool} {i : Inputs} {s : State}

/-- In any other cycle the watchdog might as well be off. -/
theorem step_untimed (hrun : s.state = .run) (hreset : i.softReset = false)
    (h : expires en i s = false) : step en i s = step en i.untimed s := by
  have hoff : expires en i.untimed s = false := by
    simp [expires, timedOut, Inputs.untimed]
  rw [step_eq en i s hreset, step_eq en i.untimed s hreset, hrun]
  show stepRun en i s (stepLoader i s (tick en s)) = stepRun en i.untimed s (stepLoader i s (tick en s))
  unfold stepRun
  dsimp only
  rw [expires] at h hoff
  rw [h, hoff]
  rfl

/-- What a cycle of `ST_RUN` that does not end the batch makes of a slot: it is kept,
or filled from the shadow. -/
inductive Serves (done : Bool) (s : State) (slot : Slot) : Slot → Prop
  | kept (enabled : Bool) (h : slot.busySlot = true → enabled = true) :
      Serves done s slot (freeSlot done (tickSlot enabled slot))
  | filled (h : (slot.busySlot && !done) = false) : Serves done s slot (dispatchSlot s)

/-- The slots after a cycle that does not end the batch. -/
theorem serves_step (hrun : s.state = .run) (hreset : i.softReset = false)
    (hdisabled : en = false → s.engine1.busySlot = false) (hnext : (step en i s).state = .run) :
    Serves (doneEvt true s.engine0 i.engine0) s s.engine0 (step en i s).engine0 ∧
      Serves (doneEvt en s.engine1 i.engine1) s s.engine1 (step en i s).engine1 := by
  have hkept0 : Serves (doneEvt true s.engine0 i.engine0) s s.engine0 (retire en i s).engine0 :=
    .kept true fun _ => rfl
  have hkept1 : Serves (doneEvt en s.engine1 i.engine1) s s.engine1 (retire en i s).engine1 := by
    refine .kept en ?_
    intro hbusy
    rw [← Bool.not_eq_false]
    intro hoff
    rw [hdisabled hoff] at hbusy
    contradiction
  have hstep := step_run en i s hrun hreset
  generalize step en i s = s' at hstep hnext
  cases hstep with
  | timeout _ _ _ => contradiction
  | complete _ => contradiction
  | hand0 _ _ hfree =>
      rw [afterDispatch_engine0, afterDispatch_engine1]
      refine ⟨.filled ?_, hkept1⟩
      rw [← hfree]
      exact (freeSlot_busySlot _ _ _).symm
  | hand1 _ _ _ hfree =>
      rw [afterDispatch_engine0, afterDispatch_engine1]
      refine ⟨hkept0, .filled ?_⟩
      rw [← hfree]
      exact (freeSlot_busySlot _ _ _).symm
  | wait _ _ => exact ⟨hkept0, hkept1⟩

/-- A slot that does not expire and does not report is young. -/
theorem not_le_of_not_timedOut {enabled : Bool} {c : Config} {slot : Slot} {out : EngineOut}
    (h : timedOut enabled c slot out = false) (hen : slot.busySlot = true → enabled = true)
    (hpos : c.jobTimeoutCycles ≠ 0) (hbusy : slot.busySlot = true)
    (hdone : doneEvt enabled slot out = false) : ¬ c.jobTimeoutCycles ≤ slot.cycles + 1 := by
  intro hle
  have hlate : timedOut enabled c slot out = true := by
    simp only [timedOut, Bool.and_eq_true, bne_iff_ne, Bool.not_eq_true', decide_eq_true_eq]
    exact ⟨⟨⟨⟨hen hbusy, hpos⟩, hbusy⟩, hdone⟩, hle⟩
  rw [hlate] at h
  contradiction

end expires

end SigvKv260Core

namespace Watch

/-- The worker of an engine. -/
def live (w : Watch) : Fin 2 → Worker
  | 0 => w.live0
  | 1 => w.live1

/-- The same cycle with `job_timeout_cycles` at zero. -/
def Inputs.untimed (i : Inputs) : Inputs :=
  { i with config := { i.config with jobTimeoutCycles := 0 } }

section trace

variable (trace : ℕ → Watch)

/-- The edge that ends cycle `c` hands job `j` to engine `e`. -/
def Dispatched (e : Fin 2) (j c : ℕ) : Prop :=
  ((trace (c + 1)).core.slot e).startPulse = true ∧
    ((trace (c + 1)).core.slot e).jobIndex.toNat = j

/-- In cycle `c` engine `e` reports job `j`. -/
def Observed (e : Fin 2) (j c : ℕ) : Prop :=
  ((trace c).live e).out.done = true ∧ ((trace c).core.slot e).busySlot = true ∧
    ((trace c).core.slot e).jobIndex.toNat = j

instance (e : Fin 2) (j c : ℕ) : Decidable (Observed trace e j c) :=
  inferInstanceAs (Decidable (_ ∧ _ ∧ _))

/-- Every run dispatched before cycle `n` is reported before then, and within
`timeout` cycles of its dispatch. -/
def OnTime (timeout : BitVec 32) (n : ℕ) : Prop :=
  ∀ e j c, c < n → Dispatched trace e j c →
    ∃ k, 0 < k ∧ k ≤ timeout.toNat ∧ c + k < n ∧ Observed trace e j (c + k)

/-- Job `j` completes in one of the cycles `1 .. n - 1`. -/
def Completed (n j : ℕ) : Prop := ∃ e c, 0 < c ∧ c < n ∧ Observed trace e j c

/-- Job `j` completes in one of these cycles, with a true verdict. -/
def Passed (n j : ℕ) : Prop :=
  ∃ e c, 0 < c ∧ c < n ∧ Observed trace e j c ∧ ((trace c).live e).out.verified = true

end trace

/-! ### The age of a slot -/

section slot

variable {trace : ℕ → Watch} {timeout : BitVec 32} {e : Fin 2} {j c k : ℕ}

/-- The run of job `j` dispatched in cycle `c` is under way in cycle `k`, and not
late. -/
structure Running (trace : ℕ → Watch) (timeout : BitVec 32) (e : Fin 2) (j c k : ℕ) : Prop where
  busy : ((trace k).core.slot e).busySlot = true
  job : ((trace k).core.slot e).jobIndex.toNat = j
  age : c + 1 + ((trace k).core.slot e).cycles.toNat = k
  young : ((trace k).core.slot e).cycles.toNat < timeout.toNat
  silent : ∀ m, c < m → m < k → ((trace m).live e).out.done = false

/-- Every run dispatched to the engine so far is under way or was on time. -/
structure Served (trace : ℕ → Watch) (timeout : BitVec 32) (e : Fin 2) (k : ℕ) : Prop where
  handled : ∀ j c, c < k → Dispatched trace e j c →
    (∃ d, 0 < d ∧ d ≤ timeout.toNat ∧ c + d < k ∧ Observed trace e j (c + d)) ∨
      Running trace timeout e j c k
  manned : ((trace k).core.slot e).busySlot = true →
    ∃ j c, c < k ∧ Dispatched trace e j c ∧ Running trace timeout e j c k

/-- A run that is reported in this cycle was on time. -/
theorem Running.answered (h : Running trace timeout e j c k)
    (hdone : ((trace k).live e).out.done = true) :
    ∃ d, 0 < d ∧ d ≤ timeout.toNat ∧ c + d < k + 1 ∧ Observed trace e j (c + d) := by
  have hage := h.age
  have hyoung := h.young
  refine ⟨((trace k).core.slot e).cycles.toNat + 1, Nat.succ_pos _, hyoung, by omega, ?_⟩
  rw [show c + (((trace k).core.slot e).cycles.toNat + 1) = k by omega]
  exact ⟨hdone, h.busy, h.job⟩

/-- A run that is not reported gets older, unless it expires. -/
theorem Running.tick (h : Running trace timeout e j c k)
    (hdone : ((trace k).live e).out.done = false)
    (hlimit : ¬ timeout ≤ ((trace k).core.slot e).cycles + 1)
    (hnext : (trace (k + 1)).core.slot e = tickSlot true ((trace k).core.slot e)) :
    Running trace timeout e j c (k + 1) := by
  have hyoung := h.young
  have hone : (1 : BitVec 32).toNat = 1 := rfl
  have hbound := timeout.isLt
  have hcycles : ((trace (k + 1)).core.slot e).cycles.toNat =
      ((trace k).core.slot e).cycles.toNat + 1 := by
    rw [hnext, tickSlot, h.busy]
    show (((trace k).core.slot e).cycles + 1).toNat = _
    rw [BitVec.toNat_add_of_lt (by omega), hone]
  refine ⟨by rw [hnext]; exact h.busy, by rw [hnext]; exact h.job, ?_, ?_, ?_⟩
  · have hage := h.age
    omega
  · have hlt : (((trace k).core.slot e).cycles + 1).toNat < timeout.toNat := Nat.lt_of_not_le hlimit
    rw [BitVec.toNat_add_of_lt (by omega), hone] at hlt
    omega
  · intro m hlow hhigh
    rcases Nat.lt_succ_iff_lt_or_eq.mp hhigh with hm | rfl
    · exact h.silent m hlow hm
    · exact hdone

/-- One cycle of a slot that does not expire. -/
theorem Served.step (h : Served trace timeout e k) (hpos : 0 < timeout.toNat)
    (hlimit : ((trace k).core.slot e).busySlot = true → ((trace k).live e).out.done = false →
      ¬ timeout ≤ ((trace k).core.slot e).cycles + 1)
    (hserves : Serves ((trace k).live e).out.done (trace k).core ((trace k).core.slot e)
      ((trace (k + 1)).core.slot e)) : Served trace timeout e (k + 1) := by
  generalize hnext : (trace (k + 1)).core.slot e = next at hserves
  have hrunning : ∀ j c, Running trace timeout e j c k →
      (∃ d, 0 < d ∧ d ≤ timeout.toNat ∧ c + d < k + 1 ∧ Observed trace e j (c + d)) ∨
        Running trace timeout e j c (k + 1) := by
    intro j c hr
    cases hdone : ((trace k).live e).out.done with
    | true => exact Or.inl (hr.answered hdone)
    | false =>
        rw [hdone] at hserves
        cases hserves with
        | kept enabled hen =>
            rw [hen hr.busy] at hnext
            exact Or.inr (hr.tick hdone (hlimit hr.busy hdone) hnext)
        | filled hfree =>
            rw [hr.busy] at hfree
            contradiction
  have hfilled : next = dispatchSlot (trace k).core → ∀ j, next.jobIndex.toNat = j →
      Running trace timeout e j k (k + 1) := by
    intro heq j hj
    rw [heq] at hnext
    rw [heq] at hj
    refine ⟨by rw [hnext]; rfl, by rw [hnext]; exact hj, by rw [hnext]; rfl, by rw [hnext]; exact hpos, ?_⟩
    intro m hlow hhigh
    omega
  refine ⟨?_, ?_⟩
  · intro j c hc hdispatched
    rcases Nat.lt_succ_iff_lt_or_eq.mp hc with hbefore | rfl
    · rcases h.handled j c hbefore hdispatched with ⟨d, hd, hle, hlt, hobserved⟩ | hr
      · exact Or.inl ⟨d, hd, hle, by omega, hobserved⟩
      · exact hrunning j c hr
    · obtain ⟨hstart, hjob⟩ := hdispatched
      rw [hnext] at hstart hjob
      cases hserves with
      | kept enabled hen =>
          rw [freeSlot_startPulse] at hstart
          contradiction
      | filled hfree => exact Or.inr (hfilled rfl j hjob)
  · intro hbusy
    rw [hnext] at hbusy
    cases hserves with
    | kept enabled hen =>
        rw [freeSlot_busySlot, Bool.and_eq_true, Bool.not_eq_true'] at hbusy
        obtain ⟨j, c, hc, hdispatched, hr⟩ := h.manned hbusy.1
        rw [hbusy.2, hen hbusy.1] at hnext
        exact ⟨j, c, by omega, hdispatched, hr.tick hbusy.2 (hlimit hbusy.1 hbusy.2) hnext⟩
    | filled hfree =>
        refine ⟨_, k, Nat.lt_succ_self k, ⟨?_, rfl⟩, hfilled rfl _ (by rw [hnext])⟩
        rw [hnext]
        rfl

end slot

/-! ### The batch -/

section batch

variable {en : Bool} {trace : ℕ → Watch} {timeout : BitVec 32} {n k : ℕ} {sb : Scoreboard}
  {i : Inputs}

/-- What a batch of `n` jobs, launched in cycle 0, has done by cycle `k`. -/
structure Tracks (en : Bool) (trace : ℕ → Watch) (timeout : BitVec 32) (n k : ℕ)
    (sb : Scoreboard) : Prop where
  accounted : Bench.Accounted en sb n (trace k).shown
  finished : ∀ j, j ∈ sb.finished ↔ Completed trace k j
  counted : (trace k).core.jobsCompleted =
    (trace 1).core.jobsCompleted + BitVec.ofNat 32 sb.finished.card
  passed : ∀ j, (trace k).core.resultMask.getLsbD j = true ↔ Passed trace k j
  served : ∀ e, Served trace timeout e k

/-- Jobs that complete in the next cycle. -/
theorem completed_succ (hk : 0 < k) (j : ℕ) :
    Completed trace (k + 1) j ↔ Completed trace k j ∨ ∃ e, Observed trace e j k := by
  constructor
  · rintro ⟨e, c, hc, hlt, hobserved⟩
    rcases Nat.lt_succ_iff_lt_or_eq.mp hlt with hlt | rfl
    · exact Or.inl ⟨e, c, hc, hlt, hobserved⟩
    · exact Or.inr ⟨e, hobserved⟩
  · rintro (⟨e, c, hc, hlt, hobserved⟩ | ⟨e, hobserved⟩)
    · exact ⟨e, c, hc, by omega, hobserved⟩
    · exact ⟨e, k, hk, Nat.lt_succ_self k, hobserved⟩

@[inherit_doc completed_succ]
theorem passed_succ (hk : 0 < k) (j : ℕ) :
    Passed trace (k + 1) j ↔ Passed trace k j ∨
      ∃ e, Observed trace e j k ∧ ((trace k).live e).out.verified = true := by
  constructor
  · rintro ⟨e, c, hc, hlt, hobserved⟩
    rcases Nat.lt_succ_iff_lt_or_eq.mp hlt with hlt | rfl
    · exact Or.inl ⟨e, c, hc, hlt, hobserved⟩
    · exact Or.inr ⟨e, hobserved⟩
  · rintro (⟨e, c, hc, hlt, hobserved⟩ | ⟨e, hobserved⟩)
    · exact ⟨e, c, hc, by omega, hobserved⟩
    · exact ⟨e, k, hk, Nat.lt_succ_self k, hobserved⟩

theorem Passed.completed {j : ℕ} (h : Passed trace k j) : Completed trace k j := by
  obtain ⟨e, c, hc, hlt, hobserved, -⟩ := h
  exact ⟨e, c, hc, hlt, hobserved⟩

/-- What the slot of an engine reports is what is observed of the engine. -/
theorem mem_reports (e : Fin 2) (j : ℕ) :
    j ∈ reports ((trace k).core.slot e) ((trace k).live e).shown ↔ Observed trace e j k := by
  unfold reports Observed
  show (j ∈ if ((trace k).live e).out.done = true then _ else _) ↔ _
  split
  · next hdone =>
      unfold jobsOf
      split
      · next hbusy =>
          rw [Finset.mem_singleton]
          exact ⟨fun h => ⟨hdone, hbusy, h.symm⟩, fun h => h.2.2.symm⟩
      · next hfree =>
          refine ⟨fun h => absurd h (Finset.notMem_empty j), fun h => absurd h.2.1 hfree⟩
  · next hdone =>
      exact ⟨fun h => absurd h (Finset.notMem_empty j), fun h => absurd h.1 hdone⟩

theorem mem_reported (j : ℕ) :
    j ∈ (trace k).shown.reported ↔ ∃ e, Observed trace e j k := by
  rw [Bench.reported, shown_live0, shown_live1, Finset.mem_union, Fin.exists_fin_two]
  exact or_congr (mem_reports 0 j) (mem_reports 1 j)

/-- One bit of the mask after the completion of a slot. -/
theorem getLsbD_mark (mask : BitVec 256) (index : BitVec 8) (done verified : Bool) (j : ℕ) :
    (if done then mask.writeSlice index.toNat (BitVec.ofBool verified) else mask).getLsbD j =
      if done = true ∧ index.toNat = j then verified else mask.getLsbD j := by
  have hindex := index.isLt
  cases done with
  | false => simp
  | true =>
      simp only [if_true, true_and]
      by_cases hj : j < 256
      · rw [BitVec.getLsbD_writeSlice _ _ _ hj]
        by_cases heq : index.toNat = j
        · simp [heq]
        · rw [if_neg (by omega), if_neg heq]
      · rw [if_neg (by omega), BitVec.getLsbD_of_ge _ _ (by omega),
          BitVec.getLsbD_of_ge _ _ (by omega)]

namespace Tracks

/-- A slot that reports is busy. -/
theorem observed_iff (h : Tracks en trace timeout n k sb) (e : Fin 2) (j : ℕ) :
    Observed trace e j k ↔
      ((trace k).live e).out.done = true ∧ ((trace k).core.slot e).jobIndex.toNat = j := by
  refine ⟨fun ho => ⟨ho.1, ho.2.2⟩, fun ho => ⟨ho.1, ?_, ho.2⟩⟩
  have h0 := h.accounted.accounts.attends0
  have h1 := h.accounted.accounts.attends1
  rw [shown_live0] at h0
  rw [shown_live1] at h1
  match e with
  | 0 => exact h0.busySlot_of_done ho.1
  | 1 => exact h1.busySlot_of_done ho.1

/-- No job is reported twice. -/
theorem not_completed (h : Tracks en trace timeout n k sb) {e : Fin 2} {j : ℕ}
    (ho : Observed trace e j k) : ¬ Completed trace k j := by
  rw [← h.finished, Scoreboard.mem_finished, not_and, not_not]
  intro _
  exact h.accounted.accounts.reports_subset ((mem_reported j).mpr ⟨e, ho⟩)

/-- The engines report different jobs. -/
theorem observed_ne (h : Tracks en trace timeout n k sb) {j : ℕ} (h0 : Observed trace 0 j k) :
    ¬ Observed trace 1 j k := by
  intro h1
  refine Finset.disjoint_left.mp h.accounted.accounts.disjoint
    (reports_subset ((mem_reports 0 j).mpr h0)) (reports_subset ((mem_reports 1 j).mpr h1))

/-- The completions of a cycle, on the scoreboard. -/
theorem finish_finished (h : Tracks en trace timeout n k sb) (hk : 0 < k) (j : ℕ) :
    j ∈ (sb.finish (trace k).shown.reported).finished ↔ Completed trace (k + 1) j := by
  have hfinished : (sb.finish (trace k).shown.reported).finished =
      sb.finished ∪ (trace k).shown.reported :=
    Scoreboard.finished_finish h.accounted.accounts.reports_subset
  rw [hfinished, Finset.mem_union, h.finished, mem_reported, completed_succ hk]

/-- A job runs on an engine the core has. -/
theorem enabled (h : Tracks en trace timeout n k sb)
    (hbusy : (trace k).core.engine1.busySlot = true) : en = true := by
  rw [← Bool.not_eq_false]
  intro hoff
  rw [show (trace k).core.engine1.busySlot = false from h.accounted.accounts.disabled hoff] at hbusy
  contradiction

/-- The events of a cycle are the `done`s of the engines. -/
theorem doneEvt_eq (h : Tracks en trace timeout n k sb) :
    doneEvt true (trace k).core.engine0 (trace k).live0.out = (trace k).live0.out.done ∧
      doneEvt en (trace k).core.engine1 (trace k).live1.out = (trace k).live1.out.done := by
  have h0 := h.accounted.accounts.doneEvt0
  have h1 := h.accounted.accounts.doneEvt1
  rw [shown_live0] at h0
  rw [shown_live1] at h1
  exact ⟨h0, h1⟩

/-- The completions of a cycle, in `jobs_completed`. -/
theorem retire_counted (h : Tracks en trace timeout n k sb) (i : Inputs) :
    (retire en (coreInputs i (trace k)) (trace k).core).jobsCompleted =
      (trace 1).core.jobsCompleted +
        BitVec.ofNat 32 (sb.finish (trace k).shown.reported).finished.card := by
  have hretire := h.accounted.accounts.retire_jobsCompleted (i := coreInputs i (trace k))
    (by rw [shown_live0]; rfl) (by rw [shown_live1]; rfl)
  rw [h.accounted.card_finish, BitVec.ofNat_add, ← BitVec.add_assoc, ← h.counted]
  exact hretire

/-- The completions of a cycle, in `result_mask`. -/
theorem retire_passed (h : Tracks en trace timeout n k sb) (hk : 0 < k) (i : Inputs) (j : ℕ) :
    (retire en (coreInputs i (trace k)) (trace k).core).resultMask.getLsbD j = true ↔
      Passed trace (k + 1) j := by
  have hmask : (retire en (coreInputs i (trace k)) (trace k).core).resultMask.getLsbD j =
      if Observed trace 1 j k then (trace k).live1.out.verified
      else if Observed trace 0 j k then (trace k).live0.out.verified
      else (trace k).core.resultMask.getLsbD j := by
    have hretire : (retire en (coreInputs i (trace k)) (trace k).core).resultMask =
        let mask0 := if doneEvt true (trace k).core.engine0 (trace k).live0.out then
          (trace k).core.resultMask.writeSlice (trace k).core.engine0.jobIndex.toNat
            (BitVec.ofBool (trace k).live0.out.verified) else (trace k).core.resultMask
        if doneEvt en (trace k).core.engine1 (trace k).live1.out then
          mask0.writeSlice (trace k).core.engine1.jobIndex.toNat
            (BitVec.ofBool (trace k).live1.out.verified) else mask0 := rfl
    rw [hretire, h.doneEvt_eq.1, h.doneEvt_eq.2, getLsbD_mark, getLsbD_mark]
    simp only [h.observed_iff]
    rfl
  rw [hmask, passed_succ hk, Fin.exists_fin_two]
  by_cases h1 : Observed trace 1 j k
  · have h0 : ¬ Observed trace 0 j k := fun h0 => h.observed_ne h0 h1
    have hbefore : ¬ Passed trace k j := fun hp => h.not_completed h1 hp.completed
    rw [if_pos h1]
    simp [h0, h1, hbefore, live]
  · rw [if_neg h1]
    by_cases h0 : Observed trace 0 j k
    · have hbefore : ¬ Passed trace k j := fun hp => h.not_completed h0 hp.completed
      rw [if_pos h0]
      simp [h0, h1, hbefore, live]
    · rw [if_neg h0, h.passed]
      simp [h0, h1]

/-- The registers of a batch that goes on. -/
theorem next (h : Tracks en trace timeout n k sb) (hk : 0 < k) {sb' : Scoreboard}
    (haccounted : Bench.Accounted en sb' n (trace (k + 1)).shown)
    (hfinished : sb'.finished = (sb.finish (trace k).shown.reported).finished)
    (hcounted : (trace (k + 1)).core.jobsCompleted =
      (retire en (coreInputs i (trace k)) (trace k).core).jobsCompleted)
    (hmask : (trace (k + 1)).core.resultMask =
      (retire en (coreInputs i (trace k)) (trace k).core).resultMask)
    (hserved : ∀ e, Served trace timeout e (k + 1)) : Tracks en trace timeout n (k + 1) sb' := by
  refine ⟨haccounted, ?_, ?_, ?_, hserved⟩
  · rw [hfinished]
    exact h.finish_finished hk
  · rw [hcounted, hfinished]
    exact h.retire_counted i
  · rw [hmask]
    exact h.retire_passed hk i

end Tracks

/-- How a batch ends. -/
structure Ended (trace : ℕ → Watch) (late : Bool) (k : ℕ) : Prop where
  done : (trace k).core.done = true
  error : (trace k).core.error = late
  resultValid : (trace k).core.resultValid = true
  errorCode : (trace k).core.errorCode = if late then errJobTimeout else errNone
  aborted : (trace k).core.verifierAbort = late
  free : ∀ e, ((trace k).core.slot e).busySlot = false
  passed : ∀ j, (trace k).core.resultMask.getLsbD j = true ↔ Passed trace k j
  completed : ∃ jobs : Finset ℕ, (∀ j, j ∈ jobs ↔ Completed trace k j) ∧
    (trace k).core.jobsCompleted = (trace 1).core.jobsCompleted + BitVec.ofNat 32 jobs.card

/-- The last job completes: the batch ends, and every run was on time. -/
theorem Tracks.finish (h : Tracks en trace timeout n k sb) (hk : 0 < k)
    (hall : (sb.finish (trace k).shown.reported).finished.card = n)
    (hcore : (trace (k + 1)).core = finalizeBatch false true errNone
      (retire en (coreInputs i (trace k)) (trace k).core).jobsCompleted (trace k).core
      (retire en (coreInputs i (trace k)) (trace k).core)) :
    Ended trace false (k + 1) ∧ OnTime trace timeout (k + 1) ∧
      ∀ j, Completed trace (k + 1) j ↔ j < n := by
  have hfree := h.accounted.free_of_complete (i := i.shown) hall
  rw [coreInputs_shown] at hfree
  refine ⟨?_, ?_, ?_⟩
  · refine ⟨by rw [hcore]; rfl, by rw [hcore]; rfl, by rw [hcore]; rfl, by rw [hcore]; rfl,
      by rw [hcore]; rfl, ?_, ?_, ?_⟩
    · rw [hcore]
      intro e
      match e with
      | 0 => rfl
      | 1 => rfl
    · rw [hcore]
      exact h.retire_passed hk i
    · rw [hcore]
      exact ⟨_, h.finish_finished hk, h.retire_counted i⟩
  · have hdone : ∀ e, ((trace k).core.slot e).busySlot = true →
        ((trace k).live e).out.done = true := by
      intro e hbusy
      match e with
      | 0 =>
          have hslot : (((trace k).core.slot 0).busySlot &&
              !doneEvt true (trace k).core.engine0 (trace k).live0.out) = false :=
            (freeSlot_busySlot _ _ _).symm.trans hfree.1
          rw [hbusy, Bool.true_and, Bool.not_eq_false', h.doneEvt_eq.1] at hslot
          exact hslot
      | 1 =>
          have hslot : (((trace k).core.slot 1).busySlot &&
              !doneEvt en (trace k).core.engine1 (trace k).live1.out) = false :=
            (freeSlot_busySlot _ _ _).symm.trans hfree.2
          rw [hbusy, Bool.true_and, Bool.not_eq_false', h.doneEvt_eq.2] at hslot
          exact hslot
    intro e j c hc hdispatched
    rcases Nat.lt_succ_iff_lt_or_eq.mp hc with hbefore | rfl
    · rcases (h.served e).handled j c hbefore hdispatched with ⟨d, hd, hle, hlt, hobserved⟩ | hrunning
      · exact ⟨d, hd, hle, by omega, hobserved⟩
      · exact hrunning.answered (hdone e hrunning.busy)
    · -- the edge that ends the batch hands out nothing
      have hlow : ((trace (c + 1)).core.slot e).startPulse = false := by
        rw [hcore]
        match e with
        | 0 => exact freeSlot_startPulse _ _ _
        | 1 => exact freeSlot_startPulse _ _ _
      have hstart := hdispatched.1
      rw [hlow] at hstart
      contradiction
  · intro j
    have hle := (h.accounted.retire (i := i.shown)).prefetch.le
    rw [← h.finish_finished hk, (Scoreboard.finished_eq_range hle hall).2.2, Finset.mem_range]

/-- What a busy slot still has before it expires. -/
def spare (timeout : BitVec 32) (slot : Slot) : ℕ :=
  if slot.busySlot then timeout.toNat - slot.cycles.toNat else 0

/-- What falls, lexicographically, in every cycle of a batch with a watchdog. -/
def toGo (timeout : BitVec 32) (w : Watch) : (ℕ ×ₗ ℕ ×ₗ ℕ) ×ₗ ℕ :=
  toLex (Bench.outstanding w.core, spare timeout w.core.engine0 + spare timeout w.core.engine1)

/-- A busy slot that does not report uses up its time. -/
theorem Served.spare_tick {e : Fin 2} (h : Served trace timeout e k) {enabled : Bool}
    (hen : ((trace k).core.slot e).busySlot = true → enabled = true) :
    spare timeout (tickSlot enabled ((trace k).core.slot e)) +
        ((trace k).core.slot e).busySlot.toNat ≤ spare timeout ((trace k).core.slot e) := by
  cases hbusy : ((trace k).core.slot e).busySlot with
  | false => simp [spare, tickSlot, hbusy]
  | true =>
      obtain ⟨j, c, hc, -, hrunning⟩ := h.manned hbusy
      have hyoung := hrunning.young
      have hbound := timeout.isLt
      have hone : (1 : BitVec 32).toNat = 1 := rfl
      have hcycles : (tickSlot enabled ((trace k).core.slot e)).cycles.toNat =
          ((trace k).core.slot e).cycles.toNat + 1 := by
        rw [tickSlot, hen hbusy, hbusy]
        show (((trace k).core.slot e).cycles + 1).toNat = _
        rw [BitVec.toNat_add_of_lt (by omega), hone]
      rw [spare, spare, hcycles, hbusy, show (tickSlot enabled ((trace k).core.slot e)).busySlot = true
        from hbusy, if_pos rfl, if_pos rfl, Bool.toNat_true]
      omega

/-- The same without the watchdog, cycle by cycle. -/
theorem step_untimed {w : Watch} (hrun : w.core.state = .run) (hreset : i.softReset = false)
    (hexpires : expires en (coreInputs i w) w.core = false) :
    step en i w = step en i.untimed w := by
  have hcore := SigvKv260Core.step_untimed hrun (i := coreInputs i w) hreset hexpires
  unfold step
  rw [hcore]
  rfl

namespace Tracks

variable (h : Tracks en trace timeout n k sb) (hnext : trace (k + 1) = step en i (trace k))
  (hreset : i.softReset = false)
include h hnext hreset

/-- The slots of a batch that goes on. -/
theorem served_succ (hpos : timeout ≠ 0) (htimeout : i.config.jobTimeoutCycles = timeout)
    (hexpires : expires en (coreInputs i (trace k)) (trace k).core = false)
    (hrunning : (trace (k + 1)).core.state = .run) (e : Fin 2) : Served trace timeout e (k + 1) := by
  have hdisabled := h.accounted.accounts.disabled
  have hlt : 0 < timeout.toNat := by
    rw [Nat.pos_iff_ne_zero]
    intro hzero
    exact hpos (BitVec.eq_of_toNat_eq hzero)
  rw [expires, Bool.or_eq_false_iff] at hexpires
  have hcore : (trace (k + 1)).core =
      SigvKv260Core.step en (coreInputs i (trace k)) (trace k).core := congrArg Watch.core hnext
  rw [hcore] at hrunning
  obtain ⟨hserves0, hserves1⟩ := serves_step (i := coreInputs i (trace k))
    (s := (trace k).core) h.accounted.accounts.running hreset hdisabled hrunning
  rw [← hcore] at hserves0 hserves1
  match e with
  | 0 =>
      refine (h.served 0).step hlt ?_ (h.doneEvt_eq.1 ▸ hserves0)
      intro hbusy hdone
      rw [← htimeout]
      exact not_le_of_not_timedOut hexpires.1 (fun _ => rfl) (htimeout ▸ hpos) hbusy
        (h.doneEvt_eq.1.trans hdone)
  | 1 =>
      refine (h.served 1).step hlt ?_ (h.doneEvt_eq.2 ▸ hserves1)
      intro hbusy hdone
      rw [← htimeout]
      exact not_le_of_not_timedOut hexpires.2 h.enabled (htimeout ▸ hpos) hbusy
        (h.doneEvt_eq.2.trans hdone)

/-- A cycle that does not end the batch brings it closer to its end. -/
theorem go_on (hk : 0 < k) (hpos : timeout ≠ 0) (htimeout : i.config.jobTimeoutCycles = timeout)
    (hexpires : expires en (coreInputs i (trace k)) (trace k).core = false) {sb' : Scoreboard}
    (haccounted : Bench.Accounted en sb' n (Bench.step en i.untimed.shown (trace k).shown))
    (hfinished : sb'.finished = (sb.finish (trace k).shown.reported).finished)
    (hcounted : (trace (k + 1)).core.jobsCompleted =
      (retire en (coreInputs i (trace k)) (trace k).core).jobsCompleted)
    (hmask : (trace (k + 1)).core.resultMask =
      (retire en (coreInputs i (trace k)) (trace k).core).resultMask) :
    ∃ sb', Tracks en trace timeout n (k + 1) sb' ∧
      toGo timeout (trace (k + 1)) < toGo timeout (trace k) := by
  have halike : (Bench.step en i.untimed.shown (trace k).shown).Alike (trace (k + 1)).shown := by
    rw [hnext, step_untimed h.accounted.accounts.running hreset hexpires]
    exact alike_step en i.untimed (trace k)
  have haccounted' := halike.accounted haccounted
  have hserved := h.served_succ hnext hreset hpos htimeout hexpires haccounted'.accounts.running
  refine ⟨sb', h.next hk haccounted' hfinished hcounted hmask hserved, ?_⟩
  have hcore : (Bench.step en i.untimed.shown (trace k).shown).core = (trace (k + 1)).core :=
    halike.core
  rcases h.accounted.outstanding_step haccounted hreset with hlt | ⟨hsame, hnone, hretire, hbusy⟩
  · rw [hcore] at hlt
    exact Prod.Lex.toLex_lt_toLex.mpr (Or.inl hlt)
  · rw [hcore] at hsame hretire
    refine Prod.Lex.toLex_lt_toLex.mpr (Or.inr ⟨hsame, ?_⟩)
    obtain ⟨hdone0, hdone1⟩ := h.accounted.quiet_of_reported hnone
    rw [shown_live0] at hdone0
    rw [shown_live1] at hdone1
    rw [coreInputs_shown] at hretire
    have hslot0 : (trace (k + 1)).core.engine0 = tickSlot true (trace k).core.engine0 := by
      rw [hretire]
      show freeSlot (doneEvt true (trace k).core.engine0 (trace k).live0.out) _ = _
      rw [h.doneEvt_eq.1, show (trace k).live0.out.done = false from hdone0]
      rfl
    have hslot1 : (trace (k + 1)).core.engine1 = tickSlot en (trace k).core.engine1 := by
      rw [hretire]
      show freeSlot (doneEvt en (trace k).core.engine1 (trace k).live1.out) _ = _
      rw [h.doneEvt_eq.2, show (trace k).live1.out.done = false from hdone1]
      rfl
    have hspare0 : spare timeout (tickSlot true (trace k).core.engine0) +
        (trace k).core.engine0.busySlot.toNat ≤ spare timeout (trace k).core.engine0 :=
      (h.served 0).spare_tick fun _ => rfl
    have hspare1 : spare timeout (tickSlot en (trace k).core.engine1) +
        (trace k).core.engine1.busySlot.toNat ≤ spare timeout (trace k).core.engine1 :=
      (h.served 1).spare_tick h.enabled
    have hcount : 1 ≤ (trace k).core.engine0.busySlot.toNat +
        (trace k).core.engine1.busySlot.toNat := by
      rcases hbusy with hbusy | hbusy
      · rw [show (trace k).core.engine0.busySlot = true from hbusy, Bool.toNat_true]
        exact Nat.le_add_right _ _
      · rw [show (trace k).core.engine1.busySlot = true from hbusy, Bool.toNat_true]
        exact Nat.le_add_left _ _
    show spare timeout (trace (k + 1)).core.engine0 + spare timeout (trace (k + 1)).core.engine1 <
      spare timeout (trace k).core.engine0 + spare timeout (trace k).core.engine1
    rw [hslot0, hslot1]
    omega

/-- No slot expires: the batch goes on, or ends as it would without a watchdog. -/
theorem advance (hk : 0 < k) (hpos : timeout ≠ 0) (htimeout : i.config.jobTimeoutCycles = timeout)
    (hexpires : expires en (coreInputs i (trace k)) (trace k).core = false) :
    (∃ sb', Tracks en trace timeout n (k + 1) sb' ∧
        toGo timeout (trace (k + 1)) < toGo timeout (trace k)) ∨
      Ended trace false (k + 1) ∧ OnTime trace timeout (k + 1) ∧
        ∀ j, Completed trace (k + 1) j ↔ j < n := by
  have halike : (Bench.step en i.untimed.shown (trace k).shown).Alike (trace (k + 1)).shown := by
    rw [hnext, step_untimed h.accounted.accounts.running hreset hexpires]
    exact alike_step en i.untimed (trace k)
  have hretire : retire en (Bench.coreInputs i.untimed.shown (trace k).shown) (trace k).shown.core =
      retire en (coreInputs i (trace k)) (trace k).core := by
    rw [coreInputs_shown]
    rfl
  have hgo := fun sb' => @go_on en trace timeout n k sb i h hnext hreset hk hpos htimeout hexpires sb'
  have hshown : (trace (k + 1)).core = (Bench.step en i.untimed.shown (trace k).shown).core :=
    halike.core.symm
  cases h.accounted.step (i := i.untimed.shown) hreset with
  | timeout _ _ enabled _ _ => exact absurd rfl enabled
  | complete all core _ =>
      refine Or.inr ?_
      rw [hretire, ← hshown] at core
      exact h.finish hk all core
  | hand0 shadow core next =>
      rw [hretire, ← hshown] at core
      refine Or.inl (hgo _ next Scoreboard.finished_hand ?_ ?_)
      · rw [core, afterDispatch_jobsCompleted]
      · rw [core, afterDispatch_resultMask]
  | hand1 shadow core next =>
      rw [hretire, ← hshown] at core
      refine Or.inl (hgo _ next Scoreboard.finished_hand ?_ ?_)
      · rw [core, afterDispatch_jobsCompleted]
      · rw [core, afterDispatch_resultMask]
  | wait taken core next =>
      rw [hretire, ← hshown] at core
      refine Or.inl (hgo _ next rfl ?_ ?_)
      · rw [core]
      · rw [core]

end Tracks

/-- The two ways a batch ends. -/
inductive Concludes (after without : ℕ → Watch) (timeout : BitVec 32) (n k : ℕ) : Prop
  | onTime (ended : Ended after false k) (onTime : OnTime after timeout k)
      (same : without k = after k) (completed : ∀ j, Completed after k j ↔ j < n)
  | late (ended : Ended after true k) (late : ¬ OnTime after timeout k)

end batch

end Watch

end Kv260Sigv
