import Kv260Sigv.System.Dispatch
import Mathlib.Data.Prod.Lex

/-!
# What a batch does

With the job memory at rest, no reset and one verdict function, a batch hands
every job its own key, in order, and writes every verdict to its own bit of
`result_mask`; with the watchdog off it also ends.  The invariant is `Faithful`,
over the scoreboard of the batch; the measure that falls in every cycle is
lexicographic: open jobs, unloaded jobs, words to load, starts to sample, cycles
the engines still take.
-/

set_option autoImplicit false

namespace Kv260Sigv

open SigvKv260Core

/-- The job and the key of a sampled start. -/
def Dispatch.given (x : Dispatch) : ℕ × JobKey := (x.jobIndex.toNat, x.key)

/-! ### The loader and the job memory -/

/-- The shadow slot holds the words of job `d` that have been captured. -/
structure Loading (mem : JobMemory) (d : ℕ) (s : State) (dout : BitVec 32) : Prop where
  captured : s.loaderState ≠ .idle → ∀ w < s.loadWordIndex.toNat,
    keyWord s.shadow w = mem (BitVec.ofNat 13 (24 * d + w))
  fetched : s.loaderState = .wait ∨ s.loaderState = .capture →
    dout = mem (BitVec.ofNat 13 (24 * d + s.loadWordIndex.toNat))
  ready : s.shadowValid = true → s.shadow = jobKey mem d

namespace Loading

variable {mem : JobMemory} {d n : ℕ} {s : State} {en : Bool} {i : SigvKv260Core.Inputs}

/-- One cycle of the loader. -/
theorem retire (h : Loading mem d s i.jobBramDout) (hp : Prefetch d n s) :
    Loading mem d (retire en i s)
      (if jobBramEn s then mem (jobBramAddr s) else i.jobBramDout) := by
  obtain ⟨hcaptured, hfetched, hready⟩ := h
  have hword := hp.word
  cases hload : s.loaderState with
  | idle =>
      have hsame := @stepLoader_idle i s hload
      refine ⟨?_, ?_, ?_⟩ <;> simp only [SigvKv260Core.retire, hsame, hload]
      · intro hne
        contradiction
      · intro hor
        simp at hor
      · exact hready
  | req =>
      have hnext := @stepLoader_req i s hload
      have hvalid := hp.not_shadowValid (by rw [hload]; decide)
      have hlt : d < n := by
        refine Nat.lt_of_le_of_ne hp.le ?_
        intro heq
        rw [(hp.drained heq).1] at hload
        contradiction
      refine ⟨?_, ?_, ?_⟩ <;> simp only [SigvKv260Core.retire, hnext]
      · intro _
        exact hcaptured (by rw [hload]; decide)
      · intro _
        rw [jobBramEn, hload, jobBramAddr, (hp.shadow hlt).2.2 (by rw [hload]; decide),
          BitVec.ofNat_add]
        simp
      · rw [hvalid]
        intro hfalse
        contradiction
  | wait =>
      have hnext := @stepLoader_wait i s hload
      have hvalid := hp.not_shadowValid (by rw [hload]; decide)
      refine ⟨?_, ?_, ?_⟩ <;> simp only [SigvKv260Core.retire, hnext]
      · intro _
        exact hcaptured (by rw [hload]; decide)
      · intro _
        rw [jobBramEn, hload]
        exact hfetched (Or.inl hload)
      · rw [hvalid]
        intro hfalse
        contradiction
  | capture =>
      have hvalid := hp.not_shadowValid (by rw [hload]; decide)
      have hdout := hfetched (Or.inr hload)
      have hold := hcaptured (by rw [hload]; decide)
      have hwords : ∀ w ≤ s.loadWordIndex.toNat,
          keyWord (captureWord s.shadow s.loadWordIndex i.jobBramDout) w =
            mem (BitVec.ofNat 13 (24 * d + w)) := by
        intro w hw
        rw [keyWord_captureWord _ hword (by omega)]
        split
        · next heq => rw [hdout, heq]
        · next hne => exact hold w (by omega)
      by_cases hlast : s.loadWordIndex = jobLastWordIndex
      · have hnext := @stepLoader_last i s hload hlast
        refine ⟨?_, ?_, ?_⟩ <;> simp only [SigvKv260Core.retire, hnext]
        · intro hne
          contradiction
        · intro hor
          simp at hor
        · intro _
          have hindex : s.loadWordIndex.toNat = 23 := by
            rw [hlast]
            rfl
          refine JobKey.ext_words fun w hw => ?_
          rw [hwords w (by omega), keyWord_jobKey mem d hw]
      · have hnext := @stepLoader_next i s hload hlast
        have hone : (1 : BitVec 5).toNat = 1 := rfl
        refine ⟨?_, ?_, ?_⟩ <;> simp only [SigvKv260Core.retire, hnext]
        · intro _ w hw
          rw [BitVec.toNat_add_of_lt (by omega)] at hw
          exact hwords w (by omega)
        · intro hor
          simp at hor
        · rw [hvalid]
          intro hfalse
          contradiction

/-- After a dispatch nothing of the next job is captured. -/
theorem afterDispatch (dout : BitVec 32) {m : State} (hidle : m.loaderState = .idle) :
    Loading mem d (afterDispatch s m) dout := by
  refine ⟨?_, ?_, ?_⟩
  · unfold SigvKv260Core.afterDispatch
    dsimp only
    split
    · intro _ w hw
      exact absurd hw (Nat.not_lt_zero w)
    · intro hne
      exact absurd hidle hne
  · unfold SigvKv260Core.afterDispatch
    dsimp only
    split
    · intro hor
      simp [kickLoader] at hor
    · intro hor
      simp [hidle] at hor
  · rw [afterDispatch_shadowValid]
    intro hfalse
    contradiction

end Loading

/-! ### The engines and their verdicts -/

/-- The slot holds its job's key, and its engine the verdict on it. -/
structure Carries (mem : JobMemory) (verdict : JobKey → Bool) (slot : Slot) (e : Engine) :
    Prop where
  key : slot.busySlot = true → slot.key = jobKey mem slot.jobIndex.toNat
  judged : slot.busySlot = true → slot.startPulse = false → e.verdict = verdict slot.key
  reported : e.out.done = true → e.out.verified = e.verdict

namespace Carries

variable {mem : JobMemory} {verdict : JobKey → Bool} {slot : Slot} {e : Engine} {latency : ℕ}
  {enabled abort : Bool}

/-- A reported verdict is the verdict on the slot's job. -/
theorem verified (h : Carries mem verdict slot e) (ha : Attends slot e)
    (hdone : e.out.done = true) :
    e.out.verified = verdict (jobKey mem slot.jobIndex.toNat) := by
  have hbusy := ha.busySlot_of_done hdone
  have hstart : slot.startPulse = false := by
    rw [← Bool.not_eq_true]
    intro hstart
    rw [Attends, if_pos hbusy, if_pos hstart] at ha
    rw [ha.2] at hdone
    contradiction
  rw [h.reported hdone, h.judged hbusy hstart, h.key hbusy]

/-- Whatever an engine reports is its verdict. -/
theorem reported_step (start v : Bool) :
    (e.step start v latency).out.done = true →
      (e.step start v latency).out.verified = (e.step start v latency).verdict := by
  unfold Engine.step
  split
  · split <;> simp
  · split <;> simp

theorem judged_step (start v : Bool) :
    (e.step start v latency).verdict = if start then v else e.verdict := by
  unfold Engine.step
  split
  · split <;> rfl
  · split <;> rfl

/-- One cycle of a slot that is not refilled. -/
theorem step (h : Carries mem verdict slot (e.visible abort))
    (habort : abort = true → slot.busySlot = false) :
    Carries mem verdict (freeSlot (e.visible abort).out.done (tickSlot enabled slot))
      (Bench.stepEngine abort slot verdict latency e) := by
  have hkey : ∀ evt, (freeSlot evt (tickSlot enabled slot)).key = slot.key ∧
      (freeSlot evt (tickSlot enabled slot)).jobIndex = slot.jobIndex := by
    intro evt
    cases evt with
    | false => exact ⟨rfl, rfl⟩
    | true => exact ⟨rfl, rfl⟩
  have hbusy : ∀ evt, (freeSlot evt (tickSlot enabled slot)).busySlot = true →
      slot.busySlot = true := by
    intro evt hnext
    rw [freeSlot_busySlot, Bool.and_eq_true] at hnext
    exact hnext.1
  refine ⟨?_, ?_, ?_⟩
  · intro hnext
    rw [(hkey _).1, (hkey _).2]
    exact h.key (hbusy _ hnext)
  · intro hnext _
    rw [(hkey _).1]
    cases abort with
    | true =>
        rw [habort rfl] at hbusy
        exact absurd (hbusy _ hnext) Bool.false_ne_true
    | false =>
        show (e.step slot.startPulse (verdict slot.key) latency).verdict = _
        rw [judged_step]
        split
        · rfl
        · next hstart => exact h.judged (hbusy _ hnext) (by simpa using hstart)
  · cases abort with
    | true =>
        intro hdone
        exact absurd hdone Bool.false_ne_true
    | false => exact reported_step _ _

/-- Handing over the shadow. -/
theorem hand {s : State} {d : ℕ} (h : Carries mem verdict slot e)
    (hshadow : s.shadow = jobKey mem d) (hindex : s.shadowJobIndex.toNat = d) :
    Carries mem verdict (dispatchSlot s) e := by
  refine ⟨?_, ?_, h.reported⟩
  · intro _
    rw [dispatchSlot, hshadow, hindex]
  · intro _ hstart
    exact absurd hstart.symm Bool.false_ne_true

end Carries

/-! ### The result mask and the counters -/

/-- Bit `j` of the mask is set when job `j` is in `jobs` and its verdict is true. -/
def Marks (verdict : JobKey → Bool) (mem : JobMemory) (jobs : Finset ℕ) (mask : BitVec 256) :
    Prop :=
  ∀ j, mask.getLsbD j = (decide (j ∈ jobs) && verdict (jobKey mem j))

/-- Writing the verdict of one more job. -/
theorem Marks.write {verdict : JobKey → Bool} {mem : JobMemory} {jobs : Finset ℕ}
    {mask : BitVec 256} (h : Marks verdict mem jobs mask) {j : ℕ} (hj : j < 256) :
    Marks verdict mem (jobs ∪ {j})
      (mask.writeSlice j (BitVec.ofBool (verdict (jobKey mem j)))) := by
  intro k
  by_cases hk : k < 256
  · rw [BitVec.getLsbD_writeSlice _ _ _ hk]
    by_cases heq : k = j
    · subst heq
      simp
    · rw [if_neg (by omega), h k]
      simp [heq]
  · rw [BitVec.getLsbD_of_ge _ _ (by omega)]
    have hne : k ≠ j := by omega
    have hold := h k
    rw [BitVec.getLsbD_of_ge _ _ (by omega)] at hold
    simpa [hne] using hold

/-- The completion of a slot. -/
theorem Marks.complete {verdict : JobKey → Bool} {mem : JobMemory} {jobs : Finset ℕ}
    {mask : BitVec 256} {slot : Slot} {e : Engine} (h : Marks verdict mem jobs mask)
    (ha : Attends slot e) (hc : Carries mem verdict slot e) :
    Marks verdict mem (jobs ∪ reports slot e)
      (if e.out.done then mask.writeSlice slot.jobIndex.toNat (BitVec.ofBool e.out.verified)
        else mask) := by
  by_cases hdone : e.out.done = true
  · rw [if_pos hdone, reports, if_pos hdone, jobsOf, if_pos (ha.busySlot_of_done hdone),
      hc.verified ha hdone]
    exact h.write slot.jobIndex.isLt
  · rw [if_neg hdone, reports, if_neg hdone, Finset.union_empty]
    exact h

/-- The counters since the launch, and the mask. -/
structure Tallied (mem : JobMemory) (verdict : JobKey → Bool) (launched : Bench)
    (sb : Scoreboard) (s : State) (completions : ℕ) : Prop where
  started : s.jobsStarted = launched.core.jobsStarted + BitVec.ofNat 32 sb.handed
  completed : s.jobsCompleted = launched.core.jobsCompleted + BitVec.ofNat 32 sb.finished.card
  completions : completions = launched.completions + sb.finished.card
  mask : Marks verdict mem sb.finished s.resultMask

namespace Tallied

variable {mem : JobMemory} {verdict : JobKey → Bool} {launched : Bench} {sb : Scoreboard}
  {s m : State} {completions n : ℕ} {en : Bool} {e0 e1 : Engine} {i : SigvKv260Core.Inputs}

theorem retire (h : Tallied mem verdict launched sb s completions)
    (ha : Accounts en sb n s e0 e1) (hc0 : Carries mem verdict s.engine0 e0)
    (hc1 : Carries mem verdict s.engine1 e1) (hi0 : i.engine0 = e0.out) (hi1 : i.engine1 = e1.out) :
    Tallied mem verdict launched (sb.finish (reports s.engine0 e0 ∪ reports s.engine1 e1))
      (retire en i s) (completions + e0.out.done.toNat + e1.out.done.toNat) := by
  have hcard := Scoreboard.card_finished_finish ha.reports_subset
  refine ⟨h.started, ?_, ?_, ?_⟩
  · rw [ha.retire_jobsCompleted hi0 hi1, h.completed, hcard, BitVec.ofNat_add, BitVec.add_assoc]
  · rw [h.completions, hcard, ha.card_reports]
    omega
  · rw [Scoreboard.finished_finish ha.reports_subset, ← Finset.union_assoc]
    have hmask := (h.mask.complete ha.attends0 hc0).complete ha.attends1 hc1
    show Marks verdict mem _ (if doneEvt en s.engine1 i.engine1 then _ else _)
    rw [hi0, hi1, ha.doneEvt0, ha.doneEvt1]
    exact hmask

/-- Handing out a job counts it. -/
theorem hand (h : Tallied mem verdict launched sb m completions)
    (hstarted : m.jobsStarted = s.jobsStarted) :
    Tallied mem verdict launched sb.hand (afterDispatch s m) completions := by
  refine ⟨?_, ?_, ?_, ?_⟩
  · rw [afterDispatch_jobsStarted, ← hstarted, h.started, Scoreboard.hand_handed,
      BitVec.ofNat_add, BitVec.add_assoc]
    rfl
  · rw [afterDispatch_jobsCompleted, Scoreboard.finished_hand]
    exact h.completed
  · rw [Scoreboard.finished_hand]
    exact h.completions
  · rw [afterDispatch_resultMask, Scoreboard.finished_hand]
    exact h.mask

end Tallied

/-! ### The starts -/

/-- Since the launch the engines have sampled the starts of jobs `0 .. k - 1`, in
this order and with these jobs' keys. -/
def Logged (mem : JobMemory) (launched : Bench) (k : ℕ) (dispatches : List Dispatch) : Prop :=
  ∃ log, dispatches = launched.dispatches ++ log ∧
    log.map Dispatch.given = (List.range k).map fun j => (j, jobKey mem j)

/-- A raised start pulse is the one of job `k`. -/
def Pulses (k : ℕ) (slot : Slot) : Prop :=
  slot.startPulse = true → slot.busySlot = true ∧ slot.jobIndex.toNat = k

/-- The starts of a cycle go into the log. -/
theorem Logged.sample {mem : JobMemory} {verdict : JobKey → Bool} {launched : Bench} {k : ℕ}
    {dispatches : List Dispatch} {slot : Slot} {e : Engine} {abort : Bool} (engine : Fin 2)
    (h : Logged mem launched k dispatches) (hp : Pulses k slot)
    (hc : Carries mem verdict slot e) (habort : abort = true → slot.busySlot = false) :
    Logged mem launched (k + slot.startPulse.toNat)
      (dispatches ++ Bench.sampled engine abort slot) := by
  cases hstart : slot.startPulse with
  | false =>
      rw [Bench.sampled, hstart, Bool.false_and]
      show Logged mem launched k (dispatches ++ [])
      rw [List.append_nil]
      exact h
  | true =>
      obtain ⟨hbusy, hindex⟩ := hp hstart
      have hlow : abort = false := by
        rw [← Bool.not_eq_true]
        intro ha
        rw [habort ha] at hbusy
        contradiction
      obtain ⟨log, rfl, hlog⟩ := h
      refine ⟨log ++ [⟨engine, slot.jobIndex, slot.key⟩], ?_, ?_⟩
      · rw [Bench.sampled, hstart, hlow, List.append_assoc]
        rfl
      · rw [Bool.toNat_true, List.range_succ, List.map_append, List.map_append, hlog,
          List.map_singleton, List.map_singleton, Dispatch.given, hc.key hbusy, hindex]

/-! ### The batch -/

/-- What a batch of `n` jobs has done so far, next to its scoreboard. -/
structure Keeps (mem : JobMemory) (verdict : JobKey → Bool) (launched : Bench) (sb : Scoreboard)
    (s : State) (e0 e1 : Engine) (dout : BitVec 32) (dispatches : List Dispatch)
    (completions : ℕ) : Prop where
  tallied : Tallied mem verdict launched sb s completions
  loading : Loading mem sb.handed s dout
  carries0 : Carries mem verdict s.engine0 e0
  carries1 : Carries mem verdict s.engine1 e1
  logged : ∃ k, Logged mem launched k dispatches ∧ Pulses k s.engine0 ∧ Pulses k s.engine1 ∧
    k + s.engine0.startPulse.toNat + s.engine1.startPulse.toNat = sb.handed

namespace Keeps

variable {mem : JobMemory} {verdict : JobKey → Bool} {launched : Bench} {sb : Scoreboard}
  {s m : State} {e0 e1 : Engine} {dout : BitVec 32} {dispatches : List Dispatch}
  {completions n : ℕ}

/-- Without a pending start the log holds all that was handed out. -/
theorem logged_handed (h : Keeps mem verdict launched sb m e0 e1 dout dispatches completions)
    (hp0 : m.engine0.startPulse = false) (hp1 : m.engine1.startPulse = false) :
    Logged mem launched sb.handed dispatches := by
  obtain ⟨k, hlog, -, -, hk⟩ := h.logged
  rw [hp0, hp1] at hk
  rw [← hk]
  exact hlog

theorem pulses_of_low {k : ℕ} {slot : Slot} (h : slot.startPulse = false) : Pulses k slot := by
  intro hstart
  rw [h] at hstart
  contradiction

/-- The shadow goes to engine 0. -/
theorem hand0 (h : Keeps mem verdict launched sb m e0 e1 dout dispatches completions)
    (hs : Prefetch sb.handed n s) (hshadow : s.shadow = jobKey mem sb.handed)
    (hvalid : s.shadowValid = true) (hidle : m.loaderState = .idle)
    (hstarted : m.jobsStarted = s.jobsStarted)
    (hp0 : m.engine0.startPulse = false) (hp1 : m.engine1.startPulse = false) :
    Keeps mem verdict launched sb.hand (afterDispatch s { m with engine0 := dispatchSlot s })
      e0 e1 dout dispatches completions := by
  have hindex := (hs.shadow (hs.lt_of_shadowValid hvalid)).1
  have htallied : Tallied mem verdict launched sb { m with engine0 := dispatchSlot s }
      completions := by
    obtain ⟨h₁, h₂, h₃, h₄⟩ := h.tallied
    exact ⟨h₁, h₂, h₃, h₄⟩
  refine ⟨htallied.hand hstarted, Loading.afterDispatch dout hidle, ?_, ?_,
    sb.handed, h.logged_handed hp0 hp1, ?_, ?_, ?_⟩
  · rw [afterDispatch_engine0]
    exact h.carries0.hand hshadow hindex
  · rw [afterDispatch_engine1]
    exact h.carries1
  · rw [afterDispatch_engine0]
    intro _
    exact ⟨rfl, hindex⟩
  · rw [afterDispatch_engine1]
    exact pulses_of_low hp1
  · rw [afterDispatch_engine0, afterDispatch_engine1, hp1]
    rfl

/-- The shadow goes to engine 1. -/
theorem hand1 (h : Keeps mem verdict launched sb m e0 e1 dout dispatches completions)
    (hs : Prefetch sb.handed n s) (hshadow : s.shadow = jobKey mem sb.handed)
    (hvalid : s.shadowValid = true) (hidle : m.loaderState = .idle)
    (hstarted : m.jobsStarted = s.jobsStarted)
    (hp0 : m.engine0.startPulse = false) (hp1 : m.engine1.startPulse = false) :
    Keeps mem verdict launched sb.hand (afterDispatch s { m with engine1 := dispatchSlot s })
      e0 e1 dout dispatches completions := by
  have hindex := (hs.shadow (hs.lt_of_shadowValid hvalid)).1
  have htallied : Tallied mem verdict launched sb { m with engine1 := dispatchSlot s }
      completions := by
    obtain ⟨h₁, h₂, h₃, h₄⟩ := h.tallied
    exact ⟨h₁, h₂, h₃, h₄⟩
  refine ⟨htallied.hand hstarted, Loading.afterDispatch dout hidle, ?_, ?_,
    sb.handed, h.logged_handed hp0 hp1, ?_, ?_, ?_⟩
  · rw [afterDispatch_engine0]
    exact h.carries0
  · rw [afterDispatch_engine1]
    exact h.carries1.hand hshadow hindex
  · rw [afterDispatch_engine0]
    exact pulses_of_low hp0
  · rw [afterDispatch_engine1]
    intro _
    exact ⟨rfl, hindex⟩
  · rw [afterDispatch_engine0, afterDispatch_engine1, hp0]
    rfl

end Keeps

namespace Bench

/-- A batch under way, with its engines, its memory output and its observers. -/
def Faithful (mem : JobMemory) (verdict : JobKey → Bool) (launched : Bench) (sb : Scoreboard)
    (b : Bench) : Prop :=
  Keeps mem verdict launched sb b.core b.live0 b.live1 b.jobBramDout b.dispatches b.completions

/-- A cycle of a batch: no reset, the job memory and the verdicts at rest. -/
structure Steady (mem : JobMemory) (verdict : JobKey → Bool) (i : Inputs) : Prop where
  softReset : i.softReset = false
  jobMemory : i.jobMemory = mem
  verdict : i.verdict = verdict

variable {en : Bool} {mem : JobMemory} {verdict : JobKey → Bool} {launched b : Bench}
  {sb : Scoreboard} {n : ℕ} {i : Inputs}

/-- The loader, the engines, the completions and the observers of a cycle. -/
theorem Faithful.retire (h : Faithful mem verdict launched sb b) (ha : Accounted en sb n b)
    (hi : Steady mem verdict i) :
    Keeps mem verdict launched (sb.finish b.reported) (retire en (coreInputs i b) b.core)
      (step en i b).engine0 (step en i b).engine1 (step en i b).jobBramDout
      (step en i b).dispatches (step en i b).completions := by
  have hengine0 : (SigvKv260Core.retire en (coreInputs i b) b.core).engine0 =
      freeSlot b.live0.out.done (tickSlot true b.core.engine0) := by
    rw [← ha.accounts.doneEvt0]
    rfl
  have hengine1 : (SigvKv260Core.retire en (coreInputs i b) b.core).engine1 =
      freeSlot b.live1.out.done (tickSlot en b.core.engine1) := by
    rw [← ha.accounts.doneEvt1]
    rfl
  obtain ⟨-, rfl, rfl⟩ := hi
  refine ⟨h.tallied.retire ha.accounts h.carries0 h.carries1 rfl rfl, ?_, ?_, ?_, ?_⟩
  · exact Loading.retire (i := coreInputs i b) h.loading ha.accounts.prefetch
  · rw [hengine0]
    exact h.carries0.step fun hab => (ha.free_of_abort hab).1
  · rw [hengine1]
    exact h.carries1.step fun hab => (ha.free_of_abort hab).2
  · obtain ⟨k, hlog, hp0, hp1, hk⟩ := h.logged
    have hfirst := hlog.sample 0 hp0 h.carries0 fun hab => (ha.free_of_abort hab).1
    -- the second pulse can only be up when the first is not: both would name job `k`
    have hsecond : Pulses (k + b.core.engine0.startPulse.toNat) b.core.engine1 := by
      intro hstart1
      obtain ⟨hbusy1, hindex1⟩ := hp1 hstart1
      cases hstart0 : b.core.engine0.startPulse with
      | false => exact ⟨hbusy1, hindex1⟩
      | true =>
          obtain ⟨hbusy0, hindex0⟩ := hp0 hstart0
          have hdisjoint := ha.accounts.disjoint
          rw [jobsOf, jobsOf, if_pos hbusy0, if_pos hbusy1, hindex0, hindex1,
            Finset.disjoint_singleton] at hdisjoint
          exact absurd rfl hdisjoint
    have hboth := hfirst.sample 1 hsecond h.carries1
      fun hab => (ha.free_of_abort hab).2
    rw [hk] at hboth
    have hlow0 : (SigvKv260Core.retire en (coreInputs i b) b.core).engine0.startPulse = false := by
      rw [hengine0, freeSlot_startPulse]
    have hlow1 : (SigvKv260Core.retire en (coreInputs i b) b.core).engine1.startPulse = false := by
      rw [hengine1, freeSlot_startPulse]
    refine ⟨sb.handed, hboth, Keeps.pulses_of_low hlow0, Keeps.pulses_of_low hlow1, ?_⟩
    rw [hlow0, hlow1]
    rfl

/-- A batch of `n` jobs is over and has succeeded. -/
structure Over (mem : JobMemory) (verdict : JobKey → Bool) (launched : Bench) (n : ℕ) (b : Bench) :
    Prop where
  done : b.core.done = true
  error : b.core.error = false
  parked : Parked b
  mask : Marks verdict mem (Finset.range n) b.core.resultMask
  started : b.core.jobsStarted = launched.core.jobsStarted + BitVec.ofNat 32 n
  completed : b.core.jobsCompleted = launched.core.jobsCompleted + BitVec.ofNat 32 n
  completions : b.completions = launched.completions + n
  logged : Logged mem launched n b.dispatches

/-- The watchdog has ended a batch. -/
structure TimedOut (b : Bench) : Prop where
  done : b.core.done = true
  error : b.core.error = true
  parked : Parked b

/-- A batch under way after a launch of `n` jobs. -/
def Open (en : Bool) (mem : JobMemory) (verdict : JobKey → Bool) (launched : Bench) (n : ℕ)
    (b : Bench) : Prop :=
  ∃ sb, Accounted en sb n b ∧ Faithful mem verdict launched sb b

/-- One cycle of a batch. -/
theorem Open.step (h : Open en mem verdict launched n b) (hi : Steady mem verdict i) :
    Open en mem verdict launched n (step en i b) ∨ Over mem verdict launched n (step en i b) ∨
      i.config.jobTimeoutCycles ≠ 0 ∧ TimedOut (step en i b) := by
  obtain ⟨sb, ha, hf⟩ := h
  have hretired := hf.retire ha hi
  have hprefetch := ha.accounts.prefetch
  have hlow0 : (retire en (coreInputs i b) b.core).engine0.startPulse = false :=
    freeSlot_startPulse _ _ _
  have hlow1 : (retire en (coreInputs i b) b.core).engine1.startPulse = false :=
    freeSlot_startPulse _ _ _
  have hlive : (Bench.step en i b).core.verifierAbort = false →
      (Bench.step en i b).live0 = (Bench.step en i b).engine0 ∧
        (Bench.step en i b).live1 = (Bench.step en i b).engine1 := by
    intro habort
    exact ⟨visible_of_abort habort, visible_of_abort habort⟩
  cases ha.step hi.softReset with
  | timeout _ _ enabled core parked =>
      exact Or.inr (Or.inr ⟨enabled, by rw [core]; rfl, by rw [core]; rfl, parked⟩)
  | complete all core parked =>
      refine Or.inr (Or.inl ?_)
      obtain ⟨hhanded, -, hfinished⟩ :=
        Scoreboard.finished_eq_range (ha.retire (i := i)).prefetch.le all
      obtain ⟨hstarted, hcompleted, hcompletions, hmask⟩ := hretired.tallied
      rw [hhanded] at hstarted
      rw [all] at hcompleted hcompletions
      rw [hfinished] at hmask
      have hlogged := hretired.logged_handed hlow0 hlow1
      rw [hhanded] at hlogged
      exact ⟨by rw [core]; rfl, by rw [core]; rfl, parked, by rw [core]; exact hmask,
        by rw [core]; exact hstarted, by rw [core]; exact hcompleted, hcompletions, hlogged⟩
  | hand0 shadow core next =>
      refine Or.inl ⟨_, next, ?_⟩
      obtain ⟨hlive0, hlive1⟩ := hlive (by rw [core, afterDispatch_verifierAbort]; rfl)
      rw [Faithful, hlive0, hlive1, core]
      exact hretired.hand0 hprefetch (hf.loading.ready shadow) shadow
        (hprefetch.retire_idle shadow) rfl hlow0 hlow1
  | hand1 shadow core next =>
      refine Or.inl ⟨_, next, ?_⟩
      obtain ⟨hlive0, hlive1⟩ := hlive (by rw [core, afterDispatch_verifierAbort]; rfl)
      rw [Faithful, hlive0, hlive1, core]
      exact hretired.hand1 hprefetch (hf.loading.ready shadow) shadow
        (hprefetch.retire_idle shadow) rfl hlow0 hlow1
  | wait taken core next =>
      refine Or.inl ⟨_, next, ?_⟩
      obtain ⟨hlive0, hlive1⟩ := hlive (by rw [core]; rfl)
      rw [Faithful, hlive0, hlive1, core]
      exact hretired

/-- The batch is open right after its launch. -/
theorem Launches.opens (h : Launches i b) (hwhen : i.softReset = true ∨ Parked b) :
    Open en mem verdict (step en i b) (dispatchJobCount i.config).toNat (step en i b) := by
  refine ⟨Scoreboard.empty, h.accounted hwhen, ?_⟩
  obtain ⟨hquiet0, hquiet1⟩ := start_quiet en h.1 hwhen
  obtain ⟨m, -, hcore⟩ := core_start en h.1 h.2.1
  rw [launchBatch_of_launchable h.2.2] at hcore
  have hslot0 : (step en i b).core.engine0 = emptySlot := by
    rw [hcore]
    rfl
  have hslot1 : (step en i b).core.engine1 = emptySlot := by
    rw [hcore]
    rfl
  have hcarries : ∀ e : Engine, e.Quiet → Carries mem verdict emptySlot e := by
    intro e hquiet
    refine ⟨fun hbusy => absurd hbusy Bool.false_ne_true,
      fun hbusy _ => absurd hbusy Bool.false_ne_true, ?_⟩
    intro hdone
    rw [hquiet.2] at hdone
    contradiction
  refine ⟨⟨?_, ?_, rfl, ?_⟩, ⟨?_, ?_, ?_⟩, ?_, ?_, 0, ⟨[], (List.append_nil _).symm, rfl⟩, ?_, ?_, ?_⟩
  · exact (BitVec.add_zero _).symm
  · exact (BitVec.add_zero _).symm
  · intro j
    rw [hcore]
    simp [kickLoader, clearLiveState, Scoreboard.finished, Scoreboard.empty]
  · intro _ w hw
    rw [hcore] at hw
    exact absurd hw (Nat.not_lt_zero w)
  · rw [hcore]
    simp [kickLoader]
  · rw [hcore]
    intro hvalid
    exact absurd hvalid Bool.false_ne_true
  · rw [hslot0]
    exact hcarries _ hquiet0
  · rw [hslot1]
    exact hcarries _ hquiet1
  · rw [hslot0]
    exact Keeps.pulses_of_low rfl
  · rw [hslot1]
    exact Keeps.pulses_of_low rfl
  · rw [hslot0, hslot1]
    rfl

/-! ### The batch ends -/

/-- The cycles an engine still takes to report. -/
def engineToGo (e : Engine) : ℕ :=
  match e.remaining with
  | none => 0
  | some r => r + 1

/-- The cycles until the shadow slot is filled, and one more for the dispatch. -/
def loadToGo (s : State) : ℕ :=
  match s.loaderState with
  | .idle => s.shadowValid.toNat
  | .req => 3 * (24 - s.loadWordIndex.toNat) + 1
  | .wait => 3 * (24 - s.loadWordIndex.toNat)
  | .capture => 3 * (24 - s.loadWordIndex.toNat) - 1

/-- What falls, lexicographically, in every cycle of a batch. -/
def toGo (b : Bench) : ℕ ×ₗ ℕ ×ₗ ℕ ×ₗ ℕ ×ₗ ℕ :=
  toLex (b.core.scheduledJobCount.toNat - b.core.batchCompletedCount.toNat,
    toLex (b.core.scheduledJobCount.toNat - b.core.nextLoadJobIndex.toNat,
      toLex (loadToGo b.core,
        toLex (b.core.engine0.startPulse.toNat + b.core.engine1.startPulse.toNat,
          engineToGo b.live0 + engineToGo b.live1))))

/-- A loader at work gets on. -/
theorem loadToGo_retire {s : State} {d : ℕ} {i : SigvKv260Core.Inputs} (hp : Prefetch d n s)
    (hload : s.loaderState ≠ .idle) : loadToGo (retire en i s) < loadToGo s := by
  have hword := hp.word
  have hvalid := hp.not_shadowValid hload
  cases hstate : s.loaderState with
  | idle => exact absurd hstate hload
  | req =>
      have hnext := @stepLoader_req i s hstate
      simp only [loadToGo, retire, hnext, hstate]
      omega
  | wait =>
      have hnext := @stepLoader_wait i s hstate
      simp only [loadToGo, retire, hnext, hstate]
      omega
  | capture =>
      by_cases hlast : s.loadWordIndex = jobLastWordIndex
      · have hnext := @stepLoader_last i s hstate hlast
        simp only [loadToGo, retire, hnext, hstate, Bool.toNat_true]
        omega
      · have hnext := @stepLoader_next i s hstate hlast
        have hone : (1 : BitVec 5).toNat = 1 := rfl
        simp only [loadToGo, retire, hnext, hstate]
        rw [BitVec.toNat_add_of_lt (by omega)]
        omega

/-- An engine at work gets on, and a quiet one stays quiet. -/
theorem engineToGo_step {slot : Slot} {e : Engine} {abort : Bool} {latency : ℕ}
    (ha : Attends slot (e.visible abort)) (hstart : slot.startPulse = false)
    (hdone : (e.visible abort).out.done = false) :
    engineToGo (stepEngine abort slot verdict latency e) + slot.busySlot.toNat ≤
      engineToGo (e.visible abort) := by
  cases abort with
  | true =>
      cases hbusy : slot.busySlot with
      | false => exact Nat.le_refl _
      | true =>
          rw [Attends, hbusy, hstart] at ha
          exact absurd (show false = true from ha) Bool.false_ne_true
  | false =>
      show engineToGo (e.step slot.startPulse (verdict slot.key) latency) + _ ≤ engineToGo e
      cases hbusy : slot.busySlot with
      | false =>
          have hremaining : e.remaining = none := (ha.of_free hbusy).2.1
          simp [engineToGo, Engine.step, hstart, hremaining]
      | true =>
          rw [Attends, hbusy, hstart] at ha
          have hactive : e.out.done = e.remaining.isNone := ha
          have hlow : e.out.done = false := hdone
          rw [hlow] at hactive
          cases hremaining : e.remaining with
          | none =>
              rw [hremaining] at hactive
              contradiction
          | some r =>
              cases r with
              | zero => simp [engineToGo, Engine.step, hstart, hremaining]
              | succ r => simp [engineToGo, Engine.step, hstart, hremaining]

/-- A running batch with nothing to load has a job in a slot. -/
theorem Accounted.busy_of_drained (ha : Accounted en sb n b)
    (hidle : b.core.loaderState = .idle) (hvalid : b.core.shadowValid = false) :
    b.core.engine0.busySlot = true ∨ b.core.engine1.busySlot = true := by
  by_contra hfree
  rw [not_or, Bool.not_eq_true, Bool.not_eq_true] at hfree
  have hprefetch := ha.accounts.prefetch
  have hdrained : sb.handed = n := by
    by_contra hne
    have hready := (hprefetch.shadow (Nat.lt_of_le_of_ne hprefetch.le hne)).2.1.mp hidle
    rw [hvalid] at hready
    contradiction
  have hempty : sb.inFlight = ∅ := by
    rw [ha.accounts.inFlight, jobsOf, jobsOf, hfree.1, hfree.2]
    rfl
  have hcard := sb.card_finished
  have hunfinished := ha.unfinished
  rw [hempty, Finset.card_empty] at hcard
  omega

/-- The open jobs of a batch. -/
theorem Accounted.openJobs (ha : Accounted en sb n b) :
    b.core.scheduledJobCount.toNat - b.core.batchCompletedCount.toNat = n - sb.finished.card := by
  rw [ha.accounts.prefetch.scheduled, ha.accounts.counted]

/-- What is reported counts. -/
theorem Accounted.card_finish (ha : Accounted en sb n b) :
    (sb.finish b.reported).finished.card = sb.finished.card + b.reported.card :=
  Scoreboard.card_finished_finish ha.accounts.reports_subset

/-- Without a report the open jobs stay. -/
theorem Accounted.openJobs_eq {b' : Bench} {sb' : Scoreboard} (ha : Accounted en sb n b)
    (ha' : Accounted en sb' n b') (hfinished : sb'.finished = (sb.finish b.reported).finished)
    (hnone : b.reported = ∅) :
    b'.core.scheduledJobCount.toNat - b'.core.batchCompletedCount.toNat =
      b.core.scheduledJobCount.toNat - b.core.batchCompletedCount.toNat := by
  rw [ha.openJobs, ha'.openJobs, hfinished, ha.card_finish, hnone, Finset.card_empty,
    Nat.add_zero]

/-- Nothing reported: neither engine is done. -/
theorem Accounted.quiet_of_reported (ha : Accounted en sb n b) (hnone : b.reported = ∅) :
    b.live0.out.done = false ∧ b.live1.out.done = false := by
  have hcard : b.reported.card = b.live0.out.done.toNat + b.live1.out.done.toNat :=
    ha.accounts.card_reports
  rw [hnone, Finset.card_empty] at hcard
  constructor
  · cases h : b.live0.out.done with
    | false => rfl
    | true =>
        rw [h, Bool.toNat_true] at hcard
        omega
  · cases h : b.live1.out.done with
    | false => rfl
    | true =>
        rw [h, Bool.toNat_true] at hcard
        omega

/-- The part of `toGo` that the registers alone decide. -/
def outstanding (s : State) : ℕ ×ₗ ℕ ×ₗ ℕ :=
  toLex (s.scheduledJobCount.toNat - s.batchCompletedCount.toNat,
    toLex (s.scheduledJobCount.toNat - s.nextLoadJobIndex.toNat, loadToGo s))

theorem toGo_lt_of_outstanding {b' : Bench} (h : outstanding b'.core < outstanding b.core) :
    toGo b' < toGo b := by
  refine Prod.Lex.toLex_lt_toLex.mpr ?_
  rcases Prod.Lex.toLex_lt_toLex.mp h with hopen | ⟨hopen, hrest⟩
  · exact Or.inl hopen
  · refine Or.inr ⟨hopen, Prod.Lex.toLex_lt_toLex.mpr ?_⟩
    rcases Prod.Lex.toLex_lt_toLex.mp hrest with hunloaded | ⟨hunloaded, hload⟩
    · exact Or.inl hunloaded
    · exact Or.inr ⟨hunloaded, Prod.Lex.toLex_lt_toLex.mpr (Or.inl hload)⟩

/-- Completions lower the number of open jobs. -/
theorem outstanding_lt_of_reported {b' : Bench} {sb' : Scoreboard} (ha : Accounted en sb n b)
    (ha' : Accounted en sb' n b') (hfinished : sb'.finished = (sb.finish b.reported).finished)
    (hsome : b.reported ≠ ∅) : outstanding b'.core < outstanding b.core := by
  refine Prod.Lex.toLex_lt_toLex.mpr (Or.inl ?_)
  show b'.core.scheduledJobCount.toNat - b'.core.batchCompletedCount.toNat <
    b.core.scheduledJobCount.toNat - b.core.batchCompletedCount.toNat
  rw [ha.openJobs, ha'.openJobs, hfinished, ha.card_finish]
  have hpos : 0 < b.reported.card := Finset.card_pos.mpr (Finset.nonempty_iff_ne_empty.mpr hsome)
  have hunfinished := ha.unfinished
  omega

/-- A dispatch without completions lowers the number of unloaded jobs, or empties
the shadow slot for good. -/
theorem outstanding_lt_of_hand {b' : Bench} {sb' : Scoreboard} (ha : Accounted en sb n b)
    (ha' : Accounted en sb' n b') (hfinished : sb'.finished = (sb.finish b.reported).finished)
    (hhanded : sb'.handed = sb.handed + 1) (hvalid : b.core.shadowValid = true)
    (hnone : b.reported = ∅) : outstanding b'.core < outstanding b.core := by
  have hprefetch := ha.accounts.prefetch
  have hprefetch' := ha'.accounts.prefetch
  have hlt := hprefetch.lt_of_shadowValid hvalid
  have hload : b.core.loaderState = .idle := (hprefetch.shadow hlt).2.1.mpr hvalid
  have hopen := ha.openJobs_eq ha' hfinished hnone
  refine Prod.Lex.toLex_lt_toLex.mpr (Or.inr ⟨hopen, ?_⟩)
  have hnext := hprefetch.next
  have hnext' := hprefetch'.next
  rw [hhanded] at hnext'
  have hsched := hprefetch.scheduled
  have hsched' := hprefetch'.scheduled
  by_cases hmore : sb.handed + 1 < n
  · refine Prod.Lex.toLex_lt_toLex.mpr (Or.inl ?_)
    show b'.core.scheduledJobCount.toNat - b'.core.nextLoadJobIndex.toNat <
      b.core.scheduledJobCount.toNat - b.core.nextLoadJobIndex.toNat
    omega
  · have hunloaded : b'.core.scheduledJobCount.toNat - b'.core.nextLoadJobIndex.toNat =
        b.core.scheduledJobCount.toNat - b.core.nextLoadJobIndex.toNat := by omega
    refine Prod.Lex.toLex_lt_toLex.mpr (Or.inr ⟨hunloaded, ?_⟩)
    have hdrained := hprefetch'.drained (by omega)
    show loadToGo b'.core < loadToGo b.core
    simp [loadToGo, hdrained.1, hdrained.2, hload, hvalid]

/-- What a cycle of a batch under way leaves to do: less, or the same while every
job that could be handed out waits for an engine. -/
theorem Accounted.outstanding_step {sb' : Scoreboard} (ha : Accounted en sb n b)
    (ha' : Accounted en sb' n (Bench.step en i b)) (hreset : i.softReset = false) :
    outstanding (Bench.step en i b).core < outstanding b.core ∨
      outstanding (Bench.step en i b).core = outstanding b.core ∧ b.reported = ∅ ∧
        (Bench.step en i b).core = SigvKv260Core.retire en (coreInputs i b) b.core ∧
        (b.core.engine0.busySlot = true ∨ b.core.engine1.busySlot = true) := by
  have hrunning := ha'.accounts.running
  cases ha.step hreset with
  | timeout _ _ _ _ parked =>
      rw [parked.idle] at hrunning
      contradiction
  | complete _ _ parked =>
      rw [parked.idle] at hrunning
      contradiction
  | hand0 shadow core next =>
      by_cases hnone : b.reported = ∅
      · exact Or.inl (outstanding_lt_of_hand ha next Scoreboard.finished_hand rfl shadow hnone)
      · exact Or.inl (outstanding_lt_of_reported ha next Scoreboard.finished_hand hnone)
  | hand1 shadow core next =>
      by_cases hnone : b.reported = ∅
      · exact Or.inl (outstanding_lt_of_hand ha next Scoreboard.finished_hand rfl shadow hnone)
      · exact Or.inl (outstanding_lt_of_reported ha next Scoreboard.finished_hand hnone)
  | wait taken core next =>
      by_cases hnone : b.reported = ∅
      · have hopen := ha.openJobs_eq next rfl hnone
        have hunloaded : (Bench.step en i b).core.scheduledJobCount.toNat -
              (Bench.step en i b).core.nextLoadJobIndex.toNat =
            b.core.scheduledJobCount.toNat - b.core.nextLoadJobIndex.toNat := by
          rw [core]
          rfl
        by_cases hload : b.core.loaderState = .idle
        · refine Or.inr ⟨?_, hnone, core, ?_⟩
          · have hsame : loadToGo (Bench.step en i b).core = loadToGo b.core := by
              rw [core]
              simp only [loadToGo, SigvKv260Core.retire, stepLoader, hload]
            rw [outstanding, hopen, hunloaded, hsame]
            rfl
          · cases hvalid : b.core.shadowValid with
            | false => exact ha.busy_of_drained hload hvalid
            | true =>
                have hretired := taken hvalid
                rw [SigvKv260Core.retire, freeSlot_busySlot, Bool.and_eq_true] at hretired
                exact Or.inl hretired.1
        · refine Or.inl (Prod.Lex.toLex_lt_toLex.mpr (Or.inr ⟨hopen,
            Prod.Lex.toLex_lt_toLex.mpr (Or.inr ⟨hunloaded, ?_⟩)⟩))
          show loadToGo (Bench.step en i b).core < loadToGo b.core
          rw [core]
          exact loadToGo_retire ha.accounts.prefetch hload
      · exact Or.inl (outstanding_lt_of_reported ha next rfl hnone)

/-- With nothing to hand out, a start or an engine gets on. -/
theorem toGo_lt_of_wait (ha : Accounted en sb n b)
    (hsame : outstanding (step en i b).core = outstanding b.core) (hnone : b.reported = ∅)
    (hcore : (step en i b).core = retire en (coreInputs i b) b.core)
    (hbusy : b.core.engine0.busySlot = true ∨ b.core.engine1.busySlot = true) :
    toGo (step en i b) < toGo b := by
  have hlow0 : (step en i b).core.engine0.startPulse = false := by
    rw [hcore]
    exact freeSlot_startPulse _ _ _
  have hlow1 : (step en i b).core.engine1.startPulse = false := by
    rw [hcore]
    exact freeSlot_startPulse _ _ _
  have habort : (step en i b).core.verifierAbort = false := by
    rw [hcore]
    rfl
  obtain ⟨hopen, hrest⟩ := Prod.mk.inj (congrArg ofLex hsame)
  obtain ⟨hunloaded, hload⟩ := Prod.mk.inj (congrArg ofLex hrest)
  refine Prod.Lex.toLex_lt_toLex.mpr (Or.inr ⟨hopen, Prod.Lex.toLex_lt_toLex.mpr
    (Or.inr ⟨hunloaded, Prod.Lex.toLex_lt_toLex.mpr (Or.inr ⟨hload, ?_⟩)⟩)⟩)
  by_cases hpulse : b.core.engine0.startPulse = true ∨ b.core.engine1.startPulse = true
  · refine Prod.Lex.toLex_lt_toLex.mpr (Or.inl ?_)
    show (step en i b).core.engine0.startPulse.toNat + (step en i b).core.engine1.startPulse.toNat
      < b.core.engine0.startPulse.toNat + b.core.engine1.startPulse.toNat
    rw [hlow0, hlow1]
    rcases hpulse with h | h
    · rw [h, Bool.toNat_true]
      exact Nat.lt_of_lt_of_le Nat.zero_lt_one (Nat.le_add_right _ _)
    · rw [h, Bool.toNat_true]
      exact Nat.succ_pos _
  · rw [not_or, Bool.not_eq_true, Bool.not_eq_true] at hpulse
    obtain ⟨hpulse0, hpulse1⟩ := hpulse
    refine Prod.Lex.toLex_lt_toLex.mpr (Or.inr ⟨?_, ?_⟩)
    · show (step en i b).core.engine0.startPulse.toNat +
        (step en i b).core.engine1.startPulse.toNat = _
      rw [hlow0, hlow1, hpulse0, hpulse1]
    · obtain ⟨hdone0, hdone1⟩ := ha.quiet_of_reported hnone
      have hstep0 : engineToGo (step en i b).engine0 + b.core.engine0.busySlot.toNat ≤
          engineToGo b.live0 := engineToGo_step ha.accounts.attends0 hpulse0 hdone0
      have hstep1 : engineToGo (step en i b).engine1 + b.core.engine1.busySlot.toNat ≤
          engineToGo b.live1 := engineToGo_step ha.accounts.attends1 hpulse1 hdone1
      show engineToGo (step en i b).live0 + engineToGo (step en i b).live1 <
        engineToGo b.live0 + engineToGo b.live1
      rw [show (step en i b).live0 = (step en i b).engine0 from visible_of_abort habort,
        show (step en i b).live1 = (step en i b).engine1 from visible_of_abort habort]
      have hcount : 1 ≤ b.core.engine0.busySlot.toNat + b.core.engine1.busySlot.toNat := by
        rcases hbusy with h | h <;> simp [h]
      omega

/-- As long as the batch is under way, every cycle brings it closer to its end. -/
theorem Accounted.toGo_lt {sb' : Scoreboard} (ha : Accounted en sb n b)
    (ha' : Accounted en sb' n (Bench.step en i b)) (hreset : i.softReset = false) :
    toGo (Bench.step en i b) < toGo b := by
  rcases ha.outstanding_step ha' hreset with hlt | ⟨hsame, hnone, hcore, hbusy⟩
  · exact toGo_lt_of_outstanding hlt
  · exact toGo_lt_of_wait ha hsame hnone hcore hbusy

/-- Without a watchdog a batch that is open ends. -/
theorem Open.ends (h : Open en mem verdict launched n b) {inputs : ℕ → Inputs}
    (hinputs : ∀ k, Steady mem verdict (inputs k) ∧ (inputs k).config.jobTimeoutCycles = 0) :
    ∃ T, Over mem verdict launched n (Clocked.run (Bench.step en) inputs b (T + 1)) ∧
      ∀ k ≤ T, Open en mem verdict launched n (Clocked.run (Bench.step en) inputs b k) := by
  have hstep : ∀ (i : Inputs) (b : Bench), Steady mem verdict i ∧ i.config.jobTimeoutCycles = 0 →
      Open en mem verdict launched n b →
      Over mem verdict launched n (Bench.step en i b) ∨
        Open en mem verdict launched n (Bench.step en i b) ∧
          toGo (Bench.step en i b) < toGo b := by
    intro i b hi hopen
    rcases hopen.step hi.1 with hnext | hover | ⟨htimeout, -⟩
    · obtain ⟨sb, ha, -⟩ := hopen
      obtain ⟨sb', ha', -⟩ := id hnext
      exact Or.inr ⟨hnext, ha.toGo_lt ha' hi.1.softReset⟩
    · exact Or.inl hover
    · exact absurd hi.2 htimeout
  exact Clocked.run_until toGo hstep hinputs h

/-- An open batch is not done: a job is missing. -/
theorem Open.not_done (h : Open en mem verdict launched n b) :
    b.core.done = false ∧ b.completions < launched.completions + n := by
  obtain ⟨sb, ha, hf⟩ := h
  refine ⟨ha.accounts.underWay.2, ?_⟩
  rw [hf.tallied.completions]
  exact Nat.add_lt_add_left ha.unfinished _

/-- Every accepted batch ends, whatever the engines' latencies: `done` rises in the
cycle after the last completion, every job has been handed out once, in order and
with its own key, and every verdict stands at its job's bit. -/
theorem batch_ends (en : Bool) (mem : JobMemory) (verdict : JobKey → Bool) (b : Bench)
    (inputs : ℕ → Inputs) (hb : Reachable en b) (hlaunch : Launches (inputs 0) b)
    (hinputs : ∀ k, Steady mem verdict (inputs (k + 1)) ∧
      (inputs (k + 1)).config.jobTimeoutCycles = 0) :
    let after := Clocked.run (step en) inputs b
    let n := (after 1).core.acceptedJobCount.toNat
    ∃ T, Over mem verdict (after 1) n (after (T + 2)) ∧
      ∀ k ≤ T, (after (k + 1)).core.done = false ∧
        (after (k + 1)).completions < (after 1).completions + n := by
  intro after n
  have hopen : Open en mem verdict (after 1) (dispatchJobCount (inputs 0).config).toNat (after 1) :=
    hlaunch.opens (hlaunch.2.1.imp_right hb.settled.parked)
  have hn : n = (dispatchJobCount (inputs 0).config).toNat := by
    obtain ⟨sb, ha, -⟩ := hopen
    rw [← ha.accounts.prefetch.scheduled, ← ha.accounts.accepted]
  rw [← hn] at hopen
  have hrun : ∀ k, after (k + 1) = Clocked.run (step en) (fun k => inputs (k + 1)) (after 1) k := by
    intro k
    exact Clocked.run_succ' k
  obtain ⟨T, hover, hbefore⟩ := hopen.ends hinputs
  refine ⟨T, (hrun (T + 1)).symm ▸ hover, ?_⟩
  intro k hk
  rw [hrun]
  exact (hbefore k hk).not_done

/-- One job, two engines, every verdict true: bit 0 of the mask comes up. -/
theorem batch_ends_one_job :
    ∃ T, ∃ b : Bench, b = Clocked.run (step true)
        (fun k => ⟨k = 0, false, ⟨0, 1, 0, 0, 0⟩, 5, 5, fun _ => true, fun _ => 0⟩) (reset 0) T ∧
      b.core.done = true ∧ b.core.resultMask.getLsbD 0 = true ∧ b.completions = 1 := by
  obtain ⟨T, hover, -⟩ := batch_ends true (fun _ => 0) (fun _ => true) (reset 0)
    (fun k => ⟨k = 0, false, ⟨0, 1, 0, 0, 0⟩, 5, 5, fun _ => true, fun _ => 0⟩)
    ⟨0, fun _ => ⟨false, false, ⟨0, 0, 0, 0, 0⟩, 0, 0, fun _ => true, fun _ => 0⟩, 0, rfl⟩
    ⟨rfl, Or.inr rfl, by decide, by decide, by decide⟩ fun k => ⟨⟨rfl, rfl, rfl⟩, rfl⟩
  exact ⟨T + 2, _, rfl, hover.done, (hover.mask 0).trans rfl, hover.completions⟩

end Bench

end Kv260Sigv
