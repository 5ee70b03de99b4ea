import Kv260Sigv.Rtl.SigvKv260BringupCore
import Kv260Sigv.System.Batch
import Kv260Sigv.System.CoreCycle

/-!
# One control contract, two cores

What a host sees of a core that has settled is a function of the commands it was given:
`Contract.command`.  The full core follows it in as many cycles as the engines take, the
bring-up core in one; while a batch is under way, `conclude` reads off the registers what
the core will show in the end, and every cycle keeps that.  Both cores therefore agree
whenever neither is busy.
-/

set_option autoImplicit false

namespace Kv260Sigv

open SigvKv260Core

/-! ### The contract -/

instance (c : Config) : Decidable c.Launchable :=
  inferInstanceAs (Decidable (_ ∧ _ ∧ _))

/-- The jobs a batch takes: the dispatch limit caps them, unless it is zero. -/
def Config.taken (c : Config) : ℕ :=
  if c.dispatchLimit = 0 then c.requestedJobCount.toNat
  else min c.requestedJobCount.toNat c.dispatchLimit.toNat

/-- The control registers that both cores have. -/
@[ext]
structure Contract where
  busy : Bool
  done : Bool
  error : Bool
  resultValid : Bool
  errorCode : BitVec 8
  acceptedJobCount : BitVec 8
  jobsStarted : BitVec 32
  jobsCompleted : BitVec 32
  jobsDropped : BitVec 32
  batchId : BitVec 32
  snapshot : Snapshot
  deriving DecidableEq, Repr

namespace Contract

/-- No outcome, and counters at zero if asked. -/
def clear (counters : Bool) (v : Contract) : Contract where
  busy := false
  done := false
  error := false
  resultValid := false
  errorCode := errNone
  acceptedJobCount := 0
  jobsStarted := if counters then 0 else v.jobsStarted
  jobsCompleted := if counters then 0 else v.jobsCompleted
  jobsDropped := if counters then 0 else v.jobsDropped
  batchId := v.batchId
  snapshot := v.snapshot

/-- A batch with this identifier is over: `n` of its jobs were done, `dropped` left out. -/
def succeed (id : BitVec 32) (n dropped : ℕ) (v : Contract) : Contract where
  busy := false
  done := true
  error := false
  resultValid := true
  errorCode := errNone
  acceptedJobCount := BitVec.ofNat 8 n
  jobsStarted := v.jobsStarted + BitVec.ofNat 32 n
  jobsCompleted := v.jobsCompleted + BitVec.ofNat 32 n
  jobsDropped := v.jobsDropped + BitVec.ofNat 32 dropped
  batchId := id
  snapshot := ⟨id, BitVec.ofNat 8 n, v.jobsCompleted + BitVec.ofNat 32 n,
    v.jobsDropped + BitVec.ofNat 32 dropped, false, true, errNone⟩

/-- The launch of a batch with this identifier was refused. -/
def refuse (id : BitVec 32) (code : BitVec 8) (v : Contract) : Contract :=
  { v with
    done := true
    error := true
    errorCode := code
    batchId := id
    snapshot := ⟨id, 0, 0, 0, true, false, code⟩ }

/-- What a launch leads to. -/
def launch (counters : Bool) (c : Config) (v : Contract) : Contract :=
  if c.Launchable then
    (v.clear counters).succeed (v.batchId + 1) c.taken (c.requestedJobCount.toNat - c.taken)
  else (v.clear counters).refuse (v.batchId + 1) (refusalCode c)

/-- What `START`, `SOFT_RESET`, `RESET_THEN_START` and no command lead to. -/
def command (start softReset : Bool) (c : Config) (v : Contract) : Contract :=
  if start then v.launch softReset c else if softReset then v.clear true else v

end Contract

theorem Config.taken_le (c : Config) : c.taken ≤ c.requestedJobCount.toNat := by
  unfold taken
  split
  · exact le_rfl
  · exact Nat.min_le_left _ _

theorem Config.Launchable.toNat_le {c : Config} (h : c.Launchable) :
    c.requestedJobCount.toNat ≤ 255 := h.2.2

/-! ### The full core -/

namespace SigvKv260Core

variable {c : Config}

theorem toNat_requestedJobCountU8 (h : c.Launchable) :
    (requestedJobCountU8 c).toNat = c.requestedJobCount.toNat := by
  have hle := h.toNat_le
  rw [requestedJobCountU8, BitVec.toNat_setWidth, Nat.mod_eq_of_lt (by omega)]

/-- The dispatch split of the full core. -/
theorem toNat_dispatchJobCount (h : c.Launchable) : (dispatchJobCount c).toNat = c.taken := by
  have hle := h.toNat_le
  have hcount := toNat_requestedJobCountU8 h
  have hlimit : (dispatchLimitEffective c).toNat =
      if c.dispatchLimit = 0 then 255 else c.dispatchLimit.toNat := by
    unfold dispatchLimitEffective
    split <;> rfl
  have hgt : requestedJobCountU8 c > dispatchLimitEffective c ↔
      (dispatchLimitEffective c).toNat < (requestedJobCountU8 c).toNat := Iff.rfl
  unfold dispatchJobCount Config.taken
  rw [apply_ite BitVec.toNat]
  simp only [hgt, hlimit, hcount]
  split <;> split <;> omega

theorem toNat_dispatchDroppedCount (h : c.Launchable) :
    (dispatchDroppedCount c).toNat = c.requestedJobCount.toNat - c.taken := by
  have hle := c.taken_le
  rw [dispatchDroppedCount, BitVec.toNat_sub_of_le, toNat_requestedJobCountU8 h,
    toNat_dispatchJobCount h]
  show (dispatchJobCount c).toNat ≤ (requestedJobCountU8 c).toNat
  rw [toNat_requestedJobCountU8 h, toNat_dispatchJobCount h]
  exact hle

/-- What the host sees of the core. -/
def contract (s : State) : Contract :=
  ⟨s.busy, s.done, s.error, s.resultValid, s.errorCode, s.acceptedJobCount, s.jobsStarted,
    s.jobsCompleted, s.jobsDropped, s.batchId, s.snapshot⟩

/-- What the core will show when a batch is over of which so many jobs are still to be
handed out, and so many to complete. -/
def conclude (toHand toFinish : ℕ) (s : State) : Contract where
  busy := false
  done := true
  error := false
  resultValid := true
  errorCode := errNone
  acceptedJobCount := s.acceptedJobCount
  jobsStarted := s.jobsStarted + BitVec.ofNat 32 toHand
  jobsCompleted := s.jobsCompleted + BitVec.ofNat 32 toFinish
  jobsDropped := s.jobsDropped
  batchId := s.batchId
  snapshot := ⟨s.batchId, s.acceptedJobCount, s.jobsCompleted + BitVec.ofNat 32 toFinish,
    s.jobsDropped, false, true, errNone⟩

variable {en : Bool} {i : Inputs} {s s' : State}

/-- What is done in a cycle need no longer be done. -/
theorem conclude_congr {toHand toFinish toHand' toFinish' : ℕ} (h : SameOutcome s s')
    (hstarted : s'.jobsStarted + BitVec.ofNat 32 toHand' = s.jobsStarted + BitVec.ofNat 32 toHand)
    (hcompleted : s'.jobsCompleted + BitVec.ofNat 32 toFinish' =
      s.jobsCompleted + BitVec.ofNat 32 toFinish) :
    conclude toHand' toFinish' s' = conclude toHand toFinish s := by
  rw [conclude, conclude, h.acceptedJobCount, h.jobsDropped, h.batchId, hstarted, hcompleted]

/-- A refused launch settles at once. -/
theorem contract_of_refuses (en : Bool) (h : Refuses i s) :
    contract (step en i s) = (contract s).command true i.softReset i.config := by
  obtain ⟨m, hm, hstep⟩ := step_of_refuses en h
  rw [hstep, Contract.command, if_pos rfl, Contract.launch, if_neg h.2]
  simp only [contract, rejectLaunch, clearLiveState, Contract.refuse, Contract.clear,
    hm.jobsStarted, hm.jobsCompleted, hm.jobsDropped]

/-- An accepted launch has all its jobs before it. -/
theorem conclude_of_accepts (en : Bool) (h : Accepts i s) :
    conclude i.config.taken i.config.taken (step en i s) =
      (contract s).command true i.softReset i.config := by
  obtain ⟨m, hm, hstep⟩ := step_of_starts en h.1
  have hcount : dispatchJobCount i.config = BitVec.ofNat 8 i.config.taken := by
    rw [← toNat_dispatchJobCount h.2, BitVec.ofNat_toNat, BitVec.setWidth_eq]
  have hdropped : (dispatchDroppedCount i.config).setWidth 32 =
      BitVec.ofNat 32 (i.config.requestedJobCount.toNat - i.config.taken) := by
    rw [← toNat_dispatchDroppedCount h.2, BitVec.ofNat_toNat]
  rw [hstep, Bench.launchBatch_of_launchable h.2, Contract.command, if_pos rfl, Contract.launch,
    if_pos h.2]
  cases i.softReset with
  | true =>
      simp [conclude, kickLoader, clearLiveState, Contract.succeed, Contract.clear, contract,
        hcount, hdropped]
  | false =>
      simp [conclude, kickLoader, clearLiveState, Contract.succeed, Contract.clear, contract,
        hcount, hdropped, hm.jobsStarted, hm.jobsCompleted]

/-- A soft reset settles at once. -/
theorem contract_of_resets (hreset : i.softReset = true) (hstart : i.start = false) :
    contract (step en i s) = (contract s).command false true i.config := by
  rw [step_of_resets hreset hstart]
  rfl

/-- Nothing settles what is settled. -/
theorem contract_of_rests (h : Orderly s) (hidle : s.state = .idle) (hreset : i.softReset = false)
    (hstart : i.start = false) : contract (step en i s) = contract s := by
  rw [step_of_rests hidle (h.loader hidle).1 hreset hstart]
  rfl

end SigvKv260Core

namespace Bench

variable {en : Bool} {i : Inputs} {b : Bench} {sb : Scoreboard} {n : ℕ}

/-- A batch under way that will show `v`. -/
def Promises (en : Bool) (v : Contract) (b : Bench) : Prop :=
  ∃ sb n, Accounted en sb n b ∧ conclude (n - sb.handed) (n - sb.finished.card) b.core = v

/-- One cycle of a batch under way, without a watchdog. -/
theorem Promises.step {v : Contract} (h : Promises en v b) (hreset : i.softReset = false)
    (hoff : i.config.jobTimeoutCycles = 0) :
    Promises en v (Bench.step en i b) ∨
      (Bench.step en i b).core.state = .idle ∧ contract (Bench.step en i b).core = v := by
  obtain ⟨sb, n, ha, rfl⟩ := h
  have hretired := ha.accounts.retire_jobsCompleted (i := coreInputs i b) rfl rfl
  have hcard := ha.card_finish
  have hle := (sb.finish b.reported).card_finished
  have hnext := (ha.retire (i := i)).prefetch.le
  have hcompleted : ∀ s' : State,
      s'.jobsCompleted = (retire en (coreInputs i b) b.core).jobsCompleted →
      s'.jobsCompleted + BitVec.ofNat 32 (n - (sb.finish b.reported).finished.card) =
        b.core.jobsCompleted + BitVec.ofNat 32 (n - sb.finished.card) := by
    intro s' hs'
    rw [hs', hretired, BitVec.add_assoc, ← BitVec.ofNat_add]
    congr 2
    show b.reported.card + _ = _
    omega
  have hstarted : ∀ m : State, sb.handed + 1 ≤ n →
      (afterDispatch b.core m).jobsStarted + BitVec.ofNat 32 (n - (sb.handed + 1)) =
        b.core.jobsStarted + BitVec.ofNat 32 (n - sb.handed) := by
    intro m hlt
    rw [afterDispatch_jobsStarted, BitVec.add_assoc, show (1 : BitVec 32) = BitVec.ofNat 32 1 from rfl,
      ← BitVec.ofNat_add]
    congr 2
    omega
  have hsame : ∀ slot0 slot1, SameOutcome b.core
      { retire en (coreInputs i b) b.core with engine0 := slot0, engine1 := slot1 } :=
    fun _ _ => ⟨rfl, rfl, rfl, rfl, rfl, rfl, rfl, rfl, rfl, rfl⟩
  cases ha.step hreset with
  | timeout _ _ enabled _ _ => exact absurd hoff enabled
  | complete all core parked =>
      refine Or.inr ⟨parked.idle, ?_⟩
      have hdone := hcompleted _ rfl
      obtain ⟨hhanded, -, -⟩ := Scoreboard.finished_eq_range hnext all
      rw [Scoreboard.finish_handed] at hhanded
      rw [all, Nat.sub_self] at hdone
      rw [core, hhanded, Nat.sub_self, conclude, ← hdone]
      simp only [BitVec.add_zero]
      rfl
  | hand0 shadow core next =>
      refine Or.inl ⟨_, _, next, ?_⟩
      rw [core, Scoreboard.finished_hand]
      exact conclude_congr ((hsame _ _).afterDispatch b.core) (hstarted _ next.accounts.prefetch.le)
        (hcompleted _ (afterDispatch_jobsCompleted _ _))
  | hand1 shadow core next =>
      refine Or.inl ⟨_, _, next, ?_⟩
      rw [core, Scoreboard.finished_hand]
      exact conclude_congr ((hsame _ _).afterDispatch b.core) (hstarted _ next.accounts.prefetch.le)
        (hcompleted _ (afterDispatch_jobsCompleted _ _))
  | wait taken core next =>
      refine Or.inl ⟨_, _, next, ?_⟩
      rw [core]
      exact conclude_congr (hsame _ _) rfl (hcompleted _ rfl)

/-- Without a watchdog a batch gets on, or is over. -/
theorem progress (ha : Accounted en sb n b) (hreset : i.softReset = false)
    (hoff : i.config.jobTimeoutCycles = 0) :
    (Bench.step en i b).core.state = .idle ∨
      (∃ sb', Accounted en sb' n (Bench.step en i b)) ∧ toGo (Bench.step en i b) < toGo b := by
  cases ha.step hreset with
  | timeout _ _ enabled _ _ => exact absurd hoff enabled
  | complete _ _ parked => exact Or.inl parked.idle
  | hand0 _ _ next => exact Or.inr ⟨⟨_, next⟩, ha.toGo_lt next hreset⟩
  | hand1 _ _ next => exact Or.inr ⟨⟨_, next⟩, ha.toGo_lt next hreset⟩
  | wait _ _ next => exact Or.inr ⟨⟨_, next⟩, ha.toGo_lt next hreset⟩

/-- The core shows `v`, or will. -/
def Follows (en : Bool) (v : Contract) (b : Bench) : Prop :=
  b.core.state = .idle ∧ contract b.core = v ∨ Promises en v b

theorem Promises.running {v : Contract} (h : Promises en v b) : b.core.state = .run := by
  obtain ⟨sb, n, ha, -⟩ := h
  exact ha.accounts.running

/-- A settled core follows every command. -/
theorem follows_command (i : Inputs) (hb : Settled en b) (ho : Orderly b.core)
    (hidle : b.core.state = .idle) :
    Follows en ((contract b.core).command i.start i.softReset i.config) (Bench.step en i b) := by
  have hnot : ¬ Runs (coreInputs i b) b.core := by
    intro hruns
    cases hidle.symm.trans hruns.1
  cases cycle en (coreInputs i b) b.core with
  | accepts h =>
      refine Or.inr ⟨Scoreboard.empty, _,
        Launches.accounted (i := i) ⟨h.1.1, h.1.2, h.2⟩ (h.1.2.imp_right hb.parked), ?_⟩
      rw [show (dispatchJobCount i.config).toNat = i.config.taken from toNat_dispatchJobCount h.2,
        show i.start = true from h.1.1]
      exact conclude_of_accepts en h
  | refuses h =>
      refine Or.inl ⟨?_, ?_⟩
      · obtain ⟨m, -, hstep⟩ := step_of_refuses en h
        exact (congrArg State.state hstep).trans rfl
      · rw [show i.start = true from h.1.1]
        exact contract_of_refuses en h
  | resets hreset hstart =>
      refine Or.inl ⟨?_, ?_⟩
      · exact (congrArg State.state (@step_of_resets en _ _ hreset hstart)).trans rfl
      · rw [show i.start = false from hstart, show i.softReset = true from hreset]
        exact contract_of_resets hreset hstart
  | timesOut h => exact absurd h.1 hnot
  | completes h => exact absurd h.1 hnot
  | carriesOn hruns _ _ => exact absurd hruns hnot
  | rests _ hreset hstart =>
      refine Or.inl ⟨?_, ?_⟩
      · rw [show (Bench.step en i b).core = _ from
          step_of_rests hidle (ho.loader hidle).1 hreset hstart]
        exact hidle
      · rw [show i.start = false from hstart, show i.softReset = false from hreset]
        exact contract_of_rests ho hidle hreset hstart

end Bench

/-! ### The bring-up core -/

namespace SigvKv260BringupCore

variable {c : Config} {i : Inputs} {s : State} {v : Contract}

/-- The dispatch split of the bring-up core. -/
theorem toNat_acceptedNext (h : c.Launchable) : (acceptedNext c).toNat = c.taken := by
  have hle := h.toNat_le
  have hcount : (c.requestedJobCount.setWidth 8).toNat = c.requestedJobCount.toNat := by
    rw [BitVec.toNat_setWidth, Nat.mod_eq_of_lt (by omega)]
  have hgt : c.requestedJobCount.setWidth 8 > c.dispatchLimit ↔
      c.dispatchLimit.toNat < (c.requestedJobCount.setWidth 8).toNat := Iff.rfl
  unfold acceptedNext Config.taken
  by_cases hzero : c.dispatchLimit = 0
  · rw [if_neg fun hboth => hboth.1 hzero, if_pos hzero, hcount]
  · rw [if_neg hzero]
    split
    · next hboth =>
        have hlt := hgt.mp hboth.2
        omega
    · next hnot =>
        have hnlt : ¬ c.dispatchLimit.toNat < (c.requestedJobCount.setWidth 8).toNat :=
          fun hlt => hnot ⟨hzero, hlt⟩
        omega

theorem toNat_droppedNext (h : c.Launchable) :
    (droppedNext c).toNat = c.requestedJobCount.toNat - c.taken := by
  have hle := h.toNat_le
  have htaken := c.taken_le
  have hcount : (c.requestedJobCount.setWidth 8).toNat = c.requestedJobCount.toNat := by
    rw [BitVec.toNat_setWidth, Nat.mod_eq_of_lt (by omega)]
  rw [droppedNext, BitVec.toNat_sub_of_le, hcount, toNat_acceptedNext h]
  show (acceptedNext c).toNat ≤ (c.requestedJobCount.setWidth 8).toNat
  rw [hcount, toNat_acceptedNext h]
  exact htaken

/-- The batch fits the job memory, whatever it is. -/
theorem not_dispatchJobSpan_gt (c : Config) : ¬ dispatchJobSpan c > jobRamDepth := by
  have hlt := (acceptedNext c).isLt
  have hspan : (dispatchJobSpan c).toNat = (acceptedNext c).toNat * 96 := by
    show ((acceptedNext c).setWidth 23 * (96 : BitVec 23)).toNat = _
    rw [BitVec.toNat_mul, BitVec.toNat_setWidth, show (96 : BitVec 23).toNat = 96 from rfl,
      Nat.mod_eq_of_lt (show (acceptedNext c).toNat < 2 ^ 23 by omega), Nat.mod_eq_of_lt (by omega)]
  show ¬ (32768 < (dispatchJobSpan c).toNat)
  omega

/-- What the host sees of the core. -/
def contract (s : State) : Contract :=
  ⟨s.busy, s.done, s.error, s.resultValid, s.errorCode, s.acceptedJobCount, s.jobsStarted,
    s.jobsCompleted, s.jobsDropped, s.batchId, s.snapshot⟩

/-- The core shows `v`, or will after one cycle. -/
structure Follows (v : Contract) (s : State) : Prop where
  busy : s.busy = true ↔ s.state = .busy
  settled : s.state = .idle → contract s = v
  pending : s.state = .busy → contract (stepBusy s s) = v

/-- What an accepted launch writes. -/
theorem launchBatch_of_launchable (clearCounters : Bool) (s n : State) (h : c.Launchable) :
    launchBatch clearCounters c s n =
      { clearLiveState clearCounters { n with batchId := s.batchId + 1 } with
        busy := true
        acceptedJobCount := acceptedNext c
        currentJobIndex := acceptedNext c - 1
        jobsDropped :=
          if clearCounters then (droppedNext c).setWidth 32
          else s.jobsDropped + (droppedNext c).setWidth 32
        state := .busy } := by
  have hcount : ¬ (c.requestedJobCount = 0 ∨ c.requestedJobCount > maxJobCount) := by
    intro hbad
    exact hbad.elim h.2.1 (Nat.not_lt_of_le h.2.2)
  have hlength : ¬ c.messageLength > maxMessageBytes := Nat.not_lt_of_le h.1
  unfold launchBatch
  dsimp only
  rw [if_neg hlength, if_neg hcount, if_neg (not_dispatchJobSpan_gt c)]

/-- What a refused launch writes. -/
theorem launchBatch_of_refused (clearCounters : Bool) (s n : State) (h : ¬ c.Launchable) :
    launchBatch clearCounters c s n =
      rejectLaunch (refusalCode c) (s.batchId + 1)
        (clearLiveState clearCounters { n with batchId := s.batchId + 1 }) := by
  unfold launchBatch
  dsimp only
  split
  · next hlength =>
      rw [show refusalCode c = errMessageLen from if_pos hlength]
  · next hlength =>
      rw [show refusalCode c = errJobCount from if_neg hlength]
      split
      · rfl
      · next hcount =>
          rw [not_or] at hcount
          exact absurd ⟨Nat.le_of_not_lt hlength, hcount.1, Nat.le_of_not_lt hcount.2⟩ h

/-- A launch, from the registers as the cycle left them. -/
theorem follows_launchBatch (clearCounters : Bool) (c : Config) {s n : State}
    (h : contract n = contract s) :
    Follows ((contract s).launch clearCounters c) (launchBatch clearCounters c s n) := by
  obtain ⟨-, -, -, -, -, -, hstarted, hcompleted, hdropped, -, hsnapshot⟩ := Contract.mk.inj h
  by_cases hlaunch : c.Launchable
  · have hcount : acceptedNext c = BitVec.ofNat 8 c.taken := by
      rw [← toNat_acceptedNext hlaunch, BitVec.ofNat_toNat, BitVec.setWidth_eq]
    have hwide : (acceptedNext c).setWidth 32 = BitVec.ofNat 32 c.taken := by
      rw [← toNat_acceptedNext hlaunch, BitVec.ofNat_toNat]
    have hleft : (droppedNext c).setWidth 32 =
        BitVec.ofNat 32 (c.requestedJobCount.toNat - c.taken) := by
      rw [← toNat_droppedNext hlaunch, BitVec.ofNat_toNat]
    rw [launchBatch_of_launchable clearCounters s n hlaunch, Contract.launch, if_pos hlaunch]
    refine ⟨⟨fun _ => rfl, fun _ => rfl⟩, nofun, fun _ => ?_⟩
    cases clearCounters with
    | true =>
        simp [contract, stepBusy, clearLiveState, Contract.succeed, Contract.clear, hwide, hleft,
          ← hcount]
        rfl
    | false =>
        simp [contract, stepBusy, clearLiveState, Contract.succeed, Contract.clear, hwide, hleft,
          ← hcount, hstarted, hcompleted]
        rfl
  · rw [launchBatch_of_refused clearCounters s n hlaunch, Contract.launch, if_neg hlaunch]
    refine ⟨⟨fun hbusy => absurd hbusy Bool.false_ne_true, nofun⟩, fun _ => ?_, nofun⟩
    simp only [contract, rejectLaunch, clearLiveState, Contract.refuse, Contract.clear, hstarted,
      hcompleted, hdropped]

/-- A settled core follows every command. -/
theorem follows_command (i : Inputs) (h : Follows v s) (hidle : s.state = .idle) :
    Follows (v.command i.start i.softReset i.config) (step i s) := by
  have hbusy : s.busy = false := by
    rw [← Bool.not_eq_true]
    intro hbusy
    cases hidle.symm.trans (h.busy.mp hbusy)
  have hrest : (if s.busy then s.activeCycles + 1 else s.activeCycles) = s.activeCycles := by
    rw [hbusy]
    rfl
  rw [← h.settled hidle, step, hidle, hrest]
  cases hreset : i.softReset with
  | true =>
      cases hstart : i.start with
      | true => exact follows_launchBatch true i.config rfl
      | false => exact ⟨⟨fun hbusy => absurd hbusy Bool.false_ne_true, nofun⟩, fun _ => rfl, nofun⟩
  | false =>
      cases hstart : i.start with
      | true => exact follows_launchBatch false i.config rfl
      | false =>
          exact ⟨⟨fun hrun => absurd (hbusy.symm.trans hrun) Bool.false_ne_true, nofun⟩,
            fun _ => rfl, nofun⟩

/-- A batch is over after one cycle. -/
theorem follows_busy (h : Follows v s) (hbusy : s.state = .busy) (hreset : i.softReset = false) :
    Follows v (step i s) ∧ (step i s).state = .idle := by
  rw [← h.pending hbusy, step, hreset, hbusy]
  exact ⟨⟨⟨fun hbusy => absurd hbusy Bool.false_ne_true, nofun⟩, fun _ => rfl, nofun⟩, rfl⟩

end SigvKv260BringupCore

/-! ### Both cores under the same commands -/

section both

/-- What the bring-up core is given of a cycle. -/
def Bench.Inputs.bringup (i : Bench.Inputs) : SigvKv260BringupCore.Inputs :=
  ⟨i.start, i.softReset, i.config⟩

/-- Both cores show `v`, or will. -/
structure Together (en : Bool) (v : Contract) (b : Bench) (u : SigvKv260BringupCore.State) :
    Prop where
  settled : Bench.Settled en b
  orderly : Orderly b.core
  full : Bench.Follows en v b
  bringup : SigvKv260BringupCore.Follows v u

variable {en : Bool} {v : Contract} {b : Bench} {u : SigvKv260BringupCore.State}
  {i : Bench.Inputs}

theorem Together.idle_of_busy (h : Together en v b u) (hbusy : b.core.busy = false) :
    b.core.state = .idle ∧ contract b.core = v := by
  rcases h.full with hidle | hpromises
  · exact hidle
  · rw [h.orderly.busy.mpr hpromises.running] at hbusy
    contradiction

theorem Together.bringup_idle (h : Together en v b u) (hbusy : u.busy = false) :
    u.state = .idle := by
  cases hstate : u.state with
  | idle => rfl
  | busy =>
      rw [h.bringup.busy.mpr hstate] at hbusy
      contradiction

/-- Two cores of which neither is busy agree. -/
theorem Together.agree (h : Together en v b u) (hfull : b.core.busy = false)
    (hbringup : u.busy = false) : contract b.core = SigvKv260BringupCore.contract u := by
  rw [(h.idle_of_busy hfull).2, h.bringup.settled (h.bringup_idle hbringup)]

/-- No command reaches a core that is busy. -/
theorem quiet_of_busy
    (hcommand : i.start = true ∨ i.softReset = true → b.core.busy = false ∧ u.busy = false)
    (hbusy : b.core.busy = true ∨ u.busy = true) : i.start = false ∧ i.softReset = false := by
  have hnot : ¬ (b.core.busy = false ∧ u.busy = false) := by
    rintro ⟨hfull, hbringup⟩
    rw [hfull, hbringup] at hbusy
    exact hbusy.elim Bool.false_ne_true Bool.false_ne_true
  refine ⟨?_, ?_⟩
  · rw [← Bool.not_eq_true]
    exact fun hstart => hnot (hcommand (Or.inl hstart))
  · rw [← Bool.not_eq_true]
    exact fun hreset => hnot (hcommand (Or.inr hreset))

/-- One cycle, with commands only for cores that are not busy. -/
theorem Together.step (h : Together en v b u) (hoff : i.config.jobTimeoutCycles = 0)
    (hcommand : i.start = true ∨ i.softReset = true → b.core.busy = false ∧ u.busy = false) :
    Together en (v.command i.start i.softReset i.config) (Bench.step en i b)
      (SigvKv260BringupCore.step i.bringup u) := by
  have hquiet := quiet_of_busy hcommand
  refine ⟨h.settled.step i, h.orderly.step, ?_, ?_⟩
  · rcases h.full with ⟨hidle, rfl⟩ | hpromises
    · exact Bench.follows_command i h.settled h.orderly hidle
    · obtain ⟨hstart, hreset⟩ := hquiet (Or.inl (h.orderly.busy.mpr hpromises.running))
      rw [hstart, hreset]
      exact (hpromises.step hreset hoff).symm
  · cases hstate : u.state with
    | idle => exact SigvKv260BringupCore.follows_command i.bringup h.bringup hstate
    | busy =>
        obtain ⟨hstart, hreset⟩ := hquiet (Or.inr (h.bringup.busy.mpr hstate))
        rw [hstart, hreset]
        exact (SigvKv260BringupCore.follows_busy h.bringup hstate hreset).1

/-- The two cores after `k` cycles from reset, and what they show or will. -/
theorem together_run {en : Bool} {dout : BitVec 32} {inputs : ℕ → Bench.Inputs}
    (hoff : ∀ k, (inputs k).config.jobTimeoutCycles = 0)
    (hcommand : ∀ k, (inputs k).start = true ∨ (inputs k).softReset = true →
      (Clocked.run (Bench.step en) inputs (Bench.reset dout) k).core.busy = false ∧
        (Clocked.run SigvKv260BringupCore.step (fun k => (inputs k).bringup)
          SigvKv260BringupCore.reset k).busy = false) (k : ℕ) :
    ∃ v, Together en v (Clocked.run (Bench.step en) inputs (Bench.reset dout) k)
      (Clocked.run SigvKv260BringupCore.step (fun k => (inputs k).bringup)
        SigvKv260BringupCore.reset k) := by
  induction k with
  | zero =>
      refine ⟨_, Bench.Reachable.settled ⟨dout, inputs, 0, rfl⟩, Orderly.reset, Or.inl ⟨rfl, rfl⟩, ?_⟩
      exact ⟨⟨fun hbusy => absurd hbusy Bool.false_ne_true, nofun⟩, fun _ => rfl, nofun⟩
  | succ k ih =>
      obtain ⟨v, hv⟩ := ih
      exact ⟨_, hv.step (hoff k) (hcommand k)⟩

/-- The full core is idle again at some time. -/
theorem exists_idle {en : Bool} {full : ℕ → Bench} {bringup : ℕ → SigvKv260BringupCore.State}
    {inputs : ℕ → Bench.Inputs} (hrun : ∀ k, full (k + 1) = Bench.step en (inputs k) (full k))
    (htogether : ∀ k, ∃ v, Together en v (full k) (bringup k))
    (hoff : ∀ k, (inputs k).config.jobTimeoutCycles = 0)
    (hcommand : ∀ k, (inputs k).start = true ∨ (inputs k).softReset = true →
      (full k).core.busy = false ∧ (bringup k).busy = false) (k : ℕ) :
    ∃ m ≥ k, (full m).core.state = .idle := by
  obtain ⟨v, hv⟩ := htogether k
  rcases hv.full with hidle | ⟨sb, n, ha, -⟩
  · exact ⟨k, le_rfl, hidle.1⟩
  · have hstep : ∀ j, (∃ sb, Bench.Accounted en sb n (full j)) →
        (full (j + 1)).core.state = .idle ∨ (∃ sb, Bench.Accounted en sb n (full (j + 1))) ∧
          Bench.toGo (full (j + 1)) < Bench.toGo (full j) := by
      rintro j ⟨sb, ha⟩
      have hquiet := quiet_of_busy (hcommand j) (Or.inl ha.accounts.underWay.1)
      rw [hrun]
      exact Bench.progress ha hquiet.2 (hoff j)
    obtain ⟨N, hidle, -⟩ := @Clocked.exists_goal _ _ _
      (fun j => ∃ sb, Bench.Accounted en sb n (full j)) (fun j => (full j).core.state = .idle)
      (fun j => Bench.toGo (full j)) hstep k ⟨sb, ha⟩
    exact ⟨k + N + 1, by omega, hidle⟩

/-- The bring-up core keeps the control contract of the full core: under any commands,
each given while neither core is busy, both settle after every command, and whenever
neither is busy their control registers agree. -/
theorem bringup_keeps_contract (en : Bool) (dout : BitVec 32) (inputs : ℕ → Bench.Inputs)
    (hoff : ∀ k, (inputs k).config.jobTimeoutCycles = 0) :
    let full := Clocked.run (Bench.step en) inputs (Bench.reset dout)
    let bringup := Clocked.run SigvKv260BringupCore.step (fun k => (inputs k).bringup)
      SigvKv260BringupCore.reset
    (∀ k, (inputs k).start = true ∨ (inputs k).softReset = true →
      (full k).core.busy = false ∧ (bringup k).busy = false) →
    ∀ k, (∃ m ≥ k, (full m).core.busy = false ∧ (bringup m).busy = false) ∧
      ((full k).core.busy = false → (bringup k).busy = false →
        contract (full k).core = SigvKv260BringupCore.contract (bringup k)) := by
  intro full bringup hcommand k
  have htogether := together_run hoff hcommand
  refine ⟨?_, ?_⟩
  · obtain ⟨m, hm, hidle⟩ := exists_idle (fun _ => rfl) htogether hoff hcommand k
    obtain ⟨v, hv⟩ := htogether m
    have hfull : ∀ j, (full j).core.state = .idle → (full j).core.busy = false := by
      intro j hj
      obtain ⟨_, hv⟩ := htogether j
      rw [← Bool.not_eq_true, hv.orderly.busy, hj]
      exact nofun
    cases hbusy : (bringup m).busy with
    | false => exact ⟨m, hm, hfull m hidle, hbusy⟩
    | true =>
        obtain ⟨hstart, hreset⟩ := quiet_of_busy (hcommand m) (Or.inr hbusy)
        obtain ⟨hnext, hdone⟩ := SigvKv260BringupCore.follows_busy (i := (inputs m).bringup)
          hv.bringup (hv.bringup.busy.mp hbusy) hreset
        refine ⟨m + 1, by omega, hfull (m + 1) ?_, ?_⟩
        · rw [show (full (m + 1)).core = _ from
            step_of_rests (i := Bench.coreInputs (inputs m) (full m)) hidle
              (hv.orderly.loader hidle).1 hreset hstart]
          exact hidle
        · rw [← Bool.not_eq_true]
          intro hbusy'
          cases hdone.symm.trans (hnext.busy.mp hbusy')
  · obtain ⟨v, hv⟩ := htogether k
    exact hv.agree

/-- A refused start, an accepted one with a reset and a limit of one, then silence. -/
theorem bringup_keeps_contract_three_commands :
    ∃ k, contract (Clocked.run (Bench.step true) (fun k =>
        ⟨k = 0 ∨ k = 1, k = 1, ⟨0, if k = 0 then 0 else 2, 0, 1, 0⟩, 3, 3, fun _ => true,
          fun _ => 0⟩) (Bench.reset 0) k).core =
      SigvKv260BringupCore.contract (Clocked.run SigvKv260BringupCore.step (fun k =>
        ⟨k = 0 ∨ k = 1, k = 1, ⟨0, if k = 0 then 0 else 2, 0, 1, 0⟩⟩)
        SigvKv260BringupCore.reset k) ∧ 2 ≤ k := by
  have hkeeps := bringup_keeps_contract true 0 (fun k =>
    ⟨k = 0 ∨ k = 1, k = 1, ⟨0, if k = 0 then 0 else 2, 0, 1, 0⟩, 3, 3, fun _ => true, fun _ => 0⟩)
    (fun _ => rfl) (by
      intro k hcommand
      match k with
      | 0 => exact ⟨rfl, rfl⟩
      | 1 => exact ⟨rfl, rfl⟩
      | k + 2 => simp at hcommand)
  obtain ⟨m, hm, hfull, hbringup⟩ := (hkeeps 2).1
  exact ⟨m, (hkeeps m).2 hfull hbringup, hm⟩

end both

end Kv260Sigv
