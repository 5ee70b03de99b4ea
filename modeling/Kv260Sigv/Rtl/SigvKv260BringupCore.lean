import Kv260Sigv.Rtl.SigvKv260Core

/-!
# `sigv_kv260_bringup_core`

The stand-in for the core on a board without verify engines: the same launch checks
and control registers, and a batch that completes one cycle after its launch without
reading a job.  `verify_mode` and `job_timeout_cycles` are not looked at.
-/

set_option autoImplicit false

namespace Kv260Sigv

namespace SigvKv260BringupCore

open SigvKv260Core (Snapshot)

/-- `ST_IDLE`, `ST_BUSY`. -/
inductive Phase where
  | idle
  | busy
  deriving DecidableEq, Repr

/-- `MAX_MESSAGE_BYTES`. -/
def maxMessageBytes : BitVec 16 := 4096

/-- `JOB_BYTES`. -/
def jobBytes : BitVec 7 := 96

/-- `MAX_JOB_COUNT`. -/
def maxJobCount : BitVec 32 := 255

/-- `JOB_RAM_DEPTH`. -/
def jobRamDepth : BitVec 23 := 32768

/-- `ERR_NONE .. ERR_JOB_RANGE`. -/
def errNone : BitVec 8 := 0
@[inherit_doc errNone] def errMessageLen : BitVec 8 := 1
@[inherit_doc errNone] def errJobCount : BitVec 8 := 2
@[inherit_doc errNone] def errJobRange : BitVec 8 := 3

/-- The registers. -/
structure State where
  state : Phase
  busy : Bool
  done : Bool
  error : Bool
  resultValid : Bool
  errorCode : BitVec 8
  resultMask : BitVec 256
  acceptedJobCount : BitVec 8
  currentJobIndex : BitVec 8
  jobsStarted : BitVec 32
  jobsCompleted : BitVec 32
  jobsDropped : BitVec 32
  activeCycles : BitVec 32
  lastJobCycles : BitVec 32
  maxJobCycles : BitVec 32
  lastBatchCycles : BitVec 32
  batchId : BitVec 32
  snapshot : Snapshot
  deriving DecidableEq, Repr

/-- The inputs of a cycle. -/
structure Inputs where
  start : Bool
  softReset : Bool
  config : Config

/-- `accepted_next`. -/
def acceptedNext (c : Config) : BitVec 8 :=
  if c.dispatchLimit ≠ 0 ∧ c.requestedJobCount.setWidth 8 > c.dispatchLimit then c.dispatchLimit
  else c.requestedJobCount.setWidth 8

/-- `dropped_next`. -/
def droppedNext (c : Config) : BitVec 8 := c.requestedJobCount.setWidth 8 - acceptedNext c

/-- `dispatch_job_span`. -/
def dispatchJobSpan (c : Config) : BitVec 23 :=
  (acceptedNext c).setWidth 23 * jobBytes.setWidth 23

/-- `clear_live_state`. -/
def clearLiveState (clearCounters : Bool) (n : State) : State :=
  { n with
    state := .idle
    busy := false
    done := false
    error := false
    resultValid := false
    errorCode := errNone
    resultMask := 0
    acceptedJobCount := 0
    currentJobIndex := 0
    activeCycles := 0
    lastJobCycles := 0
    lastBatchCycles := 0
    jobsStarted := if clearCounters then 0 else n.jobsStarted
    jobsCompleted := if clearCounters then 0 else n.jobsCompleted
    jobsDropped := if clearCounters then 0 else n.jobsDropped
    maxJobCycles := if clearCounters then 0 else n.maxJobCycles }

/-- A launch that is refused: `done` and `error` at once. -/
def rejectLaunch (code : BitVec 8) (launchId : BitVec 32) (n : State) : State :=
  { n with
    done := true
    error := true
    errorCode := code
    snapshot := ⟨launchId, 0, 0, 0, true, false, code⟩ }

/-- `launch_batch`. -/
def launchBatch (clearCounters : Bool) (c : Config) (s n : State) : State :=
  let launchId := s.batchId + 1
  let n := clearLiveState clearCounters { n with batchId := launchId }
  if c.messageLength > maxMessageBytes then
    rejectLaunch errMessageLen launchId n
  else if c.requestedJobCount = 0 ∨ c.requestedJobCount > maxJobCount then
    rejectLaunch errJobCount launchId n
  else if dispatchJobSpan c > jobRamDepth then
    rejectLaunch errJobRange launchId n
  else
    { n with
      busy := true
      acceptedJobCount := acceptedNext c
      currentJobIndex := acceptedNext c - 1
      jobsDropped :=
        if clearCounters then (droppedNext c).setWidth 32
        else s.jobsDropped + (droppedNext c).setWidth 32
      state := .busy }

/-- The `ST_BUSY` branch. -/
def stepBusy (s n : State) : State :=
  let jobsCompleted := s.jobsCompleted + s.acceptedJobCount.setWidth 32
  { n with
    busy := false
    done := true
    resultValid := true
    error := false
    errorCode := errNone
    resultMask := if s.acceptedJobCount = 0 then 0 else 1
    jobsStarted := s.jobsStarted + s.acceptedJobCount.setWidth 32
    jobsCompleted := jobsCompleted
    lastJobCycles := 1
    lastBatchCycles := 1
    maxJobCycles := if s.maxJobCycles < 1 then 1 else s.maxJobCycles
    snapshot := ⟨s.batchId, s.acceptedJobCount, jobsCompleted, s.jobsDropped, false, true,
      errNone⟩
    state := .idle }

/-- One clock cycle with `rst_n` high. -/
def step (i : Inputs) (s : State) : State :=
  if i.softReset && i.start then
    launchBatch true i.config s s
  else if i.softReset then
    clearLiveState true s
  else
    let n := { s with activeCycles := if s.busy then s.activeCycles + 1 else s.activeCycles }
    match s.state with
    | .idle => if i.start then launchBatch false i.config s n else n
    | .busy => stepBusy s n

/-- The state after `rst_n`. -/
def reset : State where
  state := .idle
  busy := false
  done := false
  error := false
  resultValid := false
  errorCode := errNone
  resultMask := 0
  acceptedJobCount := 0
  currentJobIndex := 0
  jobsStarted := 0
  jobsCompleted := 0
  jobsDropped := 0
  activeCycles := 0
  lastJobCycles := 0
  maxJobCycles := 0
  lastBatchCycles := 0
  batchId := 0
  snapshot := ⟨0, 0, 0, 0, false, false, errNone⟩

end SigvKv260BringupCore

end Kv260Sigv
