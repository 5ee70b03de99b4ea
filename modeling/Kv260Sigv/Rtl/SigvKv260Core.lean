import Kv260Sigv.Library.Registers

/-!
# `sigv_kv260_core`

The batch sequencer: launch checks, the prefetching job loader, the shadow slot,
one or two engine slots, and the watchdog.  The engines themselves are outside;
their `done` and `verified` are inputs of a cycle and their start pulses, keys and
abort are registers here.

A process of the source assigns registers several times in one cycle and the last
assignment wins.  The functions below therefore take the old state `s`, which all
right-hand sides read, and the next state `n` built so far.
-/

namespace Kv260Sigv

/-- What one job hands to an engine: 24 words of the job memory. -/
structure JobKey where
  pubkey : BitVec 256
  sigR : BitVec 256
  sigS : BitVec 256
  deriving DecidableEq, Repr

/-- The configuration inputs of the core. -/
structure Config where
  messageLength : BitVec 16
  requestedJobCount : BitVec 32
  verifyMode : BitVec 2
  dispatchLimit : BitVec 8
  jobTimeoutCycles : BitVec 32
  deriving DecidableEq, Repr

/-- The outputs of a verify engine. -/
structure EngineOut where
  done : Bool
  verified : Bool
  deriving DecidableEq, Repr

namespace SigvKv260Core

/-- `ST_IDLE`, `ST_RUN`. -/
inductive Phase where
  | idle
  | run
  deriving DecidableEq, Repr

/-- `LD_IDLE .. LD_CAPTURE`. -/
inductive LoaderPhase where
  | idle
  | req
  | wait
  | capture
  deriving DecidableEq, Repr

/-- `MAX_MESSAGE_BYTES`. -/
def maxMessageBytes : BitVec 16 := 4096

/-- `JOB_BYTES`. -/
def jobBytes : BitVec 7 := 96

/-- `MAX_JOB_COUNT`. -/
def maxJobCount : BitVec 32 := 255

/-- `JOB_RAM_DEPTH`. -/
def jobRamDepth : BitVec 23 := 32768

/-- `JOB_LAST_WORD_INDEX`. -/
def jobLastWordIndex : BitVec 5 := (jobBytes >>> 2).setWidth 5 - 1

/-- `job_word_stride`. -/
def jobWordStride : BitVec 13 := ((jobBytes >>> 2).setWidth 5).setWidth 13

/-- `ERR_NONE .. ERR_JOB_TIMEOUT`. -/
def errNone : BitVec 8 := 0
@[inherit_doc errNone] def errMessageLen : BitVec 8 := 1
@[inherit_doc errNone] def errJobCount : BitVec 8 := 2
@[inherit_doc errNone] def errJobRange : BitVec 8 := 3
@[inherit_doc errNone] def errJobTimeout : BitVec 8 := 4

/-- The slot of one engine: `engine<k>_pubkey .. engine<k>_cycles`. -/
structure Slot where
  key : JobKey
  jobIndex : BitVec 8
  busySlot : Bool
  startPulse : Bool
  cycles : BitVec 32
  deriving DecidableEq, Repr

/-- `snapshot_*`. -/
structure Snapshot where
  batchId : BitVec 32
  acceptedJobCount : BitVec 8
  jobsCompleted : BitVec 32
  jobsDropped : BitVec 32
  error : Bool
  resultValid : Bool
  errorCode : BitVec 8
  deriving DecidableEq, Repr

/-- The registers. -/
structure State where
  state : Phase
  loaderState : LoaderPhase
  busy : Bool
  done : Bool
  error : Bool
  resultValid : Bool
  errorCode : BitVec 8
  resultMask : BitVec 256
  acceptedJobCount : BitVec 8
  currentJobIndex : BitVec 8
  jobsStarted : BitVec 32
  jobsCompleted : BitVec 32
  jobsDropped : BitVec 32
  activeCycles : BitVec 32
  lastJobCycles : BitVec 32
  maxJobCycles : BitVec 32
  lastBatchCycles : BitVec 32
  batchId : BitVec 32
  snapshot : Snapshot
  engine0 : Slot
  engine1 : Slot
  shadow : JobKey
  shadowJobIndex : BitVec 8
  shadowValid : Bool
  loadWordIndex : BitVec 5
  loadWordBase : BitVec 13
  scheduledJobCount : BitVec 8
  batchCompletedCount : BitVec 8
  nextLoadJobIndex : BitVec 8
  nextLoadWordBase : BitVec 13
  verifierAbort : Bool
  deriving DecidableEq, Repr

/-- The inputs of a cycle. -/
structure Inputs where
  start : Bool
  softReset : Bool
  config : Config
  engine0 : EngineOut
  engine1 : EngineOut
  jobBramDout : BitVec 32

/-- A key of zeros. -/
def zeroKey : JobKey := ⟨0, 0, 0⟩

/-- A slot after `clear_live_state`. -/
def emptySlot : Slot := ⟨zeroKey, 0, false, false, 0⟩

/-! ### Outputs -/

/-- `job_bram_en`. -/
def jobBramEn (s : State) : Bool := s.loaderState = .req

/-- `job_bram_addr`. -/
def jobBramAddr (s : State) : BitVec 13 := s.loadWordBase + s.loadWordIndex.setWidth 13

/-! ### Launch arithmetic -/

/-- `requested_job_count_u8`. -/
def requestedJobCountU8 (c : Config) : BitVec 8 := c.requestedJobCount.setWidth 8

/-- `dispatch_limit_effective`. -/
def dispatchLimitEffective (c : Config) : BitVec 8 :=
  if c.dispatchLimit = 0 then maxJobCount.setWidth 8 else c.dispatchLimit

/-- `dispatch_job_count`. -/
def dispatchJobCount (c : Config) : BitVec 8 :=
  if requestedJobCountU8 c > dispatchLimitEffective c then dispatchLimitEffective c
  else requestedJobCountU8 c

/-- `dispatch_dropped_count`. -/
def dispatchDroppedCount (c : Config) : BitVec 8 := requestedJobCountU8 c - dispatchJobCount c

/-- `dispatch_job_span`. -/
def dispatchJobSpan (c : Config) : BitVec 23 :=
  (dispatchJobCount c).setWidth 23 * jobBytes.setWidth 23

/-! ### Tasks -/

/-- `clear_live_state`. -/
def clearLiveState (clearCounters : Bool) (n : State) : State :=
  { n with
    state := .idle
    loaderState := .idle
    busy := false
    done := false
    error := false
    resultValid := false
    errorCode := errNone
    resultMask := 0
    acceptedJobCount := 0
    currentJobIndex := 0
    activeCycles := 0
    engine0 := emptySlot
    engine1 := emptySlot
    shadow := zeroKey
    shadowJobIndex := 0
    shadowValid := false
    loadWordIndex := 0
    loadWordBase := 0
    scheduledJobCount := 0
    batchCompletedCount := 0
    nextLoadJobIndex := 0
    nextLoadWordBase := 0
    jobsStarted := if clearCounters then 0 else n.jobsStarted
    jobsCompleted := if clearCounters then 0 else n.jobsCompleted
    jobsDropped := if clearCounters then 0 else n.jobsDropped
    lastJobCycles := if clearCounters then 0 else n.lastJobCycles
    maxJobCycles := if clearCounters then 0 else n.maxJobCycles
    lastBatchCycles := if clearCounters then 0 else n.lastBatchCycles }

/-- `kick_loader`. -/
def kickLoader (wordBase : BitVec 13) (n : State) : State :=
  { n with loadWordBase := wordBase, loadWordIndex := 0, loaderState := .req, shadow := zeroKey }

/-- `finalize_batch`. -/
def finalizeBatch (finalError finalResultValid : Bool) (finalErrorCode : BitVec 8)
    (jobsCompleted : BitVec 32) (s n : State) : State :=
  { n with
    busy := false
    done := true
    error := finalError
    resultValid := finalResultValid
    errorCode := finalErrorCode
    lastBatchCycles := s.activeCycles + 1
    activeCycles := 0
    engine0 := { n.engine0 with cycles := 0, busySlot := false }
    engine1 := { n.engine1 with cycles := 0, busySlot := false }
    shadowValid := false
    loaderState := .idle
    state := .idle
    snapshot := ⟨s.batchId, s.acceptedJobCount, jobsCompleted, s.jobsDropped, finalError,
      finalResultValid, finalErrorCode⟩ }

/-- A launch that is refused: `done` and `error` at once. -/
def rejectLaunch (code : BitVec 8) (launchId : BitVec 32) (n : State) : State :=
  { n with
    done := true
    error := true
    errorCode := code
    snapshot := ⟨launchId, 0, 0, 0, true, false, code⟩ }

/-- `launch_batch`. -/
def launchBatch (clearCounters : Bool) (c : Config) (s n : State) : State :=
  let launchId := s.batchId + 1
  let n := clearLiveState clearCounters { n with batchId := launchId }
  if c.messageLength > maxMessageBytes then
    rejectLaunch errMessageLen launchId n
  else if c.requestedJobCount = 0 ∨ c.requestedJobCount > maxJobCount then
    rejectLaunch errJobCount launchId n
  else if dispatchJobSpan c > jobRamDepth then
    rejectLaunch errJobRange launchId n
  else
    kickLoader 0
      { n with
        busy := true
        acceptedJobCount := dispatchJobCount c
        currentJobIndex := 0
        scheduledJobCount := dispatchJobCount c
        nextLoadJobIndex := 1
        nextLoadWordBase := jobWordStride
        jobsDropped :=
          if clearCounters then (dispatchDroppedCount c).setWidth 32
          else s.jobsDropped + (dispatchDroppedCount c).setWidth 32
        shadowJobIndex := 0
        state := .run }

/-! ### One cycle -/

/-- One more cycle of a busy slot. -/
def tickSlot (enabled : Bool) (slot : Slot) : Slot :=
  { slot with
    startPulse := false
    cycles := if enabled && slot.busySlot then slot.cycles + 1 else slot.cycles }

/-- The shadow key with one more word. -/
def captureWord (key : JobKey) (index : BitVec 5) (word : BitVec 32) : JobKey :=
  if index < 8 then
    { key with pubkey := key.pubkey.writeSlice (index.toNat * 32) word }
  else if index < 16 then
    { key with sigR := key.sigR.writeSlice (index.toNat * 32 - 8 * 32) word }
  else
    { key with sigS := key.sigS.writeSlice (index.toNat * 32 - 16 * 32) word }

/-- The loader. -/
def stepLoader (i : Inputs) (s n : State) : State :=
  match s.loaderState with
  | .idle => n
  | .req => { n with loaderState := .wait }
  | .wait => { n with loaderState := .capture }
  | .capture =>
      let n := { n with shadow := captureWord s.shadow s.loadWordIndex i.jobBramDout }
      if s.loadWordIndex = jobLastWordIndex then
        { n with loaderState := .idle, shadowValid := true }
      else
        { n with loadWordIndex := s.loadWordIndex + 1, loaderState := .req }

/-- `engine<k>_done_evt`. -/
def doneEvt (enabled : Bool) (slot : Slot) (out : EngineOut) : Bool :=
  enabled && slot.busySlot && out.done

/-- `engine<k>_timeout`. -/
def timedOut (enabled : Bool) (c : Config) (slot : Slot) (out : EngineOut) : Bool :=
  enabled && c.jobTimeoutCycles != 0 && slot.busySlot && !doneEvt enabled slot out &&
    decide (c.jobTimeoutCycles ≤ slot.cycles + 1)

/-- What the completion of a slot does to its registers. -/
def freeSlot (evt : Bool) (slot : Slot) : Slot :=
  if evt then { slot with busySlot := false, cycles := 0 } else slot

/-- What a dispatch writes into a slot. -/
def dispatchSlot (s : State) : Slot := ⟨s.shadow, s.shadowJobIndex, true, true, 0⟩

/-- `if (dispatch_happened)`: count the job and prefetch the next one. -/
def afterDispatch (s n : State) : State :=
  let n :=
    { n with
      shadowValid := false
      jobsStarted := s.jobsStarted + 1
      currentJobIndex := s.shadowJobIndex }
  if s.nextLoadJobIndex < s.scheduledJobCount then
    { kickLoader s.nextLoadWordBase n with
      shadowJobIndex := s.nextLoadJobIndex
      nextLoadJobIndex := s.nextLoadJobIndex + 1
      nextLoadWordBase := s.nextLoadWordBase + jobWordStride }
  else n

/-- The shadow goes to engine 0 if it is free, else to engine 1 if that is. -/
def dispatch (engine1Enabled evt0 evt1 : Bool) (s n : State) : State :=
  if s.shadowValid then
    if !s.engine0.busySlot || evt0 then
      afterDispatch s { n with engine0 := dispatchSlot s }
    else if engine1Enabled && (!s.engine1.busySlot || evt1) then
      afterDispatch s { n with engine1 := dispatchSlot s }
    else n
  else n

/-- `new_max_job_cycles` after one completion event. -/
def maxCycles (evt : Bool) (cycles old : BitVec 32) : BitVec 32 :=
  if evt && decide (old < cycles) then cycles else old

/-- The `ST_RUN` branch. -/
def stepRun (engine1Enabled : Bool) (i : Inputs) (s n : State) : State :=
  let evt0 := doneEvt true s.engine0 i.engine0
  let evt1 := doneEvt engine1Enabled s.engine1 i.engine1
  let cycles0 := s.engine0.cycles + 1
  let cycles1 := s.engine1.cycles + 1
  let mask0 :=
    if evt0 then
      s.resultMask.writeSlice s.engine0.jobIndex.toNat (BitVec.ofBool i.engine0.verified)
    else s.resultMask
  let mask1 :=
    if evt1 then mask0.writeSlice s.engine1.jobIndex.toNat (BitVec.ofBool i.engine1.verified)
    else mask0
  let postCompleted :=
    s.jobsCompleted + (BitVec.ofBool evt0).setWidth 32 + (BitVec.ofBool evt1).setWidth 32
  let postBatchCompleted :=
    s.batchCompletedCount + (BitVec.ofBool evt0).setWidth 8 + (BitVec.ofBool evt1).setWidth 8
  let newMax := maxCycles evt1 cycles1 (maxCycles evt0 cycles0 s.maxJobCycles)
  let n :=
    { n with
      resultMask := mask1
      engine0 := freeSlot evt0 n.engine0
      engine1 := freeSlot evt1 n.engine1
      jobsCompleted := postCompleted
      batchCompletedCount := postBatchCompleted
      lastJobCycles := if evt1 then cycles1 else if evt0 then cycles0 else n.lastJobCycles
      maxJobCycles := newMax }
  let timeout0 := timedOut true i.config s.engine0 i.engine0
  let timeout1 := timedOut engine1Enabled i.config s.engine1 i.engine1
  if timeout0 || timeout1 then
    let cycles := if timeout0 then cycles0 else cycles1
    finalizeBatch true true errJobTimeout postCompleted s
      { n with
        lastJobCycles := cycles
        maxJobCycles := if newMax < cycles then cycles else newMax
        verifierAbort := true }
  else if postBatchCompleted = s.scheduledJobCount then
    finalizeBatch false true errNone postCompleted s n
  else
    dispatch engine1Enabled evt0 evt1 s n

/-- One clock cycle with `rst_n` high; `engine1Enabled` is `VERIFY_ENGINE_COUNT > 1`. -/
def step (engine1Enabled : Bool) (i : Inputs) (s : State) : State :=
  let n :=
    { s with
      verifierAbort := false
      engine0 := { s.engine0 with startPulse := false }
      engine1 := { s.engine1 with startPulse := false } }
  if i.softReset && i.start then
    launchBatch true i.config s { n with verifierAbort := true }
  else if i.softReset then
    clearLiveState true { n with verifierAbort := true }
  else
    let n :=
      { n with
        activeCycles := if s.busy then s.activeCycles + 1 else s.activeCycles
        engine0 := tickSlot true s.engine0
        engine1 := tickSlot engine1Enabled s.engine1 }
    let n := stepLoader i s n
    match s.state with
    | .idle => if i.start then launchBatch false i.config s n else n
    | .run => stepRun engine1Enabled i s n

/-- The state after `rst_n`. -/
def reset : State where
  state := .idle
  loaderState := .idle
  busy := false
  done := false
  error := false
  resultValid := false
  errorCode := errNone
  resultMask := 0
  acceptedJobCount := 0
  currentJobIndex := 0
  jobsStarted := 0
  jobsCompleted := 0
  jobsDropped := 0
  activeCycles := 0
  lastJobCycles := 0
  maxJobCycles := 0
  lastBatchCycles := 0
  batchId := 0
  snapshot := ⟨0, 0, 0, 0, false, false, errNone⟩
  engine0 := emptySlot
  engine1 := emptySlot
  shadow := zeroKey
  shadowJobIndex := 0
  shadowValid := false
  loadWordIndex := 0
  loadWordBase := 0
  scheduledJobCount := 0
  batchCompletedCount := 0
  nextLoadJobIndex := 0
  nextLoadWordBase := 0
  verifierAbort := false

end SigvKv260Core

end Kv260Sigv
