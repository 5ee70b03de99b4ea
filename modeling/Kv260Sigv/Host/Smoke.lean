import Kv260Sigv.Daemon.Accelerator

/-!
# The smoke tool

`kv260_sigv_smoke.py`: what `_run_batch` stores to and loads from the mapped regions, in
its order, and the payload it makes of the answers.  The register map and the command
words are those of the daemon, with the registers that only the tool reads.

The layout is the one `_layout_from_args` builds, with the default region sizes.  What
the operating system contributes is in `Host`, as for the daemon.
-/

set_option autoImplicit false

namespace Kv260Sigv

namespace Smoke

open Accelerator (WaitMode)

/-- The exceptions `_run_batch` raises. -/
inductive Error where
  | valueError (message : String)
  | runtimeError (message : String)
  | timeoutError (message : String)
  | osError
  deriving DecidableEq, Repr

/-- Code of the tool. -/
abbrev Tool (α : Type) := ExceptT Error (Program Access Answer) α

/-- A check, or a call that does not reach the device. -/
def Tool.check {α : Type} (result : Except Error α) : Tool α := ExceptT.mk (pure result)

def regErrorCode : ℕ := 0x0030
def regDispatchStatus : ℕ := 0x003c
def regJobsStarted : ℕ := 0x0040
def regJobsCompleted : ℕ := 0x0044
def regJobsDropped : ℕ := 0x0048
def regActiveCycles : ℕ := 0x004c
def regMaxJobCycles : ℕ := 0x0054

/-- What a call depends on besides the device. -/
structure Host where
  /-- The control path is a `uio` device. -/
  controlUsesUio : Bool
  openRegion : Region → Except Error Unit
  openInterrupt : Except Error Unit
  armInterrupt : Except Error Unit
  waitInterrupt : Except Error Unit
  /-- How many tests of a loop condition find the deadline still ahead. -/
  polls : ℕ
  /-- `{timeout_s:.2f}`. -/
  timeoutText : String

/-- The arguments of `_run_batch` besides the layout and the timeout. -/
structure Batch where
  message : Bytes
  jobs : Bytes
  jobCount : ℤ
  verifyMode : ℤ
  dispatchLimit : ℤ
  jobTimeoutCycles : ℤ
  waitMode : WaitMode
  expectedHwMode : String

/-- `_decode_status`. -/
structure Status where
  busy : Bool
  done : Bool
  error : Bool
  resultValid : Bool
  irqPending : Bool
  configWriteIgnored : Bool
  configLocked : Bool

/-- `_probe_payload`. -/
structure Probe where
  magic : BitVec 32
  magicOk : Bool
  apiVersion : BitVec 32
  hwMode : String
  hwModeValue : BitVec 32
  build : BitVec 32

/-- `_decode_irq_status`. -/
structure IrqStatus where
  enabled : Bool
  pending : Bool

/-- `_decode_dispatch_status`. -/
structure DispatchStatus where
  acceptedJobCount : BitVec 32
  currentJobIndex : BitVec 32
  inflightJobs : BitVec 32

/-- `_read_snapshot`. -/
structure SnapshotPayload where
  batchId : BitVec 32
  acceptedJobCount : BitVec 32
  jobsCompleted : BitVec 32
  jobsDropped : BitVec 32
  error : Bool
  resultValid : Bool
  errorCode : BitVec 32

/-- `_status_payload`; the mask is the number that `result_mask_hex` writes. -/
structure StatusPayload where
  status : Status
  hardware : Probe
  irq : IrqStatus
  messageLength : BitVec 32
  requestedJobCount : ℤ
  verifyMode : String
  dispatchLimit : BitVec 32
  jobTimeoutCycles : BitVec 32
  dispatchStatus : DispatchStatus
  errorCode : BitVec 32
  batchId : BitVec 32
  resultMask : BitVec 256
  resultBits : List Bool
  jobsStarted : BitVec 32
  jobsCompleted : BitVec 32
  jobsDropped : BitVec 32
  activeCycles : BitVec 32
  lastJobCycles : BitVec 32
  maxJobCycles : BitVec 32
  lastBatchCycles : BitVec 32
  snapshot : SnapshotPayload

/-- What `_run_batch` returns. -/
structure Payload extends StatusPayload where
  expectedBatchId : BitVec 32
  waitMode : WaitMode

/-! ### The mapped regions -/

/-- The size of a region's mapping. -/
def regionSize : Region → ℕ
  | .control => Accelerator.controlSize
  | .message => Accelerator.messageSize
  | .job => Accelerator.jobSize

/-- `MappedRegion.read_u32` of the control region. -/
def readU32 (offset : ℕ) : Tool (BitVec 32) :=
  ExceptT.lift (Program.access (Access.load .control offset) : Program Access Answer (BitVec 32))

/-- `MappedRegion.write_u32`. -/
def writeU32 (region : Region) (offset : ℕ) (value : BitVec 32) : Tool Unit :=
  ExceptT.lift (Program.access (Access.store region offset value 0xF) : Program Access Answer Unit)

/-- One word after the other, from `offset` on. -/
def writeWords (region : Region) : ℕ → List (BitVec 32) → Tool Unit
  | _, [] => pure ()
  | offset, word :: words => do
      writeU32 region offset word
      writeWords region (offset + 4) words

/-- `MappedRegion.write_bytes`: the payload word by word, the last one filled up, then
zeros to the end of the region. -/
def writeBytes (region : Region) (data : Bytes) : Tool Unit := do
  if data.length > regionSize region then
    throw (.valueError
      s!"payload is too large for mapped region ({data.length} > {regionSize region})")
  let words := Accelerator.payloadWords data
  writeWords region 0
    (words ++ List.replicate ((regionSize region - 4 * words.length + 3) / 4) 0)

/-! ### Reading the device -/

/-- `_decode_status`. -/
def decodeStatus (word : BitVec 32) : Status where
  busy := word &&& 0x1 ≠ 0
  done := word &&& 0x2 ≠ 0
  error := word &&& 0x4 ≠ 0
  resultValid := word &&& 0x8 ≠ 0
  irqPending := word &&& 0x10 ≠ 0
  configWriteIgnored := word &&& 0x20 ≠ 0
  configLocked := word &&& 0x40 ≠ 0

/-- `_decode_irq_status`. -/
def decodeIrqStatus (word : BitVec 32) : IrqStatus := ⟨word &&& 0x1 ≠ 0, word &&& 0x2 ≠ 0⟩

/-- `_decode_dispatch_status`. -/
def decodeDispatchStatus (word : BitVec 32) : DispatchStatus where
  acceptedJobCount := word &&& 0xFF
  currentJobIndex := (word >>> 8) &&& 0xFF
  inflightJobs := (word >>> 16) &&& 0xFF

/-- `_decode_verify_mode`. -/
def decodeVerifyMode (value : BitVec 32) : String :=
  if value = 0 then "strict" else if value = 1 then "agave_zebra" else s!"unknown({value.toNat})"

/-- `_decode_hw_mode`. -/
def decodeHwMode (value : BitVec 32) : String :=
  if value = 0 then "full" else if value = 1 then "bringup" else s!"unknown({value.toNat})"

/-- `_probe_payload`. -/
def probePayload : Tool Probe := do
  let magic ← readU32 Accelerator.regHwMagic
  let build ← readU32 Accelerator.regHwBuild
  let modeValue := build &&& 0xFF
  return {
    magic := magic
    magicOk := magic = Accelerator.hwMagic
    apiVersion := (build >>> 8) &&& 0xFF
    hwMode := decodeHwMode modeValue
    hwModeValue := modeValue
    build := build }

/-- `_probe_or_raise`. -/
def probeOrRaise (expectedHwMode : String) : Tool Probe := do
  let payload ← probePayload
  if !payload.magicOk then
    throw (.runtimeError ("unexpected hardware magic 0x" ++ payload.magic.toHex ++
      "; expected 0x" ++ Accelerator.hwMagic.toHex))
  if expectedHwMode ≠ "any" ∧ payload.hwMode ≠ expectedHwMode then
    throw (.runtimeError
      s!"unexpected hardware mode {payload.hwMode}; expected {expectedHwMode}")
  return payload

/-- The loop of `_read_result_mask`, from word `index` on. -/
def readMaskWords : ℕ → List ℕ → BitVec 256 → Tool (BitVec 256)
  | _, [], value => pure value
  | index, offset :: offsets, value => do
      let word ← readU32 offset
      readMaskWords (index + 1) offsets (value ||| (word.setWidth 256 <<< (index * 32)))

/-- `_read_result_mask`. -/
def readResultMask : Tool (BitVec 256) :=
  readMaskWords 0 ((List.range 8).map fun index => Accelerator.regResultMaskBase + index * 4) 0

/-- `_mask_bits`. -/
def maskBits (mask : BitVec 256) (jobCount : ℕ) : List Bool :=
  (List.range jobCount).map fun bit => (mask >>> bit) &&& 1 ≠ 0

/-- `_read_snapshot`. -/
def readSnapshot : Tool SnapshotPayload := do
  let errStatus ← readU32 Accelerator.regSnapshotErrStatus
  let batchId ← readU32 Accelerator.regSnapshotBatchId
  let accepted ← readU32 Accelerator.regSnapshotAccepted
  let completed ← readU32 Accelerator.regSnapshotCompleted
  let dropped ← readU32 Accelerator.regSnapshotDropped
  return {
    batchId := batchId
    acceptedJobCount := accepted &&& 0xFF
    jobsCompleted := completed
    jobsDropped := dropped
    error := (errStatus >>> 8) &&& 0x1 ≠ 0
    resultValid := (errStatus >>> 9) &&& 0x1 ≠ 0
    errorCode := errStatus &&& 0xFF }

/-- `_status_payload`. -/
def statusPayload : Tool StatusPayload := do
  let probe ← probePayload
  let statusWord ← readU32 Accelerator.regStatus
  let verifyCfg ← readU32 Accelerator.regVerifyCfg
  let dispatchWord ← readU32 regDispatchStatus
  let maskValue ← readResultMask
  let irqWord ← readU32 Accelerator.regIrqCtrlStatus
  let messageLength ← readU32 Accelerator.regMessageLen
  let requestedJobCount ← readU32 Accelerator.regJobCount
  let jobTimeoutCycles ← readU32 Accelerator.regJobTimeoutCycles
  let errorCode ← readU32 regErrorCode
  let batchId ← readU32 Accelerator.regBatchId
  let jobsStarted ← readU32 regJobsStarted
  let jobsCompleted ← readU32 regJobsCompleted
  let jobsDropped ← readU32 regJobsDropped
  let activeCycles ← readU32 regActiveCycles
  let lastJobCycles ← readU32 Accelerator.regLastJobCycles
  let maxJobCycles ← readU32 regMaxJobCycles
  let lastBatchCycles ← readU32 Accelerator.regLastBatchCycles
  let snapshot ← readSnapshot
  return {
    status := decodeStatus statusWord
    hardware := probe
    irq := decodeIrqStatus irqWord
    messageLength := messageLength &&& 0xFFFF
    requestedJobCount := requestedJobCount.toNat
    verifyMode := decodeVerifyMode (verifyCfg &&& 0x3)
    dispatchLimit := (verifyCfg >>> 8) &&& 0xFF
    jobTimeoutCycles := jobTimeoutCycles
    dispatchStatus := decodeDispatchStatus dispatchWord
    errorCode := errorCode &&& 0xFF
    batchId := batchId
    resultMask := maskValue
    resultBits := maskBits maskValue (decodeDispatchStatus dispatchWord).acceptedJobCount.toNat
    jobsStarted := jobsStarted
    jobsCompleted := jobsCompleted
    jobsDropped := jobsDropped
    activeCycles := activeCycles
    lastJobCycles := lastJobCycles
    maxJobCycles := maxJobCycles
    lastBatchCycles := lastBatchCycles
    snapshot := snapshot }

/-! ### A call -/

/-- `_wait_mode_for_layout`. -/
def waitModeForLayout (waitMode : WaitMode) (controlUsesUio : Bool) : Except Error WaitMode :=
  match waitMode with
  | .auto => .ok .poll
  | .irq =>
      if !controlUsesUio then
        .error (.runtimeError
          "interrupt-driven wait requires the control region to be mapped through /dev/uio")
      else .ok .irq
  | .poll => .ok .poll

/-- The loop over the status; the deadline is tested before every look. -/
def pollUntilComplete (overdue : Error) : ℕ → Tool (BitVec 32)
  | 0 => throw overdue
  | polls + 1 => do
      let statusWord ← readU32 Accelerator.regStatus
      let status := decodeStatus statusWord
      if status.done || status.error then
        return statusWord
      else
        pollUntilComplete overdue polls

/-- The checks of `_run_batch` on its arguments. -/
def checkBatch (batch : Batch) : Except Error Unit := do
  if batch.message.length > Accelerator.messageSize then
    throw (.valueError
      s!"message is too large for the mapped BRAM window ({batch.message.length} > {Accelerator.messageSize})")
  if batch.jobs.length > Accelerator.jobSize then
    throw (.valueError
      s!"jobs payload is too large for the mapped BRAM window ({batch.jobs.length} > {Accelerator.jobSize})")

/-- The value stored to `REG_VERIFY_CFG`. -/
def verifyCfgWord (batch : Batch) : BitVec 32 :=
  (BitVec.ofInt 32 batch.dispatchLimit <<< 8) ||| (BitVec.ofInt 32 batch.verifyMode &&& 0x3)

/-- `_run_batch` up to the load of the batch id: the probe, the expected batch id and the
effective wait mode. -/
def prepareBatch (host : Host) (batch : Batch) : Tool (Probe × BitVec 32 × WaitMode) := do
  Tool.check (checkBatch batch)
  Tool.check (host.openRegion .control)
  Tool.check (host.openRegion .message)
  Tool.check (host.openRegion .job)
  let probe ← probeOrRaise batch.expectedHwMode
  writeBytes .message batch.message
  writeBytes .job batch.jobs
  writeU32 .control Accelerator.regMessageLen (BitVec.ofNat 32 batch.message.length)
  writeU32 .control Accelerator.regJobCount (BitVec.ofInt 32 batch.jobCount)
  writeU32 .control Accelerator.regVerifyCfg (verifyCfgWord batch)
  writeU32 .control Accelerator.regJobTimeoutCycles (BitVec.ofInt 32 batch.jobTimeoutCycles)
  let batchId ← readU32 Accelerator.regBatchId
  let waitMode ← Tool.check (waitModeForLayout batch.waitMode host.controlUsesUio)
  return (probe, batchId + 1, waitMode)

/-- The launch and the wait. -/
def launchAndWait (host : Host) (waitMode : WaitMode) : Tool (BitVec 32) := do
  match waitMode with
  | .irq =>
      Tool.check host.openInterrupt
      writeU32 .control Accelerator.regIrqCtrlStatus Accelerator.irqCtrlEnableAndAck
      Tool.check host.armInterrupt
      writeU32 .control Accelerator.regControl Accelerator.controlCmdResetThenStart
      Tool.check host.waitInterrupt
      writeU32 .control Accelerator.regIrqCtrlStatus Accelerator.irqCtrlEnableAndAck
      let statusWord ← readU32 Accelerator.regStatus
      let status := decodeStatus statusWord
      if status.done || status.error then
        return statusWord
      else
        pollUntilComplete (.timeoutError
          s!"interrupt fired but completion was not visible before {host.timeoutText}s") host.polls
  | .poll | .auto =>
      writeU32 .control Accelerator.regControl Accelerator.controlCmdResetThenStart
      pollUntilComplete
        (.timeoutError s!"timed out waiting for completion after {host.timeoutText}s") host.polls

/-- The payload, and the check of its batch id. -/
def collectPayload (batch : Batch) (probe : Probe) (expectedBatchId : BitVec 32)
    (waitMode : WaitMode) (statusWord : BitVec 32) : Tool Payload := do
  let payload ← statusPayload
  if payload.snapshot.batchId ≠ expectedBatchId then
    throw (.runtimeError
      s!"snapshot batch_id mismatch: expected {expectedBatchId.toNat}, got {payload.snapshot.batchId.toNat}")
  return { payload with
    hardware := probe
    requestedJobCount := batch.jobCount
    status := decodeStatus statusWord
    resultBits := maskBits payload.resultMask payload.snapshot.acceptedJobCount.toNat
    expectedBatchId := expectedBatchId
    waitMode := waitMode }

/-- `_run_batch`. -/
def runBatch (host : Host) (batch : Batch) : Tool Payload := do
  let (probe, expectedBatchId, waitMode) ← prepareBatch host batch
  let statusWord ← launchAndWait host waitMode
  collectPayload batch probe expectedBatchId waitMode statusWord

end Smoke

end Kv260Sigv
