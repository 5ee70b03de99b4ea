import Kv260Sigv.Library.Program
import Kv260Sigv.Parser.Daemon

/-!
# The daemon's accelerator driver

`accelerator.rs`: what `verify_batch` stores to and loads from the three mapped
regions, in its order, and what it makes of the answers.  A driver call is a
`Program` over these accesses that can fail with a `ServiceError`.

What the operating system contributes is in `Host`: which files the regions are
found in and whether they open, the page size, the outcome of the interrupt, and how
many times the clock lets the poll loop look at the status.
-/

set_option autoImplicit false

namespace Kv260Sigv

/-- `ErrorKind`. -/
inductive ErrorKind where
  | parse
  | invalidRequest
  | limit
  | accelerator
  | timeout
  | unavailable
  deriving DecidableEq, Repr

/-- `ServiceError`. -/
structure ServiceError where
  kind : ErrorKind
  code : String
  message : String
  deriving DecidableEq, Repr

/-- The mapped regions. -/
inductive Region where
  | control
  | message
  | job
  deriving DecidableEq, Repr

/-- What reaches the device: 32-bit loads and stores at a byte offset of a region. -/
inductive Access where
  | load (region : Region) (offset : ℕ)
  | store (region : Region) (offset : ℕ) (value : BitVec 32) (strobe : BitVec 4)
  deriving DecidableEq

/-- A load is answered with a word. -/
abbrev Answer : Access → Type
  | .load .. => BitVec 32
  | .store .. => Unit

/-- Driver code. -/
abbrev Driver (α : Type) := ExceptT ServiceError (Program Access Answer) α

/-- A single access. -/
def Driver.access (o : Access) : Driver (Answer o) :=
  ExceptT.lift (Program.access o : Program Access Answer (Answer o))

/-- A check, or a call that does not reach the device. -/
def Driver.check {α : Type} (result : Except ServiceError α) : Driver α :=
  ExceptT.mk (pure result)

namespace Accelerator

def controlSize : ℕ := 0x1000
def messageSize : ℕ := 0x1000
def jobSize : ℕ := 0x8000
def maxJobCount : ℕ := 255

def regControl : ℕ := 0x0000
def regStatus : ℕ := 0x0004
def regMessageLen : ℕ := 0x0008
def regJobCount : ℕ := 0x000c
def regResultMaskBase : ℕ := 0x0010
def regVerifyCfg : ℕ := 0x0038
def regLastJobCycles : ℕ := 0x0050
def regLastBatchCycles : ℕ := 0x0058
def regJobTimeoutCycles : ℕ := 0x005c
def regIrqCtrlStatus : ℕ := 0x0060
def regBatchId : ℕ := 0x0064
def regSnapshotBatchId : ℕ := 0x0068
def regSnapshotAccepted : ℕ := 0x006c
def regSnapshotCompleted : ℕ := 0x0070
def regSnapshotDropped : ℕ := 0x0074
def regSnapshotErrStatus : ℕ := 0x0078
def regHwMagic : ℕ := 0x007c
def regHwBuild : ℕ := 0x0080

def hwMagic : BitVec 32 := 0x53494756
def hwModeFull : BitVec 8 := 0
def hwModeBringup : BitVec 8 := 1
def hwApiVersion : BitVec 8 := 1

def controlCmdStart : BitVec 32 := 1
def controlCmdSoftReset : BitVec 32 := 2
def controlCmdResetThenStart : BitVec 32 := controlCmdStart ||| controlCmdSoftReset
def irqCtrlEnableAndAck : BitVec 32 := 3

/-- `VerifyMode`. -/
inductive VerifyMode where
  | strict
  | agaveZebra
  deriving DecidableEq, Repr

/-- `VerifyMode::register_bits`. -/
def VerifyMode.registerBits : VerifyMode → BitVec 32
  | .strict => 0
  | .agaveZebra => 1

/-- `VerifyMode::as_str`. -/
def VerifyMode.asStr : VerifyMode → String
  | .strict => "strict"
  | .agaveZebra => "agave_zebra"

/-- `WaitMode`. -/
inductive WaitMode where
  | auto
  | irq
  | poll
  deriving DecidableEq, Repr

/-- `VerificationJob`. -/
structure VerificationJob where
  pubkey : FixedBytes 32
  signature : FixedBytes 64

/-- `HardwareBatchRequest`; its `timeout` acts through the clock, which is in `Host`. -/
structure HardwareBatchRequest where
  message : Bytes
  jobs : List VerificationJob
  verifyMode : VerifyMode
  dispatchLimit : BitVec 8
  jobTimeoutCycles : BitVec 32

/-- `HardwareBatchResult`. -/
structure HardwareBatchResult where
  batchId : BitVec 32
  acceptedJobCount : BitVec 8
  jobsCompleted : BitVec 32
  jobsDropped : BitVec 32
  error : Bool
  resultValid : Bool
  errorCode : BitVec 8
  resultMaskHex : String
  resultBits : List Bool
  lastJobCycles : BitVec 32
  lastBatchCycles : BitVec 32

/-- `SnapshotStatus`. -/
structure SnapshotStatus where
  batchId : BitVec 32
  acceptedJobCount : BitVec 8
  jobsCompleted : BitVec 32
  jobsDropped : BitVec 32
  error : Bool
  resultValid : Bool
  errorCode : BitVec 8

/-- `HardwareIdentity`. -/
structure HardwareIdentity where
  mode : BitVec 8
  apiVersion : BitVec 8

/-- `StatusBits`. -/
structure StatusBits where
  done : Bool
  error : Bool

/-- `RegionSpec`: whether its path is a `uio` device, and its offset. -/
structure RegionSpec where
  usesUio : Bool
  offset : ℕ

/-- What a call depends on besides the device. -/
structure Host where
  /-- `config.wait_mode`. -/
  waitMode : WaitMode
  resolveRegion : Region → Except ServiceError RegionSpec
  pageSize : ℕ
  openRegion : Region → Except ServiceError Unit
  openInterrupt : Except ServiceError Unit
  armInterrupt : Except ServiceError Unit
  waitInterrupt : Except ServiceError Unit
  /-- How many looks at the status find the deadline still ahead. -/
  polls : ℕ

/-- `MappedRegion`. -/
structure MappedRegion where
  region : Region
  delta : ℕ
  size : ℕ

/-! ### Mapped regions -/

/-- `usize` arithmetic that must not overflow. -/
def checkedAdd (a b : ℕ) : Option ℕ := if a + b < 2 ^ 64 then some (a + b) else none

/-- `0x{offset:04x}`. -/
def hex4 (offset : ℕ) : String :=
  let digits := String.ofList (Nat.toDigits 16 offset)
  "0x" ++ "".pushn '0' (4 - digits.length) ++ digits

/-- `MappedRegion::checked_word_start`. -/
def MappedRegion.checkedWordStart (r : MappedRegion) (offset : ℕ) (operation : String) :
    Except ServiceError ℕ := do
  let bounds := ServiceError.mk .unavailable "mmio_bounds"
    ("attempted to " ++ operation ++ " past mapped region bounds at offset " ++ hex4 offset)
  let some last := checkedAdd offset 4 | throw bounds
  if last > r.size then
    throw bounds
  let some start := checkedAdd r.delta offset
    | throw ⟨.unavailable, "mmio_bounds",
        "attempted to " ++ operation ++ " using an overflowing MMIO offset " ++ hex4 offset⟩
  if start % 4 ≠ 0 then
    throw ⟨.unavailable, "mmio_alignment",
      "attempted to " ++ operation ++ " unaligned MMIO word at offset " ++ hex4 offset⟩
  return start

/-- `MappedRegion::read_u32`. -/
def MappedRegion.readU32 (r : MappedRegion) (offset : ℕ) : Driver (BitVec 32) := do
  let _ ← Driver.check (r.checkedWordStart offset "read")
  Driver.access (.load r.region offset)

/-- `MappedRegion::write_u32`. -/
def MappedRegion.writeU32 (r : MappedRegion) (offset : ℕ) (value : BitVec 32) : Driver Unit := do
  let _ ← Driver.check (r.checkedWordStart offset "write")
  Driver.access (.store r.region offset value 0xF)

/-- `u32::from_le_bytes`. -/
def u32FromLeBytes (b0 b1 b2 b3 : UInt8) : BitVec 32 :=
  b3.toBitVec ++ (b2.toBitVec ++ (b1.toBitVec ++ b0.toBitVec))

/-- The words of a payload: four bytes each, the last filled up with zeros. -/
def payloadWords : Bytes → List (BitVec 32)
  | [] => []
  | [b0] => [u32FromLeBytes b0 0 0 0]
  | [b0, b1] => [u32FromLeBytes b0 b1 0 0]
  | [b0, b1, b2] => [u32FromLeBytes b0 b1 b2 0]
  | b0 :: b1 :: b2 :: b3 :: rest => u32FromLeBytes b0 b1 b2 b3 :: payloadWords rest

/-- One word after the other, from `offset` on. -/
def writeWords (writeWord : ℕ → BitVec 32 → Driver Unit) : ℕ → List (BitVec 32) → Driver Unit
  | _, [] => pure ()
  | offset, word :: words => do
      writeWord offset word
      writeWords writeWord (offset + 4) words

/-- `write_bytes_as_u32_words`: the payload, then zeros to the end of the region. -/
def writeBytesAsU32Words (data : Bytes) (regionSize : ℕ)
    (writeWord : ℕ → BitVec 32 → Driver Unit) : Driver Unit := do
  if data.length > regionSize then
    throw ⟨.limit, "payload_too_large",
      s!"payload is too large for the mapped region ({data.length} > {regionSize})"⟩
  if regionSize % 4 ≠ 0 then
    throw ⟨.unavailable, "mmio_alignment",
      s!"mapped region size is not 32-bit aligned ({regionSize})"⟩
  let words := payloadWords data
  writeWords writeWord 0 (words ++ List.replicate (regionSize / 4 - words.length) 0)

/-- `MappedRegion::write_bytes`. -/
def MappedRegion.writeBytes (r : MappedRegion) (data : Bytes) : Driver Unit :=
  writeBytesAsU32Words data r.size r.writeU32

/-- `MappedRegion::open`. -/
def MappedRegion.open (host : Host) (region : Region) (spec : RegionSpec) (size : ℕ) :
    Driver MappedRegion := do
  Driver.check (host.openRegion region)
  return ⟨region, spec.offset % host.pageSize, size⟩

/-! ### Reading the device -/

/-- `decode_status`. -/
def decodeStatus (word : BitVec 32) : StatusBits := ⟨word &&& 2 ≠ 0, word &&& 4 ≠ 0⟩

/-- `hw_mode_name`. -/
def hwModeName (mode : BitVec 8) : String :=
  if mode = hwModeFull then "full" else if mode = hwModeBringup then "bringup" else "unknown"

/-- `probe_hardware_identity`. -/
def probeHardwareIdentity (control : MappedRegion) : Driver HardwareIdentity := do
  let magic ← control.readU32 regHwMagic
  if magic ≠ hwMagic then
    throw ⟨.unavailable, "hardware_magic_mismatch",
      "unexpected hardware magic 0x" ++ magic.toHex ++ "; expected 0x" ++ hwMagic.toHex⟩
  let build ← control.readU32 regHwBuild
  return ⟨build.extractLsb' 0 8, build.extractLsb' 8 8⟩

/-- `require_full_hardware`. -/
def requireFullHardware (identity : HardwareIdentity) : Except ServiceError Unit := do
  if identity.mode ≠ hwModeFull then
    throw ⟨.unavailable, "hardware_mode_mismatch",
      "loaded hardware mode is " ++ hwModeName identity.mode ++ "; expected full"⟩
  if identity.apiVersion ≠ hwApiVersion then
    throw ⟨.unavailable, "hardware_api_mismatch",
      s!"loaded hardware API is {identity.apiVersion.toNat}; expected {hwApiVersion.toNat}"⟩

/-- A look at the status: it is the answer if the batch is over. -/
def lookOr (control : MappedRegion) (later : Driver (BitVec 32)) : Driver (BitVec 32) := do
  let statusWord ← control.readU32 regStatus
  let status := decodeStatus statusWord
  if status.done || status.error then
    return statusWord
  else
    later

/-- `poll_until_complete`; `polls` looks find the deadline ahead. -/
def pollUntilComplete (control : MappedRegion) : ℕ → Driver (BitVec 32)
  | 0 =>
      lookOr control
        (throw ⟨.timeout, "completion_timeout", "timed out waiting for accelerator completion"⟩)
  | polls + 1 => lookOr control (pollUntilComplete control polls)

/-- The words at successive offsets. -/
def readWords (control : MappedRegion) : List ℕ → Driver (List (BitVec 32))
  | [] => pure []
  | offset :: offsets => do
      let word ← control.readU32 offset
      let words ← readWords control offsets
      return word :: words

/-- `read_result_mask`. -/
def readResultMask (control : MappedRegion) : Driver (List (BitVec 32)) :=
  readWords control ((List.range 8).map fun index => regResultMaskBase + index * 4)

/-- `result_mask_hex`. -/
def resultMaskHex (words : List (BitVec 32)) : String :=
  words.reverse.foldl (fun text word => text ++ word.toHex) ""

/-- `mask_bits`; a job count is a `u8`, so no bit is beyond the eight words. -/
def maskBits (words : List (BitVec 32)) (jobCount : ℕ) : List Bool :=
  (List.range jobCount).map fun bit => (words.getD (bit / 32) 0 >>> (bit % 32)) &&& 1 ≠ 0

/-- `read_snapshot`. -/
def readSnapshot (control : MappedRegion) : Driver SnapshotStatus := do
  let errStatus ← control.readU32 regSnapshotErrStatus
  let batchId ← control.readU32 regSnapshotBatchId
  let accepted ← control.readU32 regSnapshotAccepted
  let completed ← control.readU32 regSnapshotCompleted
  let dropped ← control.readU32 regSnapshotDropped
  return {
    batchId := batchId
    acceptedJobCount := accepted.extractLsb' 0 8
    jobsCompleted := completed
    jobsDropped := dropped
    error := (errStatus >>> 8) &&& 1 ≠ 0
    resultValid := (errStatus >>> 9) &&& 1 ≠ 0
    errorCode := errStatus.extractLsb' 0 8 }

/-! ### A call -/

/-- `wait_mode_for_layout`. -/
def waitModeForLayout (waitMode : WaitMode) (controlUsesUio : Bool) :
    Except ServiceError WaitMode :=
  match waitMode with
  | .auto => .ok .poll
  | .irq =>
      if !controlUsesUio then
        .error ⟨.unavailable, "irq_requires_uio",
          "interrupt-driven wait requires the control region to be mapped through /dev/uio"⟩
      else .ok .irq
  | .poll => .ok .poll

/-- The bytes of the job region: key, then signature, job by job. -/
def jobsBytes (jobs : List VerificationJob) : Bytes :=
  jobs.flatMap fun job => job.pubkey.1 ++ job.signature.1

/-- The checks of `verify_batch` on its request. -/
def checkRequest (request : HardwareBatchRequest) : Except ServiceError Unit := do
  if request.message.isEmpty then
    throw ⟨.invalidRequest, "empty_message",
      "message must contain the exact serialized Solana message bytes"⟩
  if request.jobs.isEmpty then
    throw ⟨.invalidRequest, "empty_jobs",
      "batch must contain at least one verification job"⟩
  if request.message.length > messageSize then
    throw ⟨.limit, "message_too_large",
      s!"message is too large for the mapped BRAM window ({request.message.length} > {messageSize})"⟩
  if request.jobs.length > maxJobCount then
    throw ⟨.limit, "too_many_jobs",
      s!"job count exceeds the accelerator limit ({request.jobs.length} > {maxJobCount})"⟩

/-- The value stored to `REG_VERIFY_CFG`. -/
def verifyCfgWord (request : HardwareBatchRequest) : BitVec 32 :=
  (request.dispatchLimit.setWidth 32 <<< 8) ||| request.verifyMode.registerBits

/-- Store the request. -/
def storeRequest (control message job : MappedRegion) (request : HardwareBatchRequest) :
    Driver Unit := do
  message.writeBytes request.message
  job.writeBytes (jobsBytes request.jobs)
  control.writeU32 regMessageLen (BitVec.ofNat 32 request.message.length)
  control.writeU32 regJobCount (BitVec.ofNat 32 request.jobs.length)
  control.writeU32 regVerifyCfg (verifyCfgWord request)
  control.writeU32 regJobTimeoutCycles request.jobTimeoutCycles

/-- Start the batch and wait for its completion. -/
def runBatch (host : Host) (waitMode : WaitMode) (control : MappedRegion) :
    Driver (BitVec 32) := do
  match waitMode with
  | .irq =>
      Driver.check host.openInterrupt
      control.writeU32 regIrqCtrlStatus irqCtrlEnableAndAck
      Driver.check host.armInterrupt
      control.writeU32 regControl controlCmdResetThenStart
      Driver.check host.waitInterrupt
      control.writeU32 regIrqCtrlStatus irqCtrlEnableAndAck
      lookOr control (pollUntilComplete control host.polls)
  | .poll | .auto =>
      control.writeU32 regControl controlCmdResetThenStart
      pollUntilComplete control host.polls

/-- Read what the batch has left. -/
def collectResult (control : MappedRegion) (expectedBatchId : BitVec 32) :
    Driver HardwareBatchResult := do
  let snapshot ← readSnapshot control
  if snapshot.batchId ≠ expectedBatchId then
    throw ⟨.unavailable, "snapshot_batch_id_mismatch",
      s!"snapshot batch_id mismatch: expected {expectedBatchId.toNat}, got {snapshot.batchId.toNat}"⟩
  let maskWords ← readResultMask control
  let lastJobCycles ← control.readU32 regLastJobCycles
  let lastBatchCycles ← control.readU32 regLastBatchCycles
  return {
    batchId := snapshot.batchId
    acceptedJobCount := snapshot.acceptedJobCount
    jobsCompleted := snapshot.jobsCompleted
    jobsDropped := snapshot.jobsDropped
    error := snapshot.error
    resultValid := snapshot.resultValid
    errorCode := snapshot.errorCode
    resultMaskHex := resultMaskHex maskWords
    resultBits := maskBits maskWords snapshot.acceptedJobCount.toNat
    lastJobCycles := lastJobCycles
    lastBatchCycles := lastBatchCycles }

/-- `MappedAccelerator::verify_batch`.  `SingleFlightAccelerator` lets one call in at
a time and passes it on. -/
def verifyBatch (host : Host) (request : HardwareBatchRequest) : Driver HardwareBatchResult := do
  Driver.check (checkRequest request)
  let controlSpec ← Driver.check (host.resolveRegion .control)
  let messageSpec ← Driver.check (host.resolveRegion .message)
  let jobSpec ← Driver.check (host.resolveRegion .job)
  let waitMode ← Driver.check (waitModeForLayout host.waitMode controlSpec.usesUio)
  if (jobsBytes request.jobs).length > jobSize then
    throw ⟨.limit, "jobs_too_large",
      s!"jobs payload is too large for the mapped BRAM window ({(jobsBytes request.jobs).length} > {jobSize})"⟩
  let control ← MappedRegion.open host .control controlSpec controlSize
  let identity ← probeHardwareIdentity control
  Driver.check (requireFullHardware identity)
  let message ← MappedRegion.open host .message messageSpec messageSize
  let job ← MappedRegion.open host .job jobSpec jobSize
  storeRequest control message job request
  let batchId ← control.readU32 regBatchId
  let statusWord ← runBatch host waitMode control
  let status := decodeStatus statusWord
  if !(status.done || status.error) then
    throw ⟨.timeout, "completion_not_visible",
      "accelerator did not expose a terminal completion state before timeout"⟩
  collectResult control (batchId + 1)

end Accelerator

end Kv260Sigv
