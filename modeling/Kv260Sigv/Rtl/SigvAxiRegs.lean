import Kv260Sigv.Rtl.SigvKv260Core

/-!
# `sigv_axi_regs`

The register block of the device: an AXI-Lite slave in front of the configuration
registers, the control and interrupt registers, and read windows onto the core.  A
write is applied in the cycle in which its address and its data have both arrived;
a read is answered with the word as it stands when the address arrives.
-/

set_option autoImplicit false

namespace Kv260Sigv

/-- The core's outputs, as the register block sees them. -/
structure CoreStatus where
  busy : Bool
  done : Bool
  error : Bool
  resultValid : Bool
  errorCode : BitVec 8
  resultMask : BitVec 256
  acceptedJobCount : BitVec 8
  currentJobIndex : BitVec 8
  jobsStarted : BitVec 32
  jobsCompleted : BitVec 32
  jobsDropped : BitVec 32
  activeCycles : BitVec 32
  lastJobCycles : BitVec 32
  maxJobCycles : BitVec 32
  lastBatchCycles : BitVec 32
  batchId : BitVec 32
  snapshot : SigvKv260Core.Snapshot

/-- The outputs of `sigv_kv260_core`. -/
def SigvKv260Core.status (s : SigvKv260Core.State) : CoreStatus :=
  ⟨s.busy, s.done, s.error, s.resultValid, s.errorCode, s.resultMask, s.acceptedJobCount,
    s.currentJobIndex, s.jobsStarted, s.jobsCompleted, s.jobsDropped, s.activeCycles,
    s.lastJobCycles, s.maxJobCycles, s.lastBatchCycles, s.batchId, s.snapshot⟩

namespace SigvAxiRegs

/-! ### The address map -/

/-- `ADDR_CONTROL .. ADDR_HW_BUILD`. -/
def addrControl : BitVec 8 := 0x00
@[inherit_doc addrControl] def addrStatus : BitVec 8 := 0x04
@[inherit_doc addrControl] def addrMessageLen : BitVec 8 := 0x08
@[inherit_doc addrControl] def addrJobCount : BitVec 8 := 0x0C
@[inherit_doc addrControl] def addrResultMaskWord0 : BitVec 8 := 0x10
@[inherit_doc addrControl] def addrResultMaskWord1 : BitVec 8 := 0x14
@[inherit_doc addrControl] def addrResultMaskWord2 : BitVec 8 := 0x18
@[inherit_doc addrControl] def addrResultMaskWord3 : BitVec 8 := 0x1C
@[inherit_doc addrControl] def addrResultMaskWord4 : BitVec 8 := 0x20
@[inherit_doc addrControl] def addrResultMaskWord5 : BitVec 8 := 0x24
@[inherit_doc addrControl] def addrResultMaskWord6 : BitVec 8 := 0x28
@[inherit_doc addrControl] def addrResultMaskWord7 : BitVec 8 := 0x2C
@[inherit_doc addrControl] def addrErrorCode : BitVec 8 := 0x30
@[inherit_doc addrControl] def addrLedControl : BitVec 8 := 0x34
@[inherit_doc addrControl] def addrVerifyCfg : BitVec 8 := 0x38
@[inherit_doc addrControl] def addrDispatchStatus : BitVec 8 := 0x3C
@[inherit_doc addrControl] def addrJobsStarted : BitVec 8 := 0x40
@[inherit_doc addrControl] def addrJobsCompleted : BitVec 8 := 0x44
@[inherit_doc addrControl] def addrJobsDropped : BitVec 8 := 0x48
@[inherit_doc addrControl] def addrActiveCycles : BitVec 8 := 0x4C
@[inherit_doc addrControl] def addrLastJobCycles : BitVec 8 := 0x50
@[inherit_doc addrControl] def addrMaxJobCycles : BitVec 8 := 0x54
@[inherit_doc addrControl] def addrLastBatchCycles : BitVec 8 := 0x58
@[inherit_doc addrControl] def addrJobTimeoutCycles : BitVec 8 := 0x5C
@[inherit_doc addrControl] def addrIrqCtrlStatus : BitVec 8 := 0x60
@[inherit_doc addrControl] def addrBatchId : BitVec 8 := 0x64
@[inherit_doc addrControl] def addrSnapshotBatchId : BitVec 8 := 0x68
@[inherit_doc addrControl] def addrSnapshotAccepted : BitVec 8 := 0x6C
@[inherit_doc addrControl] def addrSnapshotCompleted : BitVec 8 := 0x70
@[inherit_doc addrControl] def addrSnapshotDropped : BitVec 8 := 0x74
@[inherit_doc addrControl] def addrSnapshotErrStatus : BitVec 8 := 0x78
@[inherit_doc addrControl] def addrHwMagic : BitVec 8 := 0x7C
@[inherit_doc addrControl] def addrHwBuild : BitVec 8 := 0x80

/-- `HW_MAGIC`. -/
def hwMagic : BitVec 32 := 0x53494756

/-- `HW_API_VERSION`. -/
def hwApiVersion : BitVec 8 := 1

/-! ### State -/

/-- The registers. -/
structure State where
  awSeen : Bool
  wSeen : Bool
  awaddrReg : BitVec 8
  wdataReg : BitVec 32
  wstrbReg : BitVec 4
  bvalid : Bool
  rdata : BitVec 32
  rvalid : Bool
  startPulse : Bool
  softResetPulse : Bool
  config : Config
  ledControl : BitVec 32
  launchPending : Bool
  statusClearHold : Bool
  irqEnable : Bool
  irqPending : Bool
  completionSeen : Bool
  configWriteIgnored : Bool

/-- What the bus master drives in a cycle. -/
structure Inputs where
  awaddr : BitVec 8
  awvalid : Bool
  wdata : BitVec 32
  wstrb : BitVec 4
  wvalid : Bool
  bready : Bool
  araddr : BitVec 8
  arvalid : Bool
  rready : Bool

/-- A write, once its address and data have met. -/
structure Write where
  addr : BitVec 8
  data : BitVec 32
  strobe : BitVec 4
  deriving DecidableEq

/-! ### Handshakes -/

/-- `aw_handshake`. -/
def awHandshake (i : Inputs) (s : State) : Bool := !s.awSeen && !s.bvalid && i.awvalid

/-- `w_handshake`. -/
def wHandshake (i : Inputs) (s : State) : Bool := !s.wSeen && !s.bvalid && i.wvalid

/-- `ar_handshake`. -/
def arHandshake (i : Inputs) (s : State) : Bool := !s.rvalid && i.arvalid

/-- The write that is applied in this cycle. -/
def written (i : Inputs) (s : State) : Option Write :=
  if !s.bvalid && ((s.awSeen || awHandshake i s) && (s.wSeen || wHandshake i s)) then
    some ⟨if s.awSeen then s.awaddrReg else i.awaddr, if s.wSeen then s.wdataReg else i.wdata,
      if s.wSeen then s.wstrbReg else i.wstrb⟩
  else none

/-- The address of the read that is accepted in this cycle. -/
def accepted (i : Inputs) (s : State) : Option (BitVec 8) :=
  if arHandshake i s then some i.araddr else none

/-! ### Words -/

/-- `apply_wstrb`. -/
def applyWstrb (current word : BitVec 32) (strobe : BitVec 4) : BitVec 32 :=
  (List.range 4).foldl
    (fun x k => if strobe.getLsbD k then x.writeSlice (k * 8) (word.extractLsb' (k * 8) 8) else x)
    current

/-- An address with its low bits cleared. -/
def alignedAddr (addr : BitVec 8) : BitVec 8 := addr.extractLsb' 2 6 ++ (0 : BitVec 2)

/-- The word of `ADDR_VERIFY_CFG`. -/
def verifyCfg (c : Config) : BitVec 32 :=
  (0 : BitVec 16) ++ (c.dispatchLimit ++ ((0 : BitVec 6) ++ c.verifyMode))

/-- `status_busy`. -/
def statusBusy (core : CoreStatus) (s : State) : Bool := core.busy || s.launchPending

/-- `status_done`, `status_error`, `status_result_valid`. -/
def statusDone (core : CoreStatus) (s : State) : Bool := !s.statusClearHold && core.done
@[inherit_doc statusDone]
def statusError (core : CoreStatus) (s : State) : Bool := !s.statusClearHold && core.error
@[inherit_doc statusDone]
def statusResultValid (core : CoreStatus) (s : State) : Bool :=
  !s.statusClearHold && core.resultValid

/-- `completion_level`. -/
def completionLevel (core : CoreStatus) : Bool := core.done || core.error

/-- The word of `ADDR_STATUS`. -/
def statusWord (core : CoreStatus) (s : State) : BitVec 32 :=
  (0 : BitVec 25) ++ (BitVec.ofBool core.busy ++ (BitVec.ofBool s.configWriteIgnored ++
    (BitVec.ofBool s.irqPending ++ (BitVec.ofBool (statusResultValid core s) ++
      (BitVec.ofBool (statusError core s) ++ (BitVec.ofBool (statusDone core s) ++
        BitVec.ofBool (statusBusy core s)))))))

/-- `read_word`; `hwBuildMode` is the parameter `HW_BUILD_MODE`. -/
def readWord (hwBuildMode : BitVec 32) (core : CoreStatus) (s : State) (addr : BitVec 8) :
    BitVec 32 :=
  let a := alignedAddr addr
  if a = addrStatus then statusWord core s
  else if a = addrMessageLen then s.config.messageLength.setWidth 32
  else if a = addrJobCount then s.config.requestedJobCount
  else if a = addrResultMaskWord0 then core.resultMask.extractLsb' 0 32
  else if a = addrResultMaskWord1 then core.resultMask.extractLsb' 32 32
  else if a = addrResultMaskWord2 then core.resultMask.extractLsb' 64 32
  else if a = addrResultMaskWord3 then core.resultMask.extractLsb' 96 32
  else if a = addrResultMaskWord4 then core.resultMask.extractLsb' 128 32
  else if a = addrResultMaskWord5 then core.resultMask.extractLsb' 160 32
  else if a = addrResultMaskWord6 then core.resultMask.extractLsb' 192 32
  else if a = addrResultMaskWord7 then core.resultMask.extractLsb' 224 32
  else if a = addrErrorCode then core.errorCode.setWidth 32
  else if a = addrLedControl then s.ledControl
  else if a = addrVerifyCfg then verifyCfg s.config
  else if a = addrDispatchStatus then
    (0 : BitVec 8) ++ ((if statusBusy core s then (1 : BitVec 8) else 0) ++
      (core.currentJobIndex ++ core.acceptedJobCount))
  else if a = addrJobsStarted then core.jobsStarted
  else if a = addrJobsCompleted then core.jobsCompleted
  else if a = addrJobsDropped then core.jobsDropped
  else if a = addrActiveCycles then core.activeCycles
  else if a = addrLastJobCycles then core.lastJobCycles
  else if a = addrMaxJobCycles then core.maxJobCycles
  else if a = addrLastBatchCycles then core.lastBatchCycles
  else if a = addrJobTimeoutCycles then s.config.jobTimeoutCycles
  else if a = addrIrqCtrlStatus then
    (0 : BitVec 30) ++ (BitVec.ofBool s.irqPending ++ BitVec.ofBool s.irqEnable)
  else if a = addrBatchId then core.batchId
  else if a = addrSnapshotBatchId then core.snapshot.batchId
  else if a = addrSnapshotAccepted then core.snapshot.acceptedJobCount.setWidth 32
  else if a = addrSnapshotCompleted then core.snapshot.jobsCompleted
  else if a = addrSnapshotDropped then core.snapshot.jobsDropped
  else if a = addrSnapshotErrStatus then
    (0 : BitVec 22) ++ (BitVec.ofBool core.snapshot.resultValid ++
      (BitVec.ofBool core.snapshot.error ++ core.snapshot.errorCode))
  else if a = addrHwMagic then hwMagic
  else if a = addrHwBuild then
    (0 : BitVec 16) ++ (hwApiVersion ++ hwBuildMode.extractLsb' 0 8)
  else 0

/-! ### Writes -/

/-- A write to a configuration register, refused while the core is busy. -/
def writeConfig (busy : Bool) (config : Config) (n : State) : State :=
  if busy then { n with configWriteIgnored := true } else { n with config := config }

/-- The write decode. -/
def applyWrite (busy : Bool) (w : Write) (s n : State) : State :=
  let a := alignedAddr w.addr
  if a = addrControl then
    let maskedWord := applyWstrb 0 w.data w.strobe
    let command := maskedWord.getLsbD 0 || maskedWord.getLsbD 1
    { n with
      startPulse := maskedWord.getLsbD 0
      softResetPulse := maskedWord.getLsbD 1
      launchPending := maskedWord.getLsbD 0
      statusClearHold := command
      irqPending := if command then false else n.irqPending
      completionSeen := if command then false else n.completionSeen
      configWriteIgnored := if command then false else n.configWriteIgnored }
  else if a = addrMessageLen then
    writeConfig busy
      { s.config with
        messageLength :=
          (applyWstrb (s.config.messageLength.setWidth 32) w.data w.strobe).setWidth 16 } n
  else if a = addrJobCount then
    writeConfig busy
      { s.config with
        requestedJobCount := applyWstrb s.config.requestedJobCount w.data w.strobe } n
  else if a = addrLedControl then { n with ledControl := applyWstrb s.ledControl w.data w.strobe }
  else if a = addrVerifyCfg then
    let maskedWord := applyWstrb (verifyCfg s.config) w.data w.strobe
    writeConfig busy
      { s.config with
        dispatchLimit := maskedWord.extractLsb' 8 8
        verifyMode := maskedWord.extractLsb' 0 2 } n
  else if a = addrJobTimeoutCycles then
    writeConfig busy
      { s.config with
        jobTimeoutCycles := applyWstrb s.config.jobTimeoutCycles w.data w.strobe } n
  else if a = addrIrqCtrlStatus then
    if w.strobe.getLsbD 0 then
      { n with
        irqEnable := w.data.getLsbD 0
        irqPending := if w.data.getLsbD 1 then false else n.irqPending }
    else n
  else n

/-- One clock cycle with `rst_n` high. -/
def step (hwBuildMode : BitVec 32) (core : CoreStatus) (i : Inputs) (s : State) : State :=
  let n :=
    { s with
      startPulse := false
      softResetPulse := false
      launchPending := false
      statusClearHold := false
      irqPending := s.irqPending || (completionLevel core && !s.completionSeen)
      completionSeen := completionLevel core
      bvalid := s.bvalid && !i.bready
      rvalid := if arHandshake i s then true else s.rvalid && !i.rready
      rdata := if arHandshake i s then readWord hwBuildMode core s i.araddr else s.rdata }
  match written i s with
  | some w => { applyWrite core.busy w s n with awSeen := false, wSeen := false, bvalid := true }
  | none =>
      { n with
        awSeen := s.awSeen || awHandshake i s
        awaddrReg := if awHandshake i s then i.awaddr else s.awaddrReg
        wSeen := s.wSeen || wHandshake i s
        wdataReg := if wHandshake i s then i.wdata else s.wdataReg
        wstrbReg := if wHandshake i s then i.wstrb else s.wstrbReg }

/-- The state after `rst_n`. -/
def reset : State where
  awSeen := false
  wSeen := false
  awaddrReg := 0
  wdataReg := 0
  wstrbReg := 0
  bvalid := false
  rdata := 0
  rvalid := false
  startPulse := false
  softResetPulse := false
  config := ⟨0, 0, 0, 0, 0⟩
  ledControl := 0
  launchPending := false
  statusClearHold := false
  irqEnable := false
  irqPending := false
  completionSeen := false
  configWriteIgnored := false

end SigvAxiRegs

end Kv260Sigv
