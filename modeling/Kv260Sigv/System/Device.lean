import Kv260Sigv.Daemon.Accelerator
import Kv260Sigv.Library.Playing
import Kv260Sigv.Rtl.SigvAxiRegs
import Kv260Sigv.System.Bench
import Kv260Sigv.System.MessagePort

/-!
# The device and its driver

`Device` is the full build of `kv260_sigv_top`: the register block drives the core,
which has one verify lane, and the two memories.  The engine is known by its verdict,
a function of the key, the message bytes it reads and the mode.  The host reaches the
device through the AXI-Lite port and through the memory windows, where the word
stored at byte offset `4 * w` is word `w`.

`history` is what a driver `Program` sees of a run of the device.
-/

set_option autoImplicit false

namespace Kv260Sigv

/-- The verdict of an engine on a key, a message and a mode. -/
abbrev EngineVerdict := JobKey → List (BitVec 8) → BitVec 2 → Bool

/-- The message byte at an address, as the hash engine picks it from its word. -/
def messageByte (mem : MessagePort.Memory) (addr : BitVec 12) : BitVec 8 :=
  Sha512StreamEngine.wordByte (mem (MessagePort.wordAddr addr)) (addr.setWidth 2)

/-- The message an engine reads. -/
def messageBytes (mem : MessagePort.Memory) (length : ℕ) : List (BitVec 8) :=
  (List.range length).map fun k => messageByte mem (BitVec.ofNat 12 k)

/-- The registers, the core with its engine, and the memories. -/
structure Device where
  regs : SigvAxiRegs.State
  bench : Bench
  messageBram : MessagePort.Memory
  jobBram : JobMemory

namespace Device

/-- What the host does in a cycle, and the latency of an engine run that starts in
it.  A store into a memory is a byte offset and a word. -/
structure Inputs where
  axi : SigvAxiRegs.Inputs
  messageStore : Option (ℕ × BitVec 32)
  jobStore : Option (ℕ × BitVec 32)
  latency : ℕ

/-- A memory after a store of the host. -/
def stored {w : ℕ} (mem : BitVec w → BitVec 32) : Option (ℕ × BitVec 32) → BitVec w → BitVec 32
  | none => mem
  | some (offset, value) => Function.update mem (BitVec.ofNat w (offset / 4)) value

/-- The core's cycle. -/
def benchInputs (engine : EngineVerdict) (i : Inputs) (d : Device) : Bench.Inputs where
  start := d.regs.startPulse
  softReset := d.regs.softResetPulse
  config := d.regs.config
  latency0 := i.latency
  latency1 := 0
  verdict := fun key =>
    engine key (messageBytes d.messageBram d.regs.config.messageLength.toNat)
      d.regs.config.verifyMode
  jobMemory := d.jobBram

/-- One clock cycle. -/
def step (engine : EngineVerdict) (i : Inputs) (d : Device) : Device where
  regs := SigvAxiRegs.step 0 (SigvKv260Core.status d.bench.core) i.axi d.regs
  bench := Bench.step false (benchInputs engine i d) d.bench
  messageBram := stored d.messageBram i.messageStore
  jobBram := stored d.jobBram i.jobStore

/-- After `rst_n`, with whatever is in the memories. -/
def reset (jobBramDout : BitVec 32) (messageBram : MessagePort.Memory) (jobBram : JobMemory) :
    Device :=
  ⟨SigvAxiRegs.reset, Bench.reset jobBramDout, messageBram, jobBram⟩

/-- The accesses of the host that take effect in a cycle. -/
def accesses (i : Inputs) (d : Device) : List Access :=
  (i.messageStore.toList.map fun x => .store .message x.1 x.2 0xF) ++
    (i.jobStore.toList.map fun x => .store .job x.1 x.2 0xF) ++
    ((SigvAxiRegs.written i.axi d.regs).toList.map fun w =>
      .store .control w.addr.toNat w.data w.strobe) ++
    ((SigvAxiRegs.accepted i.axi d.regs).toList.map fun a => .load .control a.toNat)

/-- The word a load returns. -/
def loaded (d : Device) : Region → ℕ → BitVec 32
  | .control, offset =>
      SigvAxiRegs.readWord 0 (SigvKv260Core.status d.bench.core) d.regs (BitVec.ofNat 8 offset)
  | .message, offset => d.messageBram (BitVec.ofNat 10 (offset / 4))
  | .job, offset => d.jobBram (BitVec.ofNat 13 (offset / 4))

/-- The answer to an access. -/
def answer (d : Device) : (o : Access) → Answer o
  | .load region offset => d.loaded region offset
  | .store .. => ()

/-- The device after `n` cycles. -/
def run (engine : EngineVerdict) (inputs : ℕ → Inputs) (d : Device) : ℕ → Device :=
  Clocked.run (step engine) inputs d

/-- The device as a driver sees it. -/
def machine (engine : EngineVerdict) : Machine Access Answer Inputs Device :=
  ⟨step engine, accesses, answer⟩

/-- What a driver sees of a run. -/
def history (engine : EngineVerdict) (inputs : ℕ → Inputs) (d : Device) :
    History Access Answer :=
  (machine engine).history inputs d

end Device

end Kv260Sigv
