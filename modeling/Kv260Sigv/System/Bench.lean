import Kv260Sigv.Library.Clocked
import Kv260Sigv.Rtl.JobWords

/-!
# The core with its engines and its job memory

`Bench` closes the core: each engine slot drives an engine that answers every
start with one `done` pulse after a latency the environment picks, with a verdict
that is a function of the key it was started with; and the job memory answers an
enabled cycle one cycle later and holds its output otherwise.  Two observers
record what the claims about a batch speak of: the starts the engines have
sampled, and the number of runs that have completed.
-/

namespace Kv260Sigv

/-- What the core knows of a verify engine. -/
structure Engine where
  /-- Cycles left before `done` is raised. -/
  remaining : Option ℕ
  /-- The verdict of the run. -/
  verdict : Bool
  out : EngineOut
  deriving DecidableEq, Repr

namespace Engine

/-- An engine that is doing nothing. -/
def idle : Engine := ⟨none, false, ⟨false, false⟩⟩

/-- Abort is an asynchronous reset. -/
def visible (abort : Bool) (e : Engine) : Engine := if abort then idle else e

/-- One cycle: a start is answered after `latency` more cycles. -/
def step (start verdict : Bool) (latency : ℕ) (e : Engine) : Engine :=
  if start then
    match latency with
    | 0 => ⟨none, verdict, ⟨true, verdict⟩⟩
    | n + 1 => ⟨some n, verdict, ⟨false, false⟩⟩
  else
    match e.remaining with
    | some 0 => ⟨none, e.verdict, ⟨true, e.verdict⟩⟩
    | some (n + 1) => ⟨some n, e.verdict, ⟨false, false⟩⟩
    | none => ⟨none, e.verdict, ⟨false, false⟩⟩

end Engine

/-- A start an engine has sampled. -/
structure Dispatch where
  engine : Fin 2
  jobIndex : BitVec 8
  key : JobKey
  deriving DecidableEq, Repr

/-- The core, its engines, the output register of the job memory, and the
observers. -/
structure Bench where
  core : SigvKv260Core.State
  engine0 : Engine
  engine1 : Engine
  jobBramDout : BitVec 32
  dispatches : List Dispatch
  completions : ℕ

/-- The configuration passes the launch checks. -/
def Config.Launchable (c : Config) : Prop :=
  c.messageLength ≤ SigvKv260Core.maxMessageBytes ∧ c.requestedJobCount ≠ 0 ∧
    c.requestedJobCount ≤ SigvKv260Core.maxJobCount

namespace Bench

/-- What the environment decides in a cycle. -/
structure Inputs where
  start : Bool
  softReset : Bool
  config : Config
  /-- The latency of a run that starts in this cycle. -/
  latency0 : ℕ
  latency1 : ℕ
  /-- The verdict on a key of a run that starts in this cycle. -/
  verdict : JobKey → Bool
  /-- The contents of the job memory. -/
  jobMemory : JobMemory

/-- The engine of slot 0 in this cycle. -/
def live0 (b : Bench) : Engine := b.engine0.visible b.core.verifierAbort

@[inherit_doc live0] def live1 (b : Bench) : Engine := b.engine1.visible b.core.verifierAbort

/-- The core's view of the cycle. -/
def coreInputs (i : Inputs) (b : Bench) : SigvKv260Core.Inputs where
  start := i.start
  softReset := i.softReset
  config := i.config
  engine0 := b.live0.out
  engine1 := b.live1.out
  jobBramDout := b.jobBramDout

/-- The start of a slot, as the observer records it. -/
def sampled (engine : Fin 2) (abort : Bool) (slot : SigvKv260Core.Slot) : List Dispatch :=
  if slot.startPulse && !abort then [⟨engine, slot.jobIndex, slot.key⟩] else []

/-- The engine of a slot after the cycle. -/
def stepEngine (abort : Bool) (slot : SigvKv260Core.Slot) (verdict : JobKey → Bool)
    (latency : ℕ) (e : Engine) : Engine :=
  if abort then .idle else e.step slot.startPulse (verdict slot.key) latency

/-- One clock cycle. -/
def step (engine1Enabled : Bool) (i : Inputs) (b : Bench) : Bench where
  core := SigvKv260Core.step engine1Enabled (coreInputs i b) b.core
  engine0 := stepEngine b.core.verifierAbort b.core.engine0 i.verdict i.latency0 b.engine0
  engine1 := stepEngine b.core.verifierAbort b.core.engine1 i.verdict i.latency1 b.engine1
  jobBramDout :=
    if SigvKv260Core.jobBramEn b.core then i.jobMemory (SigvKv260Core.jobBramAddr b.core)
    else b.jobBramDout
  dispatches := b.dispatches ++ sampled 0 b.core.verifierAbort b.core.engine0 ++
    sampled 1 b.core.verifierAbort b.core.engine1
  completions := b.completions + b.live0.out.done.toNat + b.live1.out.done.toNat

/-- After `rst_n`; the memory output is whatever it was. -/
def reset (jobBramDout : BitVec 32) : Bench :=
  ⟨SigvKv260Core.reset, Engine.idle, Engine.idle, jobBramDout, [], 0⟩

/-- Some run from reset leads here. -/
def Reachable (engine1Enabled : Bool) (b : Bench) : Prop :=
  ∃ (jobBramDout : BitVec 32) (inputs : ℕ → Inputs) (n : ℕ),
    b = Clocked.run (step engine1Enabled) inputs (reset jobBramDout) n

/-- The cycle accepts a launch: `start` in `ST_IDLE`, or with a soft reset in any
state, with a configuration that passes the launch checks. -/
def Launches (i : Inputs) (b : Bench) : Prop :=
  i.start = true ∧ (i.softReset = true ∨ b.core.state = .idle) ∧ i.config.Launchable

end Bench

end Kv260Sigv
