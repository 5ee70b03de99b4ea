import Kv260Sigv.Rtl.SigvAxiRegsIrq
import Kv260Sigv.System.CoreCycle
import Kv260Sigv.System.Device

/-!
# The register block driving the core

The control plane by itself: whatever the bus master does, whatever the engines
answer and whatever the job memory delivers, for one engine and for two.  A device is
one of its instances.

The two modules hand over on consecutive cycles.  A command is applied in one cycle;
in the next its pulses are up, the status is masked and the response slot is taken, so
that no write can be applied; in the one after that the core shows the launch.
`Linked` is what makes this argument in every reachable state.
-/

set_option autoImplicit false

namespace Kv260Sigv

/-! ### One cycle of the register block -/

namespace SigvAxiRegs

/-- Bit `k` of the command the cycle applies, if it applies one. -/
def command (k : ℕ) (i : Inputs) (s : State) : Bool := (written i s).any fun w => commandBit w k

variable {hwBuildMode : BitVec 32} {core : CoreStatus} {i : Inputs} {s : State}

theorem commands_eq : commands i s = (command 0 i s || command 1 i s) := by
  unfold commands command
  cases written i s <;> rfl

/-- No write is applied while the response of the last one is outstanding. -/
theorem written_of_bvalid (h : s.bvalid = true) : written i s = none := by
  rw [written, h]
  rfl

/-- The write decode raises the launch marker with the start pulse. -/
theorem applyWrite_launchPending (busy : Bool) (w : Write) (s n : State)
    (hstart : n.startPulse = false) (hpending : n.launchPending = false) :
    (applyWrite busy w s n).launchPending = (applyWrite busy w s n).startPulse := by
  have hconfig : ∀ config, (writeConfig busy config n).launchPending =
      (writeConfig busy config n).startPulse := by
    intro config
    cases busy <;> exact hpending.trans hstart.symm
  have hlow : n.launchPending = n.startPulse := hpending.trans hstart.symm
  unfold applyWrite
  dsimp only
  split
  · rfl
  split
  · exact hconfig _
  split
  · exact hconfig _
  split
  · exact hlow
  split
  · exact hconfig _
  split
  · exact hconfig _
  split
  · split <;> exact hlow
  · exact hlow

/-- The pulses of the next cycle are the command of this one. -/
theorem step_pulses :
    (step hwBuildMode core i s).startPulse = command 0 i s ∧
      (step hwBuildMode core i s).softResetPulse = command 1 i s ∧
      (step hwBuildMode core i s).statusClearHold = (command 0 i s || command 1 i s) ∧
      (step hwBuildMode core i s).launchPending = command 0 i s := by
  unfold command
  cases hwritten : written i s with
  | none =>
      obtain ⟨-, hstart, hreset, hhold⟩ := step_of_none hwBuildMode core hwritten
      refine ⟨hstart, hreset, hhold, ?_⟩
      rw [step, hwritten]
      rfl
  | some w =>
      obtain ⟨-, hstart, hreset, hhold⟩ := step_of_some hwBuildMode core hwritten
      refine ⟨hstart, hreset, hhold, Eq.trans ?_ hstart⟩
      rw [step, hwritten]
      exact applyWrite_launchPending core.busy w s _ rfl rfl

/-- A write takes the response slot. -/
theorem step_bvalid (h : written i s ≠ none) : (step hwBuildMode core i s).bvalid = true := by
  cases hwritten : written i s with
  | none => exact absurd hwritten h
  | some w =>
      rw [step, hwritten]

/-- The configuration changes by a write only, and only while the core is not busy. -/
theorem step_config :
    (step hwBuildMode core i s).config = s.config ∨
      ∃ w, written i s = some w ∧ core.busy = false ∧
        (step hwBuildMode core i s).config = newConfig false w s.config := by
  cases hwritten : written i s with
  | none => exact Or.inl (step_of_none hwBuildMode core hwritten).1
  | some w =>
      have hconfig := (step_of_some hwBuildMode core hwritten).1
      cases hbusy : core.busy with
      | true =>
          refine Or.inl (hconfig.trans ?_)
          rw [newConfig, hbusy]
          rfl
      | false =>
          rw [hbusy] at hconfig
          exact Or.inr ⟨w, rfl, rfl, hconfig⟩

end SigvAxiRegs

/-! ### The two modules together -/

/-- The registers of the two modules. -/
structure ControlPlane where
  regs : SigvAxiRegs.State
  core : SigvKv260Core.State

namespace ControlPlane

/-- What the bus master, the engines and the job memory do in a cycle. -/
structure Inputs where
  axi : SigvAxiRegs.Inputs
  engine0 : EngineOut
  engine1 : EngineOut
  jobBramDout : BitVec 32

/-- The core's cycle. -/
def coreInputs (i : Inputs) (p : ControlPlane) : SigvKv260Core.Inputs where
  start := p.regs.startPulse
  softReset := p.regs.softResetPulse
  config := p.regs.config
  engine0 := i.engine0
  engine1 := i.engine1
  jobBramDout := i.jobBramDout

/-- One clock cycle. -/
def step (hwBuildMode : BitVec 32) (en : Bool) (i : Inputs) (p : ControlPlane) : ControlPlane where
  regs := SigvAxiRegs.step hwBuildMode (SigvKv260Core.status p.core) i.axi p.regs
  core := SigvKv260Core.step en (coreInputs i p) p.core

/-- After `rst_n`. -/
def reset : ControlPlane := ⟨SigvAxiRegs.reset, SigvKv260Core.reset⟩

/-- The control plane after `n` cycles from reset. -/
def trace (hwBuildMode : BitVec 32) (en : Bool) (inputs : ℕ → Inputs) (n : ℕ) : ControlPlane :=
  Clocked.run (step hwBuildMode en) inputs reset n

/-- A run in which the master plays a script, cycle by cycle, and nothing else happens. -/
def scripted (script : List SigvAxiRegs.Inputs) (n : ℕ) : Inputs :=
  ⟨script.getD n SigvAxiRegs.quietBus, ⟨false, false⟩, ⟨false, false⟩, 0⟩

end ControlPlane

/-- The control plane of a device. -/
def Device.controlPlane (d : Device) : ControlPlane := ⟨d.regs, d.bench.core⟩

/-- A cycle of the device is a cycle of its control plane. -/
theorem Device.controlPlane_step (engine : EngineVerdict) (i : Device.Inputs) (d : Device) :
    (d.step engine i).controlPlane =
      d.controlPlane.step 0 false ⟨i.axi, d.bench.live0.out, d.bench.live1.out,
        d.bench.jobBramDout⟩ := rfl

namespace ControlPlane

variable {hwBuildMode : BitVec 32} {en : Bool} {i : Inputs} {p : ControlPlane}

/-- Pulses are up while the response slot is taken, and the status is masked with them. -/
structure Linked (p : ControlPlane) : Prop where
  response : p.regs.startPulse = true ∨ p.regs.softResetPulse = true → p.regs.bvalid = true
  hold : p.regs.statusClearHold = (p.regs.startPulse || p.regs.softResetPulse)
  pending : p.regs.launchPending = p.regs.startPulse
  orderly : SigvKv260Core.Orderly p.core

theorem Linked.reset : Linked reset := ⟨nofun, rfl, rfl, .reset⟩

theorem Linked.step (h : Linked p) : Linked (step hwBuildMode en i p) := by
  obtain ⟨hstart, hreset, hhold, hpending⟩ :=
    @SigvAxiRegs.step_pulses hwBuildMode (SigvKv260Core.status p.core) i.axi p.regs
  refine ⟨?_, ?_, hpending.trans hstart.symm, h.orderly.step⟩
  · intro hpulse
    refine SigvAxiRegs.step_bvalid ?_
    intro hnone
    have hlow : ∀ k, SigvAxiRegs.command k i.axi p.regs = false := by
      intro k
      rw [SigvAxiRegs.command, hnone]
      rfl
    rcases hpulse with hpulse | hpulse
    · exact Bool.false_ne_true ((hlow 0).symm.trans (hstart.symm.trans hpulse))
    · exact Bool.false_ne_true ((hlow 1).symm.trans (hreset.symm.trans hpulse))
  · refine hhold.trans ?_
    rw [← hstart, ← hreset]
    rfl

theorem Linked.trace (hwBuildMode : BitVec 32) (en : Bool) (inputs : ℕ → Inputs) (n : ℕ) :
    Linked (trace hwBuildMode en inputs n) :=
  Clocked.run_invariant (fun _ _ h => h.step) .reset n

/-- The pulses of the next cycle. -/
theorem step_startPulse :
    (step hwBuildMode en i p).regs.startPulse = SigvAxiRegs.command 0 i.axi p.regs :=
  SigvAxiRegs.step_pulses.1

@[inherit_doc step_startPulse]
theorem step_softResetPulse :
    (step hwBuildMode en i p).regs.softResetPulse = SigvAxiRegs.command 1 i.axi p.regs :=
  SigvAxiRegs.step_pulses.2.1

/-- No write is applied in the cycle of a pulse. -/
theorem Linked.written_of_pulse (h : Linked p)
    (hpulse : p.regs.startPulse = true ∨ p.regs.softResetPulse = true) :
    SigvAxiRegs.written i.axi p.regs = none :=
  SigvAxiRegs.written_of_bvalid (h.response hpulse)

end ControlPlane

end Kv260Sigv
