import Kv260Sigv.Daemon.Calls
import Kv260Sigv.Rtl.SigvAxiRegsEffect
import Kv260Sigv.System.Device

/-!
# What the accesses of the driver do to the device

A cycle with harmless accesses leaves the configuration and raises no pulse; a store
to a control register is the write that the register block applies in that cycle.
Both are then read along a run.
-/

set_option autoImplicit false

namespace Kv260Sigv

open Accelerator SigvAxiRegs

namespace Device

variable {engine : EngineVerdict} {i : Inputs} {d : Device}

/-! ### One cycle -/

/-- A store to a control register is a write with all strobes. -/
theorem written_of_store {offset : ℕ} {value : BitVec 32}
    (h : accesses i d = [storeTo offset value]) :
    written i.axi d.regs = some ⟨BitVec.ofNat 8 offset, value, 0xF⟩ := by
  cases hmessage : i.messageStore <;> cases hjob : i.jobStore <;>
    cases hwritten : written i.axi d.regs <;> cases haccepted : accepted i.axi d.regs <;>
    simp [accesses, storeTo, hmessage, hjob, hwritten, haccepted] at h
  next w =>
    obtain ⟨addr, data, strobe⟩ := w
    obtain ⟨rfl, rfl, rfl⟩ := h
    rw [BitVec.ofNat_toNat, BitVec.setWidth_eq]
    rfl

/-- What a cycle with harmless accesses writes, if anything. -/
theorem written_of_harmless (h : ∀ o ∈ accesses i d, Harmless o) :
    written i.axi d.regs = none ∨
      ∃ w, written i.axi d.regs = some w ∧ alignedAddr w.addr = addrIrqCtrlStatus := by
  cases hwritten : written i.axi d.regs with
  | none => exact Or.inl rfl
  | some w =>
      refine Or.inr ⟨w, rfl, ?_⟩
      have hmem : Access.store .control w.addr.toNat w.data w.strobe ∈ accesses i d := by
        simp [accesses, hwritten]
      have hirq : w.addr.toNat = regIrqCtrlStatus := h _ hmem
      have haddr : w.addr = addrIrqCtrlStatus := BitVec.eq_of_toNat_eq hirq
      rw [haddr]
      rfl

/-- A harmless cycle. -/
theorem step_harmless (engine : EngineVerdict) (h : ∀ o ∈ accesses i d, Harmless o) :
    (step engine i d).regs.config = d.regs.config ∧
      (step engine i d).regs.startPulse = false ∧
      (step engine i d).regs.softResetPulse = false ∧
      (step engine i d).regs.statusClearHold = false := by
  rcases written_of_harmless h with hnone | ⟨w, hsome, haddr⟩
  · exact step_of_none _ _ hnone
  · obtain ⟨hconfig, hstart, hreset, hhold⟩ :=
      step_of_some 0 (SigvKv260Core.status d.bench.core) hsome
    have hlow : ∀ k, commandBit w k = false := commandBit_other (by rw [haddr]; decide)
    rw [hlow 0] at hstart
    rw [hlow 1] at hreset
    rw [hlow 0, hlow 1] at hhold
    rw [newConfig_other (by rw [haddr]; decide)] at hconfig
    exact ⟨hconfig, hstart, hreset, hhold⟩

/-- A cycle in which a store to a control register takes effect. -/
theorem step_store (engine : EngineVerdict) {offset : ℕ} {value : BitVec 32} (h : accesses i d = [storeTo offset value]) :
    let w : Write := ⟨BitVec.ofNat 8 offset, value, 0xF⟩
    (step engine i d).regs.config = newConfig d.bench.core.busy w d.regs.config ∧
      (step engine i d).regs.startPulse = commandBit w 0 ∧
      (step engine i d).regs.softResetPulse = commandBit w 1 ∧
      (step engine i d).regs.statusClearHold = (commandBit w 0 || commandBit w 1) :=
  step_of_some _ _ (written_of_store h)

/-! ### Along a run -/

section run

variable {inputs : ℕ → Inputs} {d₀ : Device} {k k' : ℕ}

/-- A harmless stretch leaves the configuration alone. -/
theorem config_of_calm (hcalm : Calm (history engine inputs d₀) k k') (hle : k ≤ k') :
    (run engine inputs d₀ k').regs.config = (run engine inputs d₀ k).regs.config := by
  induction k', hle using Nat.le_induction with
  | base => rfl
  | succ j hj ih =>
      have hstep := step_harmless engine (hcalm j hj (Nat.lt_succ_self j))
      have hbefore := ih fun m hm hm' => hcalm m hm (Nat.lt_succ_of_lt hm')
      exact hstep.1.trans hbefore

/-- No pulse comes out of a harmless stretch. -/
theorem pulses_of_calm (hcalm : Calm (history engine inputs d₀) k k') {j : ℕ} (hj : k < j)
    (hj' : j ≤ k') :
    (run engine inputs d₀ j).regs.startPulse = false ∧
      (run engine inputs d₀ j).regs.softResetPulse = false := by
  obtain ⟨m, rfl⟩ : ∃ m, j = m + 1 := ⟨j - 1, by omega⟩
  have hstep := step_harmless engine (hcalm m (by omega) (by omega))
  exact ⟨hstep.2.1, hstep.2.2.1⟩

end run

end Device

end Kv260Sigv
