import Kv260Sigv.Rtl.SigvAxiRegs

/-!
# What a register write does

The configuration and the two command pulses after a cycle, from the write that the
cycle applies.  A store of the driver has all its strobes, so it replaces the word.
-/

set_option autoImplicit false

namespace Kv260Sigv

namespace SigvAxiRegs

/-- The configuration after a write. -/
def newConfig (busy : Bool) (w : Write) (c : Config) : Config :=
  let a := alignedAddr w.addr
  if busy then c
  else if a = addrMessageLen then
    { c with
      messageLength := (applyWstrb (c.messageLength.setWidth 32) w.data w.strobe).setWidth 16 }
  else if a = addrJobCount then
    { c with requestedJobCount := applyWstrb c.requestedJobCount w.data w.strobe }
  else if a = addrVerifyCfg then
    { c with
      dispatchLimit := (applyWstrb (verifyCfg c) w.data w.strobe).extractLsb' 8 8
      verifyMode := (applyWstrb (verifyCfg c) w.data w.strobe).extractLsb' 0 2 }
  else if a = addrJobTimeoutCycles then
    { c with jobTimeoutCycles := applyWstrb c.jobTimeoutCycles w.data w.strobe }
  else c

/-- Bit `k` of the command a write gives. -/
def commandBit (w : Write) (k : ℕ) : Bool :=
  decide (alignedAddr w.addr = addrControl) && (applyWstrb 0 w.data w.strobe).getLsbD k

variable (hwBuildMode : BitVec 32) (core : CoreStatus) {i : Inputs} {s n : State}

/-- The write decode, for the registers that reach the core. -/
theorem applyWrite_effect (busy : Bool) (w : Write) (hconfig : n.config = s.config)
    (hstart : n.startPulse = false) (hreset : n.softResetPulse = false)
    (hhold : n.statusClearHold = false) :
    (applyWrite busy w s n).config = newConfig busy w s.config ∧
      (applyWrite busy w s n).startPulse = commandBit w 0 ∧
      (applyWrite busy w s n).softResetPulse = commandBit w 1 ∧
      (applyWrite busy w s n).statusClearHold = (commandBit w 0 || commandBit w 1) := by
  unfold applyWrite newConfig commandBit
  dsimp only
  split_ifs with h₀ h₁ h₂ h₃ h₄ h₅ h₆ h₇ <;>
    simp_all [writeConfig, addrControl, addrMessageLen, addrJobCount, addrLedControl,
      addrVerifyCfg, addrJobTimeoutCycles, addrIrqCtrlStatus]

/-- A cycle without a write. -/
theorem step_of_none (h : written i s = none) :
    (step hwBuildMode core i s).config = s.config ∧
      (step hwBuildMode core i s).startPulse = false ∧
      (step hwBuildMode core i s).softResetPulse = false ∧
      (step hwBuildMode core i s).statusClearHold = false := by
  rw [step, h]
  exact ⟨rfl, rfl, rfl, rfl⟩

/-- A cycle with a write. -/
theorem step_of_some {w : Write} (h : written i s = some w) :
    (step hwBuildMode core i s).config = newConfig core.busy w s.config ∧
      (step hwBuildMode core i s).startPulse = commandBit w 0 ∧
      (step hwBuildMode core i s).softResetPulse = commandBit w 1 ∧
      (step hwBuildMode core i s).statusClearHold = (commandBit w 0 || commandBit w 1) := by
  rw [step, h]
  exact applyWrite_effect core.busy w rfl rfl rfl rfl

/-- `apply_wstrb`, bit by bit. -/
theorem getLsbD_applyWstrb (current word : BitVec 32) (strobe : BitVec 4) {j : ℕ} (hj : j < 32) :
    (applyWstrb current word strobe).getLsbD j =
      if strobe.getLsbD (j / 8) then word.getLsbD j else current.getLsbD j := by
  have hupto : ∀ k ≤ 4,
      ((List.range k).foldl (fun x k => if strobe.getLsbD k then
        x.writeSlice (k * 8) (word.extractLsb' (k * 8) 8) else x) current).getLsbD j =
        if j < k * 8 ∧ strobe.getLsbD (j / 8) then word.getLsbD j else current.getLsbD j := by
    intro k
    induction k with
    | zero =>
        intro _
        simp
    | succ k ih =>
        intro hk
        rw [List.range_succ, List.foldl_append, List.foldl_cons, List.foldl_nil]
        by_cases hin : k * 8 ≤ j ∧ j < k * 8 + 8
        · have hbyte : j / 8 = k := by omega
          cases hstrobe : strobe.getLsbD k with
          | true =>
              rw [if_pos rfl, BitVec.getLsbD_writeSlice _ _ _ hj, if_pos hin, hbyte, hstrobe,
                if_pos ⟨by omega, rfl⟩, BitVec.getLsbD_extractLsb']
              simp [show k * 8 + (j - k * 8) = j by omega, show j - k * 8 < 8 by omega]
          | false =>
              rw [if_neg Bool.false_ne_true, ih (by omega), hbyte, hstrobe]
              simp
        · have hsame : j < (k + 1) * 8 ↔ j < k * 8 := by omega
          simp only [hsame]
          rw [← ih (by omega)]
          split
          · rw [BitVec.getLsbD_writeSlice _ _ _ hj, if_neg hin]
          · rfl
  rw [applyWstrb, hupto 4 le_rfl]
  exact if_congr (and_iff_right (by omega)) rfl rfl

/-- A write with all strobes replaces the word. -/
theorem applyWstrb_full (current word : BitVec 32) : applyWstrb current word 0xF = word := by
  have hstrobe : ∀ k < 4, (0xF : BitVec 4).getLsbD k = true := by decide
  apply BitVec.eq_of_getLsbD_eq
  intro j hj
  rw [getLsbD_applyWstrb _ _ _ hj, if_pos (hstrobe _ (by omega))]

/-! ### The writes of the driver, by address -/

section full

variable {busy : Bool} {w : Write} {addr : BitVec 8} {data : BitVec 32} {c : Config}

/-- A full write to `ADDR_MESSAGE_LEN`. -/
theorem newConfig_messageLen (ha : alignedAddr addr = addrMessageLen) :
    newConfig busy ⟨addr, data, 0xF⟩ c =
      if busy then c else { c with messageLength := data.setWidth 16 } := by
  rw [newConfig]
  dsimp only
  rw [ha]
  simp only [applyWstrb_full]
  rfl

/-- A full write to `ADDR_JOB_COUNT`. -/
theorem newConfig_jobCount (ha : alignedAddr addr = addrJobCount) :
    newConfig busy ⟨addr, data, 0xF⟩ c = if busy then c else { c with requestedJobCount := data } := by
  rw [newConfig]
  dsimp only
  rw [ha]
  simp only [applyWstrb_full]
  rfl

/-- A full write to `ADDR_VERIFY_CFG`. -/
theorem newConfig_verifyCfg (ha : alignedAddr addr = addrVerifyCfg) :
    newConfig busy ⟨addr, data, 0xF⟩ c =
      if busy then c
      else
        { c with
          dispatchLimit := data.extractLsb' 8 8
          verifyMode := data.extractLsb' 0 2 } := by
  rw [newConfig]
  dsimp only
  rw [ha]
  simp only [applyWstrb_full]
  rfl

/-- A full write to `ADDR_JOB_TIMEOUT_CYCLES`. -/
theorem newConfig_jobTimeoutCycles (ha : alignedAddr addr = addrJobTimeoutCycles)
    :
    newConfig busy ⟨addr, data, 0xF⟩ c = if busy then c else { c with jobTimeoutCycles := data } := by
  rw [newConfig]
  dsimp only
  rw [ha]
  simp only [applyWstrb_full]
  rfl

/-- A write elsewhere. -/
theorem newConfig_other (ha : alignedAddr w.addr ∉
      [addrMessageLen, addrJobCount, addrVerifyCfg, addrJobTimeoutCycles]) :
    newConfig busy w c = c := by
  simp only [List.mem_cons, List.not_mem_nil, or_false, not_or] at ha
  rw [newConfig, if_neg ha.1, if_neg ha.2.1, if_neg ha.2.2.1, if_neg ha.2.2.2, ite_self]

/-- Only a write to `ADDR_CONTROL` gives a command. -/
theorem commandBit_other (ha : alignedAddr w.addr ≠ addrControl) (k : ℕ) :
    commandBit w k = false := by
  rw [commandBit, decide_eq_false ha, Bool.false_and]

/-- A full write to `ADDR_CONTROL`. -/
theorem commandBit_control (ha : alignedAddr addr = addrControl) (k : ℕ) :
    commandBit ⟨addr, data, 0xF⟩ k = data.getLsbD k := by
  rw [commandBit]
  dsimp only
  rw [decide_eq_true ha, applyWstrb_full, Bool.true_and]

end full

end SigvAxiRegs

end Kv260Sigv
