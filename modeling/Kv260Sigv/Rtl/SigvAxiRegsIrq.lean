import Kv260Sigv.Library.Clocked
import Kv260Sigv.Rtl.SigvAxiRegsEffect

/-!
# The completion interrupt

`completion_seen` follows the completion level one cycle behind, and the pending bit
is set when the level is up and has not been seen.  A command clears both.  An
acknowledge clears the pending bit after it has been set in the same cycle, while the
level counts as seen: that completion never becomes pending.
-/

set_option autoImplicit false

namespace Kv260Sigv

namespace SigvAxiRegs

/-- The write of the cycle is a control command with bit 0 or 1 set. -/
def commands (i : Inputs) (s : State) : Bool :=
  (written i s).any fun w => commandBit w 0 || commandBit w 1

/-- The write of the cycle acknowledges the interrupt. -/
def acknowledges (i : Inputs) (s : State) : Bool :=
  (written i s).any fun w =>
    decide (alignedAddr w.addr = addrIrqCtrlStatus) && (w.strobe.getLsbD 0 && w.data.getLsbD 1)

/-- The edge detector observes a completion in this cycle. -/
def Observes (core : CoreStatus) (s : State) : Prop :=
  completionLevel core = true ∧ s.completionSeen = false

variable {hwBuildMode : BitVec 32} {core : CoreStatus} {i : Inputs} {s : State}

/-! ### One cycle -/

/-- The write decode, for the interrupt and the sticky status bit. -/
theorem applyWrite_irq (busy : Bool) (w : Write) (s n : State) :
    (applyWrite busy w s n).irqPending =
        (if commandBit w 0 || commandBit w 1 then false
        else if decide (alignedAddr w.addr = addrIrqCtrlStatus) &&
            (w.strobe.getLsbD 0 && w.data.getLsbD 1) then false
        else n.irqPending) ∧
      (applyWrite busy w s n).completionSeen =
        (if commandBit w 0 || commandBit w 1 then false else n.completionSeen) := by
  have hconfig : ∀ config, (writeConfig busy config n).irqPending = n.irqPending ∧
      (writeConfig busy config n).completionSeen = n.completionSeen := by
    intro config
    cases busy <;> exact ⟨rfl, rfl⟩
  unfold applyWrite commandBit
  dsimp only
  split_ifs with h₀ h₁ h₂ h₃ h₄ h₅ h₆ h₇ <;>
    simp_all [addrControl, addrMessageLen, addrJobCount, addrLedControl, addrVerifyCfg,
      addrJobTimeoutCycles, addrIrqCtrlStatus]

/-- The pending bit after a cycle. -/
theorem step_irqPending :
    (step hwBuildMode core i s).irqPending =
      if commands i s || acknowledges i s then false
      else s.irqPending || (completionLevel core && !s.completionSeen) := by
  unfold commands acknowledges
  cases hwritten : written i s with
  | none =>
      rw [step, hwritten]
      rfl
  | some w =>
      rw [step, hwritten]
      refine (applyWrite_irq core.busy w s _).1.trans ?_
      simp only [Option.any_some, Bool.or_eq_true]
      split_ifs with h₁ h₂ h₃ h₄ <;> simp_all

/-- What the edge detector has seen after a cycle. -/
theorem step_completionSeen :
    (step hwBuildMode core i s).completionSeen =
      if commands i s then false else completionLevel core := by
  unfold commands
  cases hwritten : written i s with
  | none =>
      rw [step, hwritten]
      rfl
  | some w =>
      rw [step, hwritten]
      exact (applyWrite_irq core.busy w s _).2

/-- A write is not a command and an acknowledge at once. -/
theorem not_commands_of_acknowledges (h : acknowledges i s = true) : commands i s = false := by
  unfold acknowledges at h
  unfold commands
  cases hwritten : written i s with
  | none => rfl
  | some w =>
      rw [hwritten] at h
      simp only [Option.any_some, Bool.and_eq_true, decide_eq_true_eq] at h
      have hother : alignedAddr w.addr ≠ addrControl := by
        rw [h.1]
        decide
      simp only [Option.any_some, commandBit_other hother, Bool.or_self]

/-- The completion of the cycle becomes pending, or a command of the same cycle discards
it. -/
def Kept (hwBuildMode : BitVec 32) (core : CoreStatus) (i : Inputs) (s : State) : Prop :=
  (step hwBuildMode core i s).irqPending = true ∨ commands i s = true

/-- An observed completion is kept unless the cycle applies an acknowledge. -/
theorem kept_iff (h : Observes core s) :
    Kept hwBuildMode core i s ↔ acknowledges i s = false := by
  unfold Kept
  rw [step_irqPending, h.1, h.2]
  constructor
  · intro hkept
    rw [← Bool.not_eq_true]
    intro hack
    rw [hack, Bool.or_true, if_pos rfl] at hkept
    rcases hkept with hpending | hcommand
    · cases hpending
    · rw [not_commands_of_acknowledges hack] at hcommand
      cases hcommand
  · intro hack
    cases hcommand : commands i s with
    | true => exact Or.inr rfl
    | false =>
        rw [hack]
        exact Or.inl (Bool.or_true _)

/-! ### Runs -/

/-- The register block after `n` cycles from reset, against any core. -/
def trace (hwBuildMode : BitVec 32) (inputs : ℕ → CoreStatus × Inputs) (n : ℕ) : State :=
  Clocked.run (fun x => step hwBuildMode x.1 x.2) inputs reset n

/-- A run keeps all the completions it observes exactly when no acknowledge is applied in
a cycle that observes one. -/
theorem completions_kept_iff (hwBuildMode : BitVec 32) (inputs : ℕ → CoreStatus × Inputs) :
    (∀ n, Observes (inputs n).1 (trace hwBuildMode inputs n) →
        Kept hwBuildMode (inputs n).1 (inputs n).2 (trace hwBuildMode inputs n)) ↔
      ∀ n, Observes (inputs n).1 (trace hwBuildMode inputs n) →
        acknowledges (inputs n).2 (trace hwBuildMode inputs n) = false :=
  forall_congr' fun _ => forall_congr' fun hobserves => kept_iff hobserves

/-! ### A completion that is lost -/

/-- The bus without an access. -/
def quietBus : Inputs := ⟨0, false, 0, 0, false, true, 0, false, true⟩

/-- A write with all strobes, address and data in one cycle. -/
def busWrite (addr : BitVec 8) (data : BitVec 32) : Inputs :=
  ⟨addr, true, data, 0xF, true, true, 0, false, true⟩

/-- A read. -/
def busRead (addr : BitVec 8) : Inputs := ⟨0, false, 0, 0, false, true, addr, true, true⟩

/-- The core runs in the first cycle and shows `done` from the second on, where the host
writes 3 to `ADDR_IRQ_CTRL_STATUS`. -/
def acknowledgedOnArrival (n : ℕ) : CoreStatus × Inputs :=
  (SigvKv260Core.status { SigvKv260Core.reset with done := n != 0, busy := n == 0 },
    if n = 1 then busWrite addrIrqCtrlStatus 3 else quietBus)

/-- The acknowledge of an earlier completion swallows the one that arrives with it. -/
theorem completion_lost :
    ¬ ∀ (hwBuildMode : BitVec 32) (inputs : ℕ → CoreStatus × Inputs) (n : ℕ),
      Observes (inputs n).1 (trace hwBuildMode inputs n) →
        Kept hwBuildMode (inputs n).1 (inputs n).2 (trace hwBuildMode inputs n) := by
  intro h
  have hkept := h 0 acknowledgedOnArrival 1 ⟨by decide, by decide⟩
  revert hkept
  unfold Kept
  decide

end SigvAxiRegs

end Kv260Sigv
