import Kv260Sigv.System.Polling

/-!
# The configuration of a running batch

The core reads the configuration registers throughout the batch, so they must not move.
While `busy` is up the register block refuses to change them.  Before that, from the
control write on, its only write slot is taken: by the control write itself, then by
the response to it.  Refused writes leave a trace in `STATUS.config_write_ignored`.
-/

set_option autoImplicit false

namespace Kv260Sigv

namespace SigvAxiRegs

/-- The configuration registers. -/
def configAddrs : List (BitVec 8) :=
  [addrMessageLen, addrJobCount, addrVerifyCfg, addrJobTimeoutCycles]

/-- The cycle ignores a write to a configuration register. -/
def ignores (core : CoreStatus) (i : Inputs) (s : State) : Bool :=
  core.busy && (written i s).any fun w => decide (alignedAddr w.addr ∈ configAddrs)

variable {hwBuildMode : BitVec 32} {core : CoreStatus} {i : Inputs} {s : State}

/-- The write decode, for the sticky bit. -/
theorem applyWrite_ignored (busy : Bool) (w : Write) (s n : State) :
    (applyWrite busy w s n).configWriteIgnored =
      if commandBit w 0 || commandBit w 1 then false
      else n.configWriteIgnored || busy && decide (alignedAddr w.addr ∈ configAddrs) := by
  have hconfig : ∀ config, (writeConfig busy config n).configWriteIgnored =
      (n.configWriteIgnored || busy) := by
    intro config
    cases busy with
    | false => exact (Bool.or_false _).symm
    | true => exact (Bool.or_true _).symm
  unfold applyWrite commandBit configAddrs
  dsimp only
  split_ifs with h₀ h₁ h₂ h₃ h₄ h₅ h₆ h₇ <;>
    simp_all [addrControl, addrMessageLen, addrJobCount, addrLedControl, addrVerifyCfg,
      addrJobTimeoutCycles, addrIrqCtrlStatus]

/-- The sticky bit after a cycle. -/
theorem step_configWriteIgnored :
    (step hwBuildMode core i s).configWriteIgnored =
      if commands i s then false else s.configWriteIgnored || ignores core i s := by
  unfold commands ignores
  cases hwritten : written i s with
  | none =>
      rw [step, hwritten]
      simp
  | some w =>
      rw [step, hwritten]
      exact applyWrite_ignored core.busy w s _

/-- A write to a configuration register is ignored, or it takes effect. -/
theorem config_of_written {w : Write} (h : written i s = some w)
    (haddr : alignedAddr w.addr ∈ configAddrs) :
    (step hwBuildMode core i s).config =
      if ignores core i s then s.config else newConfig false w s.config := by
  have hignores : ignores core i s = core.busy := by
    rw [ignores, h, Option.any_some, decide_eq_true haddr, Bool.and_true]
  rw [(step_of_some hwBuildMode core h).1, hignores]
  cases core.busy with
  | false => rfl
  | true => rfl

/-- A command is no write to a configuration register. -/
theorem ignores_of_commands (h : commands i s = true) : ignores core i s = false := by
  rw [← Bool.not_eq_true]
  intro hignores
  unfold commands at h
  unfold ignores at hignores
  cases hwritten : written i s with
  | none =>
      rw [hwritten] at h
      cases h
  | some w =>
      rw [hwritten] at h hignores
      simp only [Option.any_some, Bool.and_eq_true, decide_eq_true_eq] at h hignores
      have hother : alignedAddr w.addr ≠ addrControl := by
        intro hcontrol
        rw [hcontrol] at hignores
        exact absurd hignores.2 (by decide)
      simp only [commandBit_other hother, Bool.or_self, Bool.false_eq_true] at h

end SigvAxiRegs

namespace ControlPlane

open SigvKv260Core SigvAxiRegs

section

variable (hwBuildMode : BitVec 32) (en : Bool) (inputs : ℕ → Inputs)

/-- Cycle `n` of the run accepts a launch. -/
def AcceptsAt (n : ℕ) : Prop :=
  Accepts (coreInputs (inputs n) (trace hwBuildMode en inputs n))
    (trace hwBuildMode en inputs n).core

/-- Cycle `n` of the run ignores a write to a configuration register. -/
def ignoresAt (n : ℕ) : Bool :=
  ignores (SigvKv260Core.status (trace hwBuildMode en inputs n).core) (inputs n).axi
    (trace hwBuildMode en inputs n).regs

/-- Cycle `n` of the run applies a control command with bit 0 or 1 set. -/
def commandsAt (n : ℕ) : Bool := commands (inputs n).axi (trace hwBuildMode en inputs n).regs

/-- The configuration in cycle `n` of the run. -/
def configAt (n : ℕ) : Config := (trace hwBuildMode en inputs n).regs.config

end

variable {hwBuildMode : BitVec 32} {en : Bool} {inputs : ℕ → Inputs} {n m : ℕ}

/-- A busy core keeps its configuration. -/
theorem configAt_of_busy (h : (trace hwBuildMode en inputs n).core.busy = true) :
    configAt hwBuildMode en inputs (n + 1) = configAt hwBuildMode en inputs n := by
  rcases @step_config hwBuildMode (SigvKv260Core.status (trace hwBuildMode en inputs n).core)
    (inputs n).axi (trace hwBuildMode en inputs n).regs with hsame | ⟨-, -, hbusy, -⟩
  · exact hsame
  · exact absurd (h.symm.trans hbusy) (by decide)

/-- So does a cycle without a write to a configuration register. -/
theorem configAt_of_other
    (h : ∀ w, written (inputs n).axi (trace hwBuildMode en inputs n).regs = some w →
      alignedAddr w.addr ∉ configAddrs) :
    configAt hwBuildMode en inputs (n + 1) = configAt hwBuildMode en inputs n := by
  rcases @step_config hwBuildMode (SigvKv260Core.status (trace hwBuildMode en inputs n).core)
    (inputs n).axi (trace hwBuildMode en inputs n).regs with hsame | ⟨w, hwritten, -, hconfig⟩
  · exact hsame
  · exact hconfig.trans (newConfig_other (h w hwritten))

/-- The cycle of the control write and the cycle of its pulse. -/
theorem configAt_of_accepts (h : AcceptsAt hwBuildMode en inputs n) :
    configAt hwBuildMode en inputs (n + 1) = configAt hwBuildMode en inputs n ∧
      ∃ c, n = c + 1 ∧ configAt hwBuildMode en inputs c = configAt hwBuildMode en inputs n := by
  have hpulse : (trace hwBuildMode en inputs n).regs.startPulse = true := h.1.1
  have hnone := (Linked.trace hwBuildMode en inputs n).written_of_pulse
    (i := inputs n) (Or.inl hpulse)
  refine ⟨configAt_of_other fun w hw => ?_, ?_⟩
  · rw [hnone] at hw
    cases hw
  cases n with
  | zero => cases hpulse
  | succ c =>
      refine ⟨c, rfl, (configAt_of_other fun w hw hconfig => ?_).symm⟩
      have hcommand : command 0 (inputs c).axi (trace hwBuildMode en inputs c).regs = true :=
        step_startPulse.symm.trans hpulse
      have hbit : commandBit w 0 = true := by
        rw [command, hw] at hcommand
        exact hcommand
      have hcontrol : alignedAddr w.addr = addrControl := by
        by_contra hother
        rw [commandBit_other hother] at hbit
        cases hbit
      rw [hcontrol] at hconfig
      revert hconfig
      decide

/-- The configuration stands still while the batch is busy. -/
theorem configAt_of_run (h : AcceptsAt hwBuildMode en inputs n) (hle : n < m)
    (hbusy : ∀ j, n < j → j < m → (trace hwBuildMode en inputs j).core.busy = true) :
    configAt hwBuildMode en inputs m = configAt hwBuildMode en inputs n := by
  induction m, hle using Nat.le_induction with
  | base => exact (configAt_of_accepts h).1
  | succ k hk ih =>
      have hbefore := ih fun j hj hj' => hbusy j hj (by omega)
      exact (configAt_of_busy (hbusy k hk (Nat.lt_succ_self k))).trans hbefore

/-- The sticky bit is up exactly when a write has been ignored since the last command. -/
theorem ignored_iff (hwBuildMode : BitVec 32) (en : Bool) (inputs : ℕ → Inputs) (n : ℕ) :
    (trace hwBuildMode en inputs n).regs.configWriteIgnored = true ↔
      ∃ k < n, ignoresAt hwBuildMode en inputs k = true ∧
        ∀ j, k < j → j < n → commandsAt hwBuildMode en inputs j = false := by
  induction n with
  | zero => exact ⟨nofun, fun ⟨k, hk, _⟩ => absurd hk (Nat.not_lt_zero k)⟩
  | succ n ih =>
      have hstep : (trace hwBuildMode en inputs (n + 1)).regs.configWriteIgnored =
          if commandsAt hwBuildMode en inputs n then false
          else (trace hwBuildMode en inputs n).regs.configWriteIgnored ||
            ignoresAt hwBuildMode en inputs n := step_configWriteIgnored
      rw [hstep]
      cases hcommand : commandsAt hwBuildMode en inputs n with
      | true =>
          rw [if_pos rfl]
          refine ⟨nofun, ?_⟩
          rintro ⟨k, hk, hignores, hsince⟩
          rcases Nat.lt_succ_iff_lt_or_eq.mp hk with hlt | rfl
          · exact absurd (hsince n hlt (Nat.lt_succ_self n)) (by rw [hcommand]; decide)
          · exact absurd hignores (by rw [ignoresAt, ignores_of_commands hcommand]; decide)
      | false =>
          rw [if_neg Bool.false_ne_true, Bool.or_eq_true, ih]
          constructor
          · rintro (⟨k, hk, hignores, hsince⟩ | hignores)
            · refine ⟨k, Nat.lt_succ_of_lt hk, hignores, fun j hkj hj => ?_⟩
              rcases Nat.lt_succ_iff_lt_or_eq.mp hj with hlt | rfl
              · exact hsince j hkj hlt
              · exact hcommand
            · exact ⟨n, Nat.lt_succ_self n, hignores, fun j hnj hj => absurd hj (by omega)⟩
          · rintro ⟨k, hk, hignores, hsince⟩
            rcases Nat.lt_succ_iff_lt_or_eq.mp hk with hlt | rfl
            · exact Or.inl ⟨k, hlt, hignores, fun j hkj hj => hsince j hkj (by omega)⟩
            · exact Or.inr hignores

/-- From the control write of an accepted launch until `busy` falls the configuration
keeps the value it has at the launch, and `STATUS.config_write_ignored` is up exactly
when a write to it has been ignored since the last control command. -/
theorem config_frozen (hwBuildMode : BitVec 32) (en : Bool) (inputs : ℕ → Inputs) (n : ℕ) :
    (AcceptsAt hwBuildMode en inputs n → ∀ m, n ≤ m + 1 →
        (∀ j, n < j → j < m → (trace hwBuildMode en inputs j).core.busy = true) →
          configAt hwBuildMode en inputs m = configAt hwBuildMode en inputs n) ∧
      ((statusWord (SigvKv260Core.status (trace hwBuildMode en inputs n).core)
          (trace hwBuildMode en inputs n).regs).getLsbD 5 = true ↔
        ∃ k < n, ignoresAt hwBuildMode en inputs k = true ∧
          ∀ j, k < j → j < n → commandsAt hwBuildMode en inputs j = false) := by
  constructor
  · intro haccepts m hm hbusy
    obtain ⟨-, c, rfl, hbefore⟩ := configAt_of_accepts haccepts
    rcases Nat.lt_trichotomy m (c + 1) with hlt | rfl | hlt
    · obtain rfl : m = c := by omega
      exact hbefore
    · rfl
    · exact configAt_of_run haccepts hlt hbusy
  · rw [(statusWord_bits _ _).2.2.2.2]
    exact ignored_iff hwBuildMode en inputs n

end ControlPlane

end Kv260Sigv
