import Kv260Sigv.System.ControlPlane

/-!
# What a poll reads after a launch

Between the command and the end of the batch it launches, three registers take turns
in hiding the previous batch: the hold mask and the launch marker for one cycle, the
core's own running state from then on.  A status read therefore shows `busy` and no
outcome until the batch has ended.  A later soft reset ends a batch without an outcome,
and the core then shows that it is idle.
-/

set_option autoImplicit false

namespace Kv260Sigv

namespace SigvKv260Core

instance (i : Inputs) (s : State) : Decidable (Starts i s) :=
  inferInstanceAs (Decidable (_ ∧ _))

instance (c : Config) : Decidable c.Launchable := inferInstanceAs (Decidable (_ ∧ _))

instance (i : Inputs) (s : State) : Decidable (Refuses i s) :=
  inferInstanceAs (Decidable (_ ∧ _))

instance (i : Inputs) (s : State) : Decidable (Runs i s) := inferInstanceAs (Decidable (_ ∧ _))

instance (en : Bool) (i : Inputs) (s : State) : Decidable (TimesOut en i s) :=
  inferInstanceAs (Decidable (_ ∧ _))

instance (en : Bool) (i : Inputs) (s : State) : Decidable (Completes en i s) :=
  inferInstanceAs (Decidable (_ ∧ _))

instance (en : Bool) (i : Inputs) (s : State) : Decidable (Concludes en i s) :=
  inferInstanceAs (Decidable (_ ∨ _))

end SigvKv260Core

namespace SigvAxiRegs

/-- The bits of the status word that a poll looks at. -/
theorem statusWord_bits (core : CoreStatus) (s : State) :
    (statusWord core s).getLsbD 0 = statusBusy core s ∧
      (statusWord core s).getLsbD 1 = statusDone core s ∧
      (statusWord core s).getLsbD 2 = statusError core s ∧
      (statusWord core s).getLsbD 3 = statusResultValid core s ∧
      (statusWord core s).getLsbD 5 = s.configWriteIgnored := by
  unfold statusWord
  cases core.busy <;> cases s.configWriteIgnored <;> cases s.irqPending <;>
    cases statusResultValid core s <;> cases statusError core s <;> cases statusDone core s <;>
    cases statusBusy core s <;> decide

/-- An accepted read is answered with the word of its address. -/
theorem step_rdata {hwBuildMode : BitVec 32} {core : CoreStatus} {i : Inputs} {s : State}
    {addr : BitVec 8} (h : accepted i s = some addr) :
    (step hwBuildMode core i s).rdata = readWord hwBuildMode core s addr ∧
      (step hwBuildMode core i s).rvalid = true := by
  unfold accepted at h
  split at h
  · next hread =>
      cases h
      have hwrite : ∀ w n, (applyWrite core.busy w s n).rdata = n.rdata ∧
          (applyWrite core.busy w s n).rvalid = n.rvalid := by
        intro w n
        have hconfig : ∀ config, (writeConfig core.busy config n).rdata = n.rdata ∧
            (writeConfig core.busy config n).rvalid = n.rvalid := by
          intro config
          unfold writeConfig
          split <;> exact ⟨rfl, rfl⟩
        unfold applyWrite
        dsimp only
        repeat' split
        all_goals first
          | exact ⟨rfl, rfl⟩
          | exact hconfig _
      rw [step]
      cases written i s with
      | none => exact ⟨if_pos hread, if_pos hread⟩
      | some w =>
          exact ⟨(hwrite w _).1.trans (if_pos hread), (hwrite w _).2.trans (if_pos hread)⟩
  · cases h

end SigvAxiRegs

namespace ControlPlane

open SigvKv260Core SigvAxiRegs

section

variable (hwBuildMode : BitVec 32) (en : Bool) (inputs : ℕ → Inputs)

/-- Bit `k` of the command that cycle `n` of the run applies. -/
def commandAt (k n : ℕ) : Bool :=
  command k (inputs n).axi (trace hwBuildMode en inputs n).regs

/-- Cycle `n` of the run ends a batch. -/
def ConcludesAt (n : ℕ) : Prop :=
  Concludes en (coreInputs (inputs n) (trace hwBuildMode en inputs n))
    (trace hwBuildMode en inputs n).core

/-- Cycle `c` writes `RESET_THEN_START`, or `START` with a pulse that finds the core idle. -/
def LaunchCommand (c : ℕ) : Prop :=
  commandAt hwBuildMode en inputs 0 c = true ∧
    (commandAt hwBuildMode en inputs 1 c = true ∨
      (trace hwBuildMode en inputs (c + 1)).core.state = .idle)

/-- Cycle `d` accepts a read of the status register. -/
def StatusReadAt (d : ℕ) : Prop :=
  ∃ addr, accepted (inputs d).axi (trace hwBuildMode en inputs d).regs = some addr ∧
    alignedAddr addr = addrStatus

/-- The word that the read accepted in cycle `d` returns. -/
def readAt (d : ℕ) : BitVec 32 := (trace hwBuildMode en inputs (d + 1)).regs.rdata

/-- The status shows a batch on its way and nothing else. -/
def ShowsRunning (word : BitVec 32) : Prop :=
  word.getLsbD 0 = true ∧ word.getLsbD 1 = false ∧ word.getLsbD 2 = false ∧
    word.getLsbD 3 = false

end

variable {hwBuildMode : BitVec 32} {en : Bool} {inputs : ℕ → Inputs} {c d : ℕ}

instance (n : ℕ) : Decidable (ConcludesAt hwBuildMode en inputs n) :=
  inferInstanceAs (Decidable (Concludes _ _ _))

/-- The pulse of a launch command launches a batch. -/
theorem LaunchCommand.starts (h : LaunchCommand hwBuildMode en inputs c) :
    Starts (coreInputs (inputs (c + 1)) (trace hwBuildMode en inputs (c + 1)))
      (trace hwBuildMode en inputs (c + 1)).core := by
  refine ⟨step_startPulse.trans h.1, ?_⟩
  rcases h.2 with hreset | hidle
  · exact Or.inl (step_softResetPulse.trans hreset)
  · exact Or.inr hidle

/-- The batch runs until it ends or a later command resets the core. -/
theorem LaunchCommand.runs (h : LaunchCommand hwBuildMode en inputs c)
    (hopen : ∀ j, c < j → j < d → ¬ ConcludesAt hwBuildMode en inputs j)
    (hreset : ∀ e, c < e → e + 1 < d → commandAt hwBuildMode en inputs 1 e = false) :
    ∀ j, c + 2 ≤ j → j ≤ d → (trace hwBuildMode en inputs j).core.state = .run := by
  intro j hj
  induction j, hj using Nat.le_induction with
  | base =>
      intro hd
      have hconfig : (coreInputs (inputs (c + 1))
          (trace hwBuildMode en inputs (c + 1))).config.Launchable := by
        by_contra hrefused
        exact hopen (c + 1) (by omega) (by omega) (Or.inl ⟨h.starts, hrefused⟩)
      exact (step_of_accepts en ⟨h.starts, hconfig⟩).state
  | succ j hj ih =>
      intro hd
      obtain ⟨k, rfl⟩ : ∃ k, j = k + 1 := ⟨j - 1, by omega⟩
      have hruns : Runs (coreInputs (inputs (k + 1)) (trace hwBuildMode en inputs (k + 1)))
          (trace hwBuildMode en inputs (k + 1)).core :=
        ⟨ih (by omega), step_softResetPulse.trans (hreset k (by omega) (by omega))⟩
      have hcycle := hopen (k + 1) (by omega) (by omega)
      exact (step_of_carriesOn hruns (fun htime => hcycle (Or.inr (Or.inl htime)))
        fun hall => hcycle (Or.inr (Or.inr hall))).state.trans hruns.1

/-- What the status registers show in a cycle in which the batch has not ended. -/
theorem LaunchCommand.status (h : LaunchCommand hwBuildMode en inputs c) (hlater : c < d)
    (hopen : ∀ j, c < j → j < d → ¬ ConcludesAt hwBuildMode en inputs j)
    (hreset : ∀ e, c < e → e + 1 < d → commandAt hwBuildMode en inputs 1 e = false) :
    let p := trace hwBuildMode en inputs d
    ShowsRunning (statusWord (SigvKv260Core.status p.core) p.regs) := by
  have hlinked := Linked.trace hwBuildMode en inputs d
  dsimp only
  unfold ShowsRunning
  obtain ⟨hbusy, hdone, herror, hvalid, -⟩ := statusWord_bits
    (SigvKv260Core.status (trace hwBuildMode en inputs d).core)
    (trace hwBuildMode en inputs d).regs
  rw [hbusy, hdone, herror, hvalid]
  rcases Nat.lt_or_eq_of_le hlater with hnext | rfl
  · -- the core itself shows the batch
    have hrun := h.runs hopen hreset d (by omega) le_rfl
    have hpending := hlinked.orderly.pending hrun
    refine ⟨Bool.or_eq_true_iff.mpr (Or.inl (hlinked.orderly.busy.mpr hrun)), ?_, ?_, ?_⟩
    · exact Bool.and_eq_false_iff.mpr (Or.inr hpending.1)
    · exact Bool.and_eq_false_iff.mpr (Or.inr hpending.2.1)
    · exact Bool.and_eq_false_iff.mpr (Or.inr hpending.2.2)
  · -- the core still shows the previous batch, behind the hold mask
    have hpulse : (trace hwBuildMode en inputs (c + 1)).regs.startPulse = true :=
      step_startPulse.trans h.1
    have hhold : (!(trace hwBuildMode en inputs (c + 1)).regs.statusClearHold) = false := by
      rw [hlinked.hold, hpulse]
      rfl
    refine ⟨Bool.or_eq_true_iff.mpr (Or.inr (hlinked.pending.trans hpulse)), ?_, ?_, ?_⟩
    · exact Bool.and_eq_false_iff.mpr (Or.inl hhold)
    · exact Bool.and_eq_false_iff.mpr (Or.inl hhold)
    · exact Bool.and_eq_false_iff.mpr (Or.inl hhold)

/-- After a launch command a status read shows `busy` and no outcome, until the batch of
that command has completed, has been rejected, or has been cut short by a later command
with bit 1 set. -/
theorem poll_not_stale (hwBuildMode : BitVec 32) (en : Bool) (inputs : ℕ → Inputs) (c d : ℕ)
    (h : LaunchCommand hwBuildMode en inputs c) (hlater : c < d)
    (hread : StatusReadAt hwBuildMode en inputs d)
    (hopen : ∀ j, c < j → j < d → ¬ ConcludesAt hwBuildMode en inputs j)
    (hreset : ∀ e, c < e → e + 1 < d → commandAt hwBuildMode en inputs 1 e = false) :
    ShowsRunning (readAt hwBuildMode en inputs d) := by
  obtain ⟨addr, haccepted, haddr⟩ := hread
  have hdata := (@step_rdata hwBuildMode
    (SigvKv260Core.status (trace hwBuildMode en inputs d).core) _ _ _ haccepted).1
  have hword : readAt hwBuildMode en inputs d =
      statusWord (SigvKv260Core.status (trace hwBuildMode en inputs d).core)
        (trace hwBuildMode en inputs d).regs := by
    refine hdata.trans ?_
    unfold readWord
    dsimp only
    rw [if_pos haddr]
  rw [hword]
  exact h.status hlater hopen hreset

/-- One job, a launch, and three cycles later a poll. -/
def launchAndPoll : ℕ → Inputs :=
  scripted [busWrite addrJobCount 1, quietBus, busWrite addrControl 1, quietBus, quietBus,
    busRead addrStatus]

theorem poll_not_stale_launchAndPoll : ShowsRunning (readAt 0 false launchAndPoll 5) := by
  refine poll_not_stale 0 false launchAndPoll 2 5 ?_ (by decide) ⟨addrStatus, ?_, ?_⟩ ?_ ?_
  · exact ⟨by decide +kernel, Or.inr (by decide +kernel)⟩
  · decide +kernel
  · decide
  · have hopen : ∀ j < 5, ¬ ConcludesAt 0 false launchAndPoll j := by decide +kernel
    exact fun j _ hj => hopen j hj
  · have hreset : ∀ e < 5, commandAt 0 false launchAndPoll 1 e = false := by decide +kernel
    exact fun e _ he => hreset e (by omega)

/-- One job, a launch, a soft reset, and a poll. -/
def launchAndReset : ℕ → Inputs :=
  scripted [busWrite addrJobCount 1, quietBus, busWrite addrControl 1, quietBus,
    busWrite addrControl 2, quietBus, busRead addrStatus]

/-- After a soft reset the core shows that it is idle, although no batch has ended. -/
theorem poll_after_reset :
    ¬ ∀ (hwBuildMode : BitVec 32) (en : Bool) (inputs : ℕ → Inputs) (c d : ℕ),
      LaunchCommand hwBuildMode en inputs c → c < d → StatusReadAt hwBuildMode en inputs d →
        (∀ j, c < j → j < d → ¬ ConcludesAt hwBuildMode en inputs j) →
          ShowsRunning (readAt hwBuildMode en inputs d) := by
  intro h
  have hopen : ∀ j < 6, ¬ ConcludesAt 0 false launchAndReset j := by decide +kernel
  have hidle : (readAt 0 false launchAndReset 6).getLsbD 0 = false := by decide +kernel
  have hrunning := h 0 false launchAndReset 2 6
    ⟨by decide +kernel, Or.inr (by decide +kernel)⟩ (by decide)
    ⟨addrStatus, by decide +kernel, by decide⟩ fun j _ hj => hopen j hj
  exact Bool.false_ne_true (hidle.symm.trans hrunning.1)

end ControlPlane

end Kv260Sigv
