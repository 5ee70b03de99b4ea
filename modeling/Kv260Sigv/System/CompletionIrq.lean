import Kv260Sigv.System.FrozenConfig

/-!
# Which batch an interrupt reports

A command clears `completion_seen` in the cycle in which it is applied, and the core
takes its old `done` back one cycle later.  In between the edge detector sees the old
level as a new completion, and `irq_pending` goes up for a batch that has been reported
before.  The status register is masked in that cycle; the completion level is not.

`Disturbs` names the commands that come so close to an outcome, and `irq_genuine` says
that without them every rising edge of `irq_pending` reports a batch of its own.
-/

set_option autoImplicit false

namespace Kv260Sigv

namespace SigvKv260Core

/-- The completion level of an orderly core is its `done`. -/
theorem Orderly.completionLevel_eq {s : State} (h : Orderly s) :
    SigvAxiRegs.completionLevel (status s) = s.done := by
  show (s.done || s.error) = s.done
  cases herror : s.error with
  | false => exact Bool.or_false _
  | true => rw [h.error herror, Bool.or_true]

/-- `done` goes up in a cycle that ends a batch. -/
theorem concludes_of_done {en : Bool} {i : Inputs} {s : State} (h : Orderly s)
    (hbefore : s.done = false) (hafter : (step en i s).done = true) : Concludes en i s := by
  cases cycle en i s with
  | accepts hcycle =>
      rw [(step_of_accepts en hcycle).pending.1] at hafter
      cases hafter
  | refuses hcycle => exact Or.inl hcycle
  | resets hreset hstart =>
      rw [step_of_resets hreset hstart] at hafter
      cases hafter
  | timesOut hcycle => exact Or.inr (Or.inl hcycle)
  | completes hcycle => exact Or.inr (Or.inr hcycle)
  | carriesOn hruns htime hall =>
      rw [(step_of_carriesOn hruns htime hall).done, hbefore] at hafter
      cases hafter
  | rests hidle hreset hstart =>
      rw [step_of_rests hidle (h.loader hidle).1 hreset hstart] at hafter
      exact absurd (hbefore.symm.trans hafter) Bool.false_ne_true

end SigvKv260Core

namespace SigvAxiRegs

/-- A quiet bus neither starts nor finishes a write. -/
theorem step_quietBus {hwBuildMode : BitVec 32} {core : CoreStatus} {s : State}
    (h : s.awSeen = false) :
    written quietBus s = none ∧ (step hwBuildMode core quietBus s).awSeen = false := by
  have hnone : written quietBus s = none := by
    simp [written, awHandshake, quietBus, h]
  refine ⟨hnone, ?_⟩
  rw [step, hnone]
  show (s.awSeen || awHandshake quietBus s) = false
  rw [h, awHandshake, quietBus, Bool.and_false, Bool.or_self]

end SigvAxiRegs

namespace ControlPlane

open SigvKv260Core SigvAxiRegs

section

variable (hwBuildMode : BitVec 32) (en : Bool) (inputs : ℕ → Inputs)

/-- `irq_pending` goes from 0 to 1 in cycle `n` of the run. -/
def RaisesAt (n : ℕ) : Prop :=
  (trace hwBuildMode en inputs n).regs.irqPending = false ∧
    (trace hwBuildMode en inputs (n + 1)).regs.irqPending = true

/-- The completion level in cycle `n` of the run. -/
def levelAt (n : ℕ) : Bool :=
  completionLevel (SigvKv260Core.status (trace hwBuildMode en inputs n).core)

/-- Cycle `n` of the run refuses a launch. -/
def RefusesAt (n : ℕ) : Prop :=
  Refuses (coreInputs (inputs n) (trace hwBuildMode en inputs n))
    (trace hwBuildMode en inputs n).core

/-- The command of cycle `c` acts while an outcome is up.  Two such commands do no harm: a
launch that is refused, and a bare soft reset no later than in the first cycle that shows
the outcome. -/
def Disturbs (c : ℕ) : Prop :=
  commandsAt hwBuildMode en inputs c = true ∧ levelAt hwBuildMode en inputs (c + 1) = true ∧
    ¬ RefusesAt hwBuildMode en inputs (c + 1) ∧
    ¬ (commandAt hwBuildMode en inputs 0 c = false ∧
      (levelAt hwBuildMode en inputs c = false ∨
        (trace hwBuildMode en inputs c).regs.completionSeen = false))

/-- Every rising edge of `irq_pending` reports a batch that has ended, no two of them
report the same one, and none comes while a batch is running. -/
structure Genuine : Prop where
  ended : ∀ j, RaisesAt hwBuildMode en inputs j → ∃ k ≤ j, ConcludesAt hwBuildMode en inputs k
  once : ∀ i j, i < j → RaisesAt hwBuildMode en inputs i → RaisesAt hwBuildMode en inputs j →
    ∃ k, i < k ∧ k ≤ j ∧ ConcludesAt hwBuildMode en inputs k
  idle : ∀ j, RaisesAt hwBuildMode en inputs j →
    (trace hwBuildMode en inputs (j + 1)).core.state = .idle

end

variable {hwBuildMode : BitVec 32} {en : Bool} {inputs : ℕ → Inputs} {c j : ℕ}

/-! ### What raises the pending bit -/

theorem irqPending_succ :
    (trace hwBuildMode en inputs (j + 1)).regs.irqPending =
      if commandsAt hwBuildMode en inputs j ||
          acknowledges (inputs j).axi (trace hwBuildMode en inputs j).regs then false
      else (trace hwBuildMode en inputs j).regs.irqPending ||
        (levelAt hwBuildMode en inputs j &&
          !(trace hwBuildMode en inputs j).regs.completionSeen) := step_irqPending

theorem completionSeen_succ :
    (trace hwBuildMode en inputs (c + 1)).regs.completionSeen =
      if commandsAt hwBuildMode en inputs c then false else levelAt hwBuildMode en inputs c :=
  step_completionSeen

/-- A rising edge comes from an observed completion, in a cycle without a command. -/
theorem RaisesAt.observes (h : RaisesAt hwBuildMode en inputs j) :
    levelAt hwBuildMode en inputs j = true ∧
      (trace hwBuildMode en inputs j).regs.completionSeen = false ∧
      commandsAt hwBuildMode en inputs j = false := by
  obtain ⟨hbefore, hafter⟩ := h
  have hstep := irqPending_succ.symm.trans hafter
  rw [hbefore, Bool.false_or] at hstep
  by_cases hclear : (commandsAt hwBuildMode en inputs j ||
      acknowledges (inputs j).axi (trace hwBuildMode en inputs j).regs) = true
  · rw [if_pos hclear] at hstep
    cases hstep
  · rw [if_neg hclear] at hstep
    obtain ⟨hlevel, hseen⟩ := Bool.and_eq_true_iff.mp hstep
    rw [Bool.not_eq_true, Bool.or_eq_false_iff] at hclear
    exact ⟨hlevel, Bool.not_eq_true' _ ▸ hseen, hclear.1⟩

/-- The level goes up in a cycle that ends a batch. -/
theorem concludesAt_of_level (hbefore : levelAt hwBuildMode en inputs c = false)
    (hafter : levelAt hwBuildMode en inputs (c + 1) = true) :
    ConcludesAt hwBuildMode en inputs c := by
  have horderly := (Linked.trace hwBuildMode en inputs c).orderly
  have horderly' := (Linked.trace hwBuildMode en inputs (c + 1)).orderly
  refine concludes_of_done horderly ?_ ?_
  · exact horderly.completionLevel_eq.symm.trans hbefore
  · exact horderly'.completionLevel_eq.symm.trans hafter

/-- The cycle after a command applies no write. -/
theorem written_succ_of_command (h : commandsAt hwBuildMode en inputs c = true) :
    written (inputs (c + 1)).axi (trace hwBuildMode en inputs (c + 1)).regs = none := by
  have hlinked := Linked.trace hwBuildMode en inputs (c + 1)
  have hpulse : (trace hwBuildMode en inputs (c + 1)).regs.startPulse = true ∨
      (trace hwBuildMode en inputs (c + 1)).regs.softResetPulse = true := by
    rcases Bool.or_eq_true_iff.mp (commands_eq.symm.trans h) with hstart | hreset
    · exact Or.inl (step_startPulse.trans hstart)
    · exact Or.inr (step_softResetPulse.trans hreset)
  exact hlinked.written_of_pulse hpulse

theorem commandsAt_succ (h : commandsAt hwBuildMode en inputs c = true) :
    commandsAt hwBuildMode en inputs (c + 1) = false := by
  rw [commandsAt, commands, written_succ_of_command h]
  rfl

/-- The cycle that ended the batch of a rising edge, with no edge in between. -/
theorem RaisesAt.reports (h : RaisesAt hwBuildMode en inputs j)
    (hcalm : ∀ c, ¬ Disturbs hwBuildMode en inputs c) :
    ∃ k ≤ j, ConcludesAt hwBuildMode en inputs k ∧
      ∀ i, RaisesAt hwBuildMode en inputs i → i < j → i < k := by
  obtain ⟨hlevel, hseen, -⟩ := h.observes
  cases j with
  | zero => cases hlevel
  | succ c =>
      -- nothing is raised in a cycle without the level, or with a command
      have hlow : levelAt hwBuildMode en inputs c = false →
          ¬ RaisesAt hwBuildMode en inputs c :=
        fun hlow hraises => Bool.false_ne_true (hlow.symm.trans hraises.observes.1)
      have hstep := hseen.symm.trans completionSeen_succ
      cases hlast : levelAt hwBuildMode en inputs c with
      | false =>
          refine ⟨c, Nat.le_succ c, concludesAt_of_level hlast hlevel, ?_⟩
          intro i hraises hi
          rcases Nat.lt_succ_iff_lt_or_eq.mp hi with hlt | rfl
          · exact hlt
          · exact absurd hraises (hlow hlast)
      | true =>
          have hcommand : commandsAt hwBuildMode en inputs c = true := by
            by_contra hnone
            rw [if_neg hnone, hlast] at hstep
            cases hstep
          by_cases hrefuses : RefusesAt hwBuildMode en inputs (c + 1)
          · exact ⟨c + 1, le_rfl, Or.inl hrefuses, fun _ _ hi => hi⟩
          · have hreset : commandAt hwBuildMode en inputs 0 c = false ∧
                (levelAt hwBuildMode en inputs c = false ∨
                  (trace hwBuildMode en inputs c).regs.completionSeen = false) := by
              by_contra hreset
              exact hcalm c ⟨hcommand, hlevel, hrefuses, hreset⟩
            have hunseen : (trace hwBuildMode en inputs c).regs.completionSeen = false := by
              rcases hreset.2 with hfalse | hunseen
              · exact absurd (hlast.symm.trans hfalse) (by decide)
              · exact hunseen
            -- the outcome is shown for the first time
            cases c with
            | zero => cases hlast
            | succ b =>
                have hquiet : commandsAt hwBuildMode en inputs b = false := by
                  rw [← Bool.not_eq_true]
                  intro hbusy
                  rw [commandsAt_succ hbusy] at hcommand
                  cases hcommand
                have hfirst := hunseen.symm.trans completionSeen_succ
                rw [hquiet, if_neg Bool.false_ne_true] at hfirst
                refine ⟨b, by omega, concludesAt_of_level hfirst.symm hlast, ?_⟩
                intro i hraises hi
                rcases Nat.lt_or_ge i b with hlt | hge
                · exact hlt
                rcases Nat.eq_or_lt_of_le hge with rfl | hgt
                · exact absurd (hfirst.trans hraises.observes.1) (by decide)
                · obtain rfl : i = b + 1 := by omega
                  rw [hraises.observes.2.2] at hcommand
                  cases hcommand

/-- The pulse of a command that finds an outcome raises the pending bit. -/
theorem raisesAt_of_command (hcommand : commandsAt hwBuildMode en inputs c = true)
    (hlevel : levelAt hwBuildMode en inputs (c + 1) = true) :
    RaisesAt hwBuildMode en inputs (c + 1) := by
  have hseen := @completionSeen_succ hwBuildMode en inputs c
  have hpending := @irqPending_succ hwBuildMode en inputs c
  rw [hcommand, if_pos rfl] at hseen
  rw [hcommand, Bool.true_or, if_pos rfl] at hpending
  have hnone := written_succ_of_command hcommand
  have hcommand' : commandsAt hwBuildMode en inputs (c + 1) = false := commandsAt_succ hcommand
  have hack : acknowledges (inputs (c + 1)).axi (trace hwBuildMode en inputs (c + 1)).regs =
      false := by
    rw [acknowledges, hnone]
    rfl
  refine ⟨hpending, ?_⟩
  rw [irqPending_succ, hcommand', hack, hlevel, hseen]
  exact Bool.or_true _

/-- While the core shows an outcome only an accepted launch sets it running. -/
theorem acceptsAt_of_run (hlevel : levelAt hwBuildMode en inputs j = true)
    (hrun : (trace hwBuildMode en inputs (j + 1)).core.state = .run) :
    AcceptsAt hwBuildMode en inputs j := by
  have horderly := (Linked.trace hwBuildMode en inputs j).orderly
  have hidle := horderly.idle_of_done (horderly.completionLevel_eq.symm.trans hlevel)
  have hstep : (SigvKv260Core.step en (coreInputs (inputs j) (trace hwBuildMode en inputs j))
      (trace hwBuildMode en inputs j).core).state = .run := hrun
  cases cycle en (coreInputs (inputs j) (trace hwBuildMode en inputs j))
    (trace hwBuildMode en inputs j).core with
  | accepts hcycle => exact hcycle
  | refuses hcycle =>
      obtain ⟨m, -, hm⟩ := step_of_refuses en hcycle
      rw [hm] at hstep
      cases hstep
  | resets hreset hstart =>
      rw [step_of_resets hreset hstart] at hstep
      cases hstep
  | timesOut hcycle => cases hidle.symm.trans hcycle.1.1
  | completes hcycle => cases hidle.symm.trans hcycle.1.1
  | carriesOn hruns _ _ => cases hidle.symm.trans hruns.1
  | rests _ hreset hstart =>
      rw [step_of_rests hidle (horderly.loader hidle).1 hreset hstart] at hstep
      cases hidle.symm.trans hstep

/-- In a run without disturbing commands every rising edge of `irq_pending` reports a
batch of its own that has ended, and none comes while a batch is running. -/
theorem irq_genuine (hwBuildMode : BitVec 32) (en : Bool) (inputs : ℕ → Inputs)
    (hcalm : ∀ c, ¬ Disturbs hwBuildMode en inputs c) : Genuine hwBuildMode en inputs := by
  refine ⟨?_, ?_, ?_⟩
  · intro j hraises
    obtain ⟨k, hk, hconcludes, -⟩ := hraises.reports hcalm
    exact ⟨k, hk, hconcludes⟩
  · intro i j hij hraises hraises'
    obtain ⟨k, hk, hconcludes, hbetween⟩ := hraises'.reports hcalm
    exact ⟨k, hbetween i hraises hij, hk, hconcludes⟩
  · intro j hraises
    cases hstate : (trace hwBuildMode en inputs (j + 1)).core.state with
    | idle => rfl
    | run =>
        obtain ⟨hlevel, -, -⟩ := hraises.observes
        have haccepts := acceptsAt_of_run hlevel hstate
        cases j with
        | zero => cases hlevel
        | succ c =>
            have hcommand : commandAt hwBuildMode en inputs 0 c = true :=
              step_startPulse.symm.trans haccepts.1.1
            have hcommands : commandsAt hwBuildMode en inputs c = true :=
              commands_eq.trans (Bool.or_eq_true_iff.mpr (Or.inl hcommand))
            refine absurd ⟨hcommands, hlevel, ?_, ?_⟩ (hcalm c)
            · exact fun hrefuses => hrefuses.2 haccepts.2
            · exact fun hreset => Bool.false_ne_true (hreset.1.symm.trans hcommand)

/-! ### Runs of the bus master -/

/-- Once a script without a half-finished write is over, no write is applied. -/
theorem written_of_quiet {script : List SigvAxiRegs.Inputs} {n₀ n : ℕ}
    (hlength : script.length ≤ n₀)
    (haw : (trace hwBuildMode en (scripted script) n₀).regs.awSeen = false) (hn : n₀ ≤ n) :
    written (scripted script n).axi (trace hwBuildMode en (scripted script) n).regs = none := by
  have hquiet : ∀ n, n₀ ≤ n → (scripted script n).axi = quietBus := by
    intro n hn
    show script.getD n quietBus = quietBus
    rw [List.getD_eq_getElem?_getD, List.getElem?_eq_none (hlength.trans hn)]
    rfl
  have hlow : (trace hwBuildMode en (scripted script) n).regs.awSeen = false := by
    induction n, hn using Nat.le_induction with
    | base => exact haw
    | succ n hn ih =>
        show (SigvAxiRegs.step _ _ (scripted script n).axi _).awSeen = false
        rw [hquiet n hn]
        exact (step_quietBus ih).2
  rw [hquiet n hn]
  exact (@step_quietBus hwBuildMode (SigvKv260Core.status
    (trace hwBuildMode en (scripted script) n).core) _ hlow).1

/-- Two launches without a job, both refused. -/
def refusedTwice : List SigvAxiRegs.Inputs :=
  [busWrite addrControl 1, quietBus, quietBus, quietBus, busWrite addrControl 1]

theorem irq_genuine_refusedTwice : Genuine 0 false (scripted refusedTwice) := by
  refine irq_genuine 0 false (scripted refusedTwice) ?_
  rintro c ⟨hcommand, -, hrefuses, -⟩
  rcases Nat.lt_or_ge c 5 with hlt | hge
  · interval_cases c
    · exact hrefuses ⟨⟨by decide +kernel, Or.inr (by decide +kernel)⟩, by decide +kernel⟩
    · exact absurd hcommand (by decide +kernel)
    · exact absurd hcommand (by decide +kernel)
    · exact absurd hcommand (by decide +kernel)
    · exact hrefuses ⟨⟨by decide +kernel, Or.inr (by decide +kernel)⟩, by decide +kernel⟩
  · rw [commandsAt, commands, @written_of_quiet 0 false refusedTwice 5 c (by decide) (by decide +kernel) hge]
      at hcommand
    cases hcommand

/-- A launch that is refused for want of a job, then a job and a launch. -/
def refusedThenLaunched : ℕ → Inputs :=
  scripted [busWrite addrControl 1, quietBus, busWrite addrJobCount 1, quietBus,
    busWrite addrControl 1]

/-- The outcome of the refused launch raises the pending bit a second time, while the
batch of the second launch is running. -/
theorem irq_spurious :
    ¬ ∀ (hwBuildMode : BitVec 32) (en : Bool) (inputs : ℕ → Inputs),
      Genuine hwBuildMode en inputs := by
  intro h
  have hraises : RaisesAt 0 false refusedThenLaunched 5 :=
    raisesAt_of_command (by decide +kernel) (by decide +kernel)
  have hidle := (h 0 false refusedThenLaunched).idle 5 hraises
  have hrun : (trace 0 false refusedThenLaunched 6).core.state = .run := by decide +kernel
  cases hidle.symm.trans hrun

end ControlPlane

end Kv260Sigv
