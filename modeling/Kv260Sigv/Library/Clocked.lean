import Mathlib.Data.Nat.Basic
import Mathlib.Order.WellFounded
import Mathlib.Tactic.Common

/-!
# Clocked machines

A synchronous design is a function `step` from the inputs of a cycle and the
register contents before it to the register contents after it.  `run` iterates
it along a stream of inputs.

Most of a data path is a fixed schedule: whatever the inputs, so many cycles
later the registers hold this and that, and an output stays low in between.
`Leads` states it, and `Leads.trans` and `Leads.loop` compose such schedules the
way the state machine does.
-/

namespace Clocked

variable {ι σ : Type*}

/-- The registers after `n` cycles. -/
def run (step : ι → σ → σ) (inputs : ℕ → ι) (s : σ) : ℕ → σ
  | 0 => s
  | n + 1 => step (inputs n) (run step inputs s n)

variable {step : ι → σ → σ} {inputs : ℕ → ι} {s : σ}

@[simp] theorem run_zero : run step inputs s 0 = s := rfl

theorem run_succ (n : ℕ) :
    run step inputs s (n + 1) = step (inputs n) (run step inputs s n) := rfl

/-- The first `m` cycles, then the rest. -/
theorem run_add (m n : ℕ) :
    run step inputs s (m + n) = run step (fun k => inputs (m + k)) (run step inputs s m) n := by
  induction n with
  | zero => rfl
  | succ n ih => rw [← Nat.add_assoc, run_succ, ih, run_succ]

theorem run_succ' (n : ℕ) :
    run step inputs s (n + 1) =
      run step (fun k => inputs (k + 1)) (step (inputs 0) s) n := by
  rw [Nat.add_comm, run_add]
  simp only [Nat.add_comm 1]
  rfl

/-- What every cycle preserves holds along the run. -/
theorem run_invariant {inv : σ → Prop} (hstep : ∀ i s, inv s → inv (step i s)) (h : inv s) :
    ∀ n, inv (run step inputs s n) := by
  intro n
  induction n with
  | zero => exact h
  | succ n ih => exact hstep _ _ ih

/-- If from every moment of `P` the next is a goal, or one of `P` with a lower
measure, then a goal comes after moments of `P` only. -/
theorem exists_goal {α : Type*} [Preorder α] [WellFoundedLT α] {P goal : ℕ → Prop}
    (measure : ℕ → α)
    (hstep : ∀ k, P k → goal (k + 1) ∨ P (k + 1) ∧ measure (k + 1) < measure k) {k : ℕ}
    (h : P k) : ∃ n, goal (k + n + 1) ∧ ∀ m ≤ n, P (k + m) := by
  induction hm : measure k using WellFoundedLT.induction generalizing k with
  | ind a ih =>
      subst hm
      rcases hstep k h with hgoal | ⟨hnext, hlt⟩
      · refine ⟨0, hgoal, ?_⟩
        intro m hm
        rw [Nat.le_zero.mp hm]
        exact h
      · obtain ⟨n, hgoal, hbefore⟩ := ih _ hlt hnext rfl
        refine ⟨n + 1, by rwa [show k + (n + 1) + 1 = k + 1 + n + 1 by omega], ?_⟩
        intro m hm
        cases m with
        | zero => exact h
        | succ m =>
            rw [show k + (m + 1) = k + 1 + m by omega]
            exact hbefore m (by omega)

/-- Like `exists_goal` where the next moment of `P` may be a while away. -/
theorem exists_later_goal {P goal : ℕ → Prop} (measure : ℕ → ℕ)
    (hstep : ∀ k, P k → ∃ n, goal (k + n + 1) ∨
      P (k + n + 1) ∧ measure (k + n + 1) < measure k) {k : ℕ} (h : P k) :
    ∃ n, goal (k + n + 1) := by
  induction hm : measure k using Nat.strong_induction_on generalizing k with
  | h a ih =>
      subst hm
      obtain ⟨n, hgoal | ⟨hnext, hlt⟩⟩ := hstep k h
      · exact ⟨n, hgoal⟩
      · obtain ⟨m, hgoal⟩ := ih _ hlt hnext rfl
        exact ⟨n + m + 1, by rwa [show k + (n + m + 1) + 1 = k + n + 1 + m + 1 by omega]⟩

/-- The run of a part of a machine, with the inputs the rest of it gives. -/
theorem run_part {κ τ : Type*} {whole : κ → τ → τ} {part : τ → σ} {port : κ → τ → ι}
    (hpart : ∀ i t, part (whole i t) = step (port i t) (part t)) (outer : ℕ → κ) (t : τ)
    (n : ℕ) :
    part (run whole outer t n) =
      run step (fun k => port (outer k) (run whole outer t k)) (part t) n := by
  induction n with
  | zero => rfl
  | succ n ih => rw [run_succ, hpart, run_succ, ih]

/-- If every cycle that keeps the invariant reaches the goal or lowers the
measure, the run reaches the goal. -/
theorem run_until {α : Type*} [Preorder α] [WellFoundedLT α] {ok : ι → Prop} {inv goal : σ → Prop}
    (measure : σ → α)
    (hstep : ∀ i s, ok i → inv s →
      goal (step i s) ∨ inv (step i s) ∧ measure (step i s) < measure s)
    (hok : ∀ k, ok (inputs k)) (h : inv s) :
    ∃ n, goal (run step inputs s (n + 1)) ∧ ∀ m ≤ n, inv (run step inputs s m) := by
  obtain ⟨n, hgoal, hbefore⟩ := @exists_goal α _ _ (fun k => inv (run step inputs s k))
    (fun k => goal (run step inputs s k)) (fun k => measure (run step inputs s k))
    (fun k hk => hstep _ _ (hok k) hk) 0 h
  simp only [Nat.zero_add] at hgoal hbefore
  exact ⟨n, hgoal, hbefore⟩

/-- From every state of `P` and for all inputs, the machine is in `Q` after `n`
cycles and in `D` after every cycle before that. -/
def Leads (step : ι → σ → σ) (D : σ → Prop) (n : ℕ) (P Q : σ → Prop) : Prop :=
  ∀ (inputs : ℕ → ι) (s : σ), P s →
    Q (run step inputs s n) ∧ ∀ m, 0 < m → m < n → D (run step inputs s m)

variable {D P Q R : σ → Prop} {m n : ℕ}

/-- One cycle. -/
theorem Leads.single (h : ∀ i s, P s → Q (step i s)) : Leads step D 1 P Q := by
  intro inputs s hs
  refine ⟨h _ _ hs, ?_⟩
  intro m hpos hlt
  omega

/-- One schedule after the other. -/
theorem Leads.trans (h₁ : Leads step D m P Q) (hD : ∀ s, Q s → D s)
    (h₂ : Leads step D n Q R) : Leads step D (m + n) P R := by
  intro inputs s hs
  obtain ⟨hmid, hbefore⟩ := h₁ inputs s hs
  obtain ⟨hend, hafter⟩ := h₂ (fun k => inputs (m + k)) _ hmid
  refine ⟨by rw [run_add]; exact hend, ?_⟩
  intro k hpos hlt
  rcases Nat.lt_trichotomy k m with hk | rfl | hk
  · exact hbefore k hpos hk
  · exact hD _ hmid
  · obtain ⟨j, rfl⟩ := Nat.exists_eq_add_of_lt hk
    rw [Nat.add_assoc, run_add]
    exact hafter (j + 1) (Nat.succ_pos j) (by omega)

/-- A counted loop: the body takes the invariant from one count to the next. -/
theorem Leads.loop {inv : ℕ → σ → Prop} (n : ℕ)
    (hstep : ∀ k < n, ∀ i s, inv k s → inv (k + 1) (step i s))
    (hD : ∀ k ≤ n, ∀ s, inv k s → D s) : Leads step D n (inv 0) (inv n) := by
  intro inputs s hs
  have hrun : ∀ k ≤ n, inv k (run step inputs s k) := by
    intro k
    induction k with
    | zero =>
        intro _
        exact hs
    | succ k ih =>
        intro hk
        exact hstep k hk _ _ (ih (by omega))
  exact ⟨hrun n le_rfl, fun k _ hk => hD k (Nat.le_of_lt hk) _ (hrun k (Nat.le_of_lt hk))⟩

/-- Weakening. -/
theorem Leads.mono {P' Q' : σ → Prop} (h : Leads step D n P Q) (hP : ∀ s, P' s → P s)
    (hQ : ∀ s, Q s → Q' s) : Leads step D n P' Q' := by
  intro inputs s hs
  obtain ⟨hend, hbefore⟩ := h inputs s (hP s hs)
  exact ⟨hQ _ hend, hbefore⟩

/-- Like `Leads` where the inputs decide how long it takes. -/
def Reaches (step : ι → σ → σ) (D P Q : σ → Prop) : Prop :=
  ∀ (inputs : ℕ → ι) (s : σ), P s →
    ∃ n, Q (run step inputs s n) ∧ ∀ m, 0 < m → m < n → D (run step inputs s m)

theorem Leads.reaches (h : Leads step D n P Q) : Reaches step D P Q := by
  intro inputs s hs
  exact ⟨n, h inputs s hs⟩

theorem Reaches.refl : Reaches step D P P := by
  intro inputs s hs
  refine ⟨0, hs, ?_⟩
  intro m _ hlt
  omega

/-- One wait after the other. -/
theorem Reaches.trans (h₁ : Reaches step D P Q) (hD : ∀ s, Q s → D s)
    (h₂ : Reaches step D Q R) : Reaches step D P R := by
  intro inputs s hs
  obtain ⟨m, hmid, hbefore⟩ := h₁ inputs s hs
  obtain ⟨n, hend, hafter⟩ := h₂ (fun k => inputs (m + k)) _ hmid
  refine ⟨m + n, by rw [run_add]; exact hend, ?_⟩
  intro k hpos hlt
  rcases Nat.lt_trichotomy k m with hk | rfl | hk
  · exact hbefore k hpos hk
  · exact hD _ hmid
  · obtain ⟨j, rfl⟩ := Nat.exists_eq_add_of_lt hk
    rw [Nat.add_assoc, run_add]
    exact hafter (j + 1) (Nat.succ_pos j) (by omega)

/-- A counted loop of waits. -/
theorem Reaches.loop {inv : ℕ → σ → Prop} (n : ℕ)
    (hstep : ∀ k < n, Reaches step D (inv k) (inv (k + 1)))
    (hD : ∀ k < n, ∀ s, inv k s → D s) : Reaches step D (inv 0) (inv n) := by
  induction n with
  | zero => exact .refl
  | succ n ih =>
      have hbefore := ih (fun k hk => hstep k (by omega)) fun k hk => hD k (by omega)
      exact hbefore.trans (hD n (Nat.lt_succ_self n)) (hstep n (Nat.lt_succ_self n))

/-- Waiting keeps an invariant. -/
theorem Reaches.and_invariant {inv : σ → Prop} (hinv : ∀ i s, inv s → inv (step i s))
    (h : Reaches step D P Q) :
    Reaches step D (fun s => inv s ∧ P s) fun s => inv s ∧ Q s := by
  rintro inputs s ⟨hs, hP⟩
  obtain ⟨n, hend, hbefore⟩ := h inputs s hP
  exact ⟨n, ⟨run_invariant hinv hs n, hend⟩, hbefore⟩

/-- Weakening. -/
theorem Reaches.mono {P' Q' : σ → Prop} (h : Reaches step D P Q) (hP : ∀ s, P' s → P s)
    (hQ : ∀ s, Q s → Q' s) : Reaches step D P' Q' := by
  intro inputs s hs
  obtain ⟨n, hend, hbefore⟩ := h inputs s (hP s hs)
  exact ⟨n, hQ _ hend, hbefore⟩

end Clocked
