import Mathlib.Data.Finset.Card
import Mathlib.Data.Finset.Range
import Mathlib.Tactic.Common

/-!
# Scoreboards

What a dispatcher that hands out jobs `0, 1, 2, …` in order keeps track of: how
many it has handed out and which of these are still in flight.  Everything else,
the set of finished jobs and their number, is determined by these two.
-/

/-- The jobs below `handed` have been handed out; those of `inFlight` are not
finished. -/
structure Scoreboard where
  handed : ℕ
  inFlight : Finset ℕ
  lt_handed : ∀ j ∈ inFlight, j < handed

namespace Scoreboard

/-- Nothing handed out yet. -/
def empty : Scoreboard := ⟨0, ∅, by simp⟩

/-- The jobs that are finished. -/
def finished (s : Scoreboard) : Finset ℕ := Finset.range s.handed \ s.inFlight

/-- Hand out the next job. -/
def hand (s : Scoreboard) : Scoreboard where
  handed := s.handed + 1
  inFlight := insert s.handed s.inFlight
  lt_handed := by
    intro j hj
    rcases Finset.mem_insert.mp hj with rfl | hj
    · exact Nat.lt_succ_self _
    · exact Nat.lt_succ_of_lt (s.lt_handed j hj)

/-- Some jobs finish. -/
def finish (s : Scoreboard) (jobs : Finset ℕ) : Scoreboard where
  handed := s.handed
  inFlight := s.inFlight \ jobs
  lt_handed := by
    intro j hj
    exact s.lt_handed j (Finset.mem_sdiff.mp hj).1

variable {s : Scoreboard} {jobs : Finset ℕ}

@[simp] theorem hand_handed : s.hand.handed = s.handed + 1 := rfl

@[simp] theorem hand_inFlight : s.hand.inFlight = insert s.handed s.inFlight := rfl

@[simp] theorem finish_handed : (s.finish jobs).handed = s.handed := rfl

@[simp] theorem finish_inFlight : (s.finish jobs).inFlight = s.inFlight \ jobs := rfl

theorem mem_finished {j : ℕ} : j ∈ s.finished ↔ j < s.handed ∧ j ∉ s.inFlight := by
  rw [finished, Finset.mem_sdiff, Finset.mem_range]

/-- The next job has not been handed out. -/
theorem handed_notMem : s.handed ∉ s.inFlight := by
  intro h
  exact Nat.lt_irrefl _ (s.lt_handed _ h)

/-- Handing out a job finishes none. -/
@[simp] theorem finished_hand : s.hand.finished = s.finished := by
  ext j
  rw [mem_finished, mem_finished, hand_handed, hand_inFlight, Finset.mem_insert]
  have hnext : j = s.handed → j ∉ s.inFlight := by
    rintro rfl
    exact handed_notMem
  constructor
  · rintro ⟨hlt, hnot⟩
    exact ⟨by omega, fun h => hnot (Or.inr h)⟩
  · rintro ⟨hlt, hnot⟩
    exact ⟨by omega, fun h => h.elim (by omega) hnot⟩

/-- What finishes is added to the finished jobs. -/
theorem finished_finish (h : jobs ⊆ s.inFlight) :
    (s.finish jobs).finished = s.finished ∪ jobs := by
  ext j
  rw [Finset.mem_union, mem_finished, mem_finished, finish_handed, finish_inFlight,
    Finset.mem_sdiff]
  by_cases hj : j ∈ jobs
  · simp [hj, s.lt_handed j (h hj)]
  · simp [hj]

theorem card_finished (s : Scoreboard) : s.finished.card + s.inFlight.card = s.handed := by
  have hsub : s.inFlight ⊆ Finset.range s.handed := by
    intro j hj
    exact Finset.mem_range.mpr (s.lt_handed j hj)
  rw [finished, Finset.card_sdiff_add_card_eq_card hsub, Finset.card_range]

/-- The finished jobs are counted by what finishes. -/
theorem card_finished_finish (h : jobs ⊆ s.inFlight) :
    (s.finish jobs).finished.card = s.finished.card + jobs.card := by
  rw [finished_finish h]
  apply Finset.card_union_of_disjoint
  rw [Finset.disjoint_left]
  intro j hj hjobs
  exact (mem_finished.mp hj).2 (h hjobs)

/-- All jobs below `n` are finished as soon as `n` of them are. -/
theorem finished_eq_range {n : ℕ} (hle : s.handed ≤ n) (h : s.finished.card = n) :
    s.handed = n ∧ s.inFlight = ∅ ∧ s.finished = Finset.range n := by
  have hcard := s.card_finished
  have hempty : s.inFlight = ∅ := Finset.card_eq_zero.mp (by omega)
  have hhanded : s.handed = n := by omega
  refine ⟨hhanded, hempty, ?_⟩
  rw [finished, hempty, Finset.sdiff_empty, hhanded]

end Scoreboard
