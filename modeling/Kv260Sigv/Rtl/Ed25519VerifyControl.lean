import Kv260Sigv.Library.Handshake
import Kv260Sigv.Rtl.Ed25519VerifyEngine

/-!
# The automaton of the controller

Without its data the controller goes through its states: it stays where it waits for an
answer and else takes one of a few `successors`.  Each of these steps lowers a `rank`, by
which it comes to `ST_DONE` once all answers come.
-/

set_option autoImplicit false

namespace Kv260Sigv

namespace Ed25519VerifyEngine

open Handshake

variable {M : Multiplier} {w : ℕ}

/-! ### Starts and waits -/

/-- The states that wait for `point_done`. -/
def Phase.pointWaits : Phase → Bool
  | .decAWait | .decRWait
  | .oddA2DblWait | .oddA3AddWait | .oddA5AddWait | .oddA7AddWait
  | .jointDblWait | .jointAddAWait | .jointAddBWait
  | .finalEqWait | .finalCofDblWait => true
  | _ => false

/-- The states that start the point core. -/
def Phase.pointAsks : Phase → Bool
  | .decAStart | .decRStart
  | .oddA2DblStart | .oddA3AddStart | .oddA5AddStart | .oddA7AddStart
  | .jointDblStart | .jointAddAStart | .jointAddBStart
  | .finalEqStart | .finalCofDblStart => true
  | _ => false

/-- The states that wait for the recoder. -/
def Phase.recodeWaits : Phase → Bool
  | .recodeSWait | .recodeKWait => true
  | _ => false

/-- The states that start it. -/
def Phase.recodeAsks : Phase → Bool
  | .recodeSStart | .recodeKStart => true
  | _ => false

/-- The answer the controller waits for is not there. -/
def State.waiting (s : State M w) : Bool :=
  (s.state.pointWaits && !s.pointDone) || (decide (s.state = .hashWait) && !s.hashEngine.done) ||
    (decide (s.state = .reduceWait) && !s.reduceEngine.done) ||
      (s.state.recodeWaits && !s.recodeEngine.done)

/-- Where the controller goes from a state. -/
def Phase.successors : Phase → List Phase
  | .idle => [.idle, .decAStart, .done]
  | .decAStart => [.decAWait]
  | .decAWait => [.decRStart, .done]
  | .decRStart => [.decRWait]
  | .decRWait => [.hashStart, .done]
  | .hashStart => [.hashWait]
  | .hashWait => [.reduceStart, .done]
  | .reduceStart => [.reduceWait]
  | .reduceWait => [.recodeSStart]
  | .recodeSStart => [.recodeSWait]
  | .recodeSWait => [.recodeKStart]
  | .recodeKStart => [.recodeKWait]
  | .recodeKWait => [.oddA2DblStart]
  | .oddA2DblStart => [.oddA2DblWait]
  | .oddA2DblWait => [.oddA3AddStart]
  | .oddA3AddStart => [.oddA3AddWait]
  | .oddA3AddWait => [.oddA5AddStart]
  | .oddA5AddStart => [.oddA5AddWait]
  | .oddA5AddWait => [.oddA7AddStart]
  | .oddA7AddStart => [.oddA7AddWait]
  | .oddA7AddWait => [.jointInit]
  | .jointInit => [.jointDblStart]
  | .jointDblStart => [.jointDblWait]
  | .jointDblWait => [.jointAddAStart, .jointAddBStart, .jointNext]
  | .jointAddAStart => [.jointAddAWait]
  | .jointAddAWait => [.jointAddBStart, .jointNext]
  | .jointAddBStart => [.jointAddBWait]
  | .jointAddBWait => [.jointNext]
  | .jointNext => [.finalEqStart, .jointDblStart]
  | .finalEqStart => [.finalEqWait]
  | .finalEqWait => [.finalCofDblStart, .done]
  | .finalCofDblStart => [.finalCofDblWait]
  | .finalCofDblWait => [.done, .finalCofDblStart]
  | .done => [.idle]

theorem load_state (i : Inputs) (n : State M w) :
    (load i n).state = .decAStart ∨ (load i n).state = .done := by
  unfold load
  split
  · exact .inr rfl
  · split
    · exact .inr rfl
    · exact .inl rfl

theorem step_state (i : Inputs) (s : State M w) :
    if s.waiting then (step i s).state = s.state else (step i s).state ∈ s.state.successors := by
  have hload := load_state i (rest i s)
  unfold State.waiting step stepState
  -- a case for each state, with and without an answer
  cases h : s.state <;>
    simp only [Phase.pointWaits, Phase.recodeWaits, Phase.successors, reduceCtorEq, decide_false,
      decide_true, Bool.true_and, Bool.false_and, Bool.or_false, Bool.false_or,
      Bool.false_eq_true, if_false, startPoint, startDecompress, List.mem_singleton]
  case idle =>
    split
    · rcases hload with hnext | hnext <;> rw [hnext] <;> decide
    · rw [show (rest i s).state = .idle from h]
      decide
  case hashWait =>
    cases s.hashEngine.done <;> (repeat' split) <;>
      first | exact h | contradiction | (dsimp only; decide)
  case reduceWait =>
    cases s.reduceEngine.done <;> (repeat' split) <;> first | exact h | contradiction | rfl
  case recodeSWait | recodeKWait =>
    cases s.recodeEngine.done <;> (repeat' split) <;> first | exact h | contradiction | rfl
  all_goals
    cases s.pointDone <;> (repeat' split) <;>
      first | rfl | exact h | contradiction | (dsimp only; decide)

/-! ### The starts -/

/-- The four starts. -/
def State.starts (s : State M w) : Bool × Bool × Bool × Bool :=
  (s.pointStartReg, s.hashStartReg, s.reduceStartReg, s.recodeStartReg)

theorem load_starts (i : Inputs) (n : State M w) : (load i n).starts = n.starts := by
  unfold load
  split
  · rfl
  · split <;> rfl

/-- Starts are for a cycle, from the states that start. -/
theorem step_starts (i : Inputs) (s : State M w) :
    (step i s).starts = (s.state.pointAsks, decide (s.state = .hashStart),
      decide (s.state = .reduceStart), s.state.recodeAsks) := by
  have hload := load_starts i (rest i s)
  unfold step stepState
  cases h : s.state <;> dsimp only
  case idle =>
    split
    · exact hload
    · rfl
  all_goals (repeat' split) <;> rfl

/-! ### The rank -/

/-- How many more steps the controller takes, at most. -/
def State.rank (s : State M w) : ℕ :=
  match s.state with
  | .idle => 0
  | .done => 1
  | .finalCofDblWait => 2 * (2 - s.cofactorDoubleCount).toNat + 2
  | .finalCofDblStart => 2 * (2 - s.cofactorDoubleCount).toNat + 3
  | .finalEqWait => 10
  | .finalEqStart => 11
  | .jointNext => 8 * s.jointBitIndex.toNat + 12
  | .jointAddBWait => 8 * s.jointBitIndex.toNat + 13
  | .jointAddBStart => 8 * s.jointBitIndex.toNat + 14
  | .jointAddAWait => 8 * s.jointBitIndex.toNat + 15
  | .jointAddAStart => 8 * s.jointBitIndex.toNat + 16
  | .jointDblWait => 8 * s.jointBitIndex.toNat + 17
  | .jointDblStart => 8 * s.jointBitIndex.toNat + 18
  | .jointInit => 2059
  | .oddA7AddWait => 2060
  | .oddA7AddStart => 2061
  | .oddA5AddWait => 2062
  | .oddA5AddStart => 2063
  | .oddA3AddWait => 2064
  | .oddA3AddStart => 2065
  | .oddA2DblWait => 2066
  | .oddA2DblStart => 2067
  | .recodeKWait => 2068
  | .recodeKStart => 2069
  | .recodeSWait => 2070
  | .recodeSStart => 2071
  | .reduceWait => 2072
  | .reduceStart => 2073
  | .hashWait => 2074
  | .hashStart => 2075
  | .decRWait => 2076
  | .decRStart => 2077
  | .decAWait => 2078
  | .decAStart => 2079

theorem rank_congr {s s' : State M w} (hstate : s'.state = s.state)
    (hindex : s'.jointBitIndex = s.jointBitIndex)
    (hcount : s'.cofactorDoubleCount = s.cofactorDoubleCount) : s'.rank = s.rank := by
  rw [State.rank, State.rank, hstate, hindex, hcount]

theorem rank_of_state {s : State M w} {phase : Phase} (h : s.state = phase) :
    s.rank = State.rank { s with state := phase } :=
  rank_congr h rfl rfl

/-- A step of the controller lowers the rank, and waiting keeps it. -/
theorem step_rank (i : Inputs) (s : State M w) (hidle : s.state ≠ .idle) :
    if s.waiting then (step i s).rank = s.rank else (step i s).rank < s.rank := by
  unfold State.waiting step stepState
  cases h : s.state <;>
    simp only [Phase.pointWaits, Phase.recodeWaits, reduceCtorEq, decide_false,
      decide_true, Bool.true_and, Bool.false_and, Bool.or_false, Bool.false_or,
      Bool.false_eq_true, if_false, startPoint, startDecompress]
  case idle => exact absurd h hidle
  case jointNext =>
    rw [rank_of_state h]
    split
    · exact Nat.lt_add_left (8 * s.jointBitIndex.toNat) (by decide : 11 < 12)
    · next hne =>
        have hpos : s.jointBitIndex.toNat ≠ 0 := fun hzero => hne (BitVec.eq_of_toNat_eq hzero)
        have hle : 1 ≤ s.jointBitIndex := BitVec.le_def.mpr (Nat.pos_of_ne_zero hpos)
        show 8 * (s.jointBitIndex - 1).toNat + 18 < 8 * s.jointBitIndex.toNat + 12
        rw [BitVec.toNat_sub_of_le hle, show (1 : BitVec 8).toNat = 1 from rfl]
        omega
  case finalCofDblWait =>
    have hcount : ∀ c : BitVec 2, c ≠ 2 →
        2 * (2 - (c + 1)).toNat + 3 < 2 * (2 - c).toNat + 2 := by decide
    cases s.pointDone <;> (repeat' split) <;>
      first
      | contradiction
      | exact rank_congr rfl rfl rfl
      | skip
    · rw [rank_of_state h]
      exact Nat.lt_add_left (2 * (2 - s.cofactorDoubleCount).toNat) (by decide : 1 < 2)
    · next hne =>
        rw [rank_of_state h]
        exact hcount _ hne
  case hashWait =>
    cases s.hashEngine.done <;> (repeat' split) <;>
      first
      | contradiction
      | exact rank_congr rfl rfl rfl
      | (rw [rank_of_state h]; show _ < _; dsimp only [State.rank]; decide)
  case reduceWait =>
    cases s.reduceEngine.done <;> (repeat' split) <;>
      first
      | contradiction
      | exact rank_congr rfl rfl rfl
      | (rw [rank_of_state h]; exact Nat.lt_succ_self _)
  case recodeSWait | recodeKWait =>
    cases s.recodeEngine.done <;> (repeat' split) <;>
      first
      | contradiction
      | exact rank_congr rfl rfl rfl
      | (rw [rank_of_state h]; exact Nat.lt_succ_self _)
  all_goals
    cases s.pointDone <;> (repeat' split) <;>
    first
    | contradiction
    | exact rank_congr rfl rfl rfl
    | (rw [rank_of_state h]; exact Nat.lt_succ_self _)
    | (rw [rank_of_state h]; exact Nat.add_lt_add_left (by decide) _)
    | (rw [rank_of_state h]; show _ < _; dsimp only [State.rank]; decide)

/-! ### Patience -/

/-- The states that wait. -/
def Phase.waits (p : Phase) : Bool :=
  p.pointWaits || decide (p = .hashWait) || decide (p = .reduceWait) || p.recodeWaits

theorem waits_of_waiting {s : State M w} (h : s.waiting = true) : s.state.waits = true := by
  revert h
  unfold State.waiting
  cases s.state <;> first | (intro _; rfl) | (intro h; cases h)

theorem waiting_of_pointWaits {s : State M w} (h : s.state.pointWaits = true) :
    s.waiting = !s.pointDone := by
  revert h
  unfold State.waiting
  cases s.state <;> first | (intro _; cases s.pointDone <;> rfl) | (intro h; cases h)

theorem waiting_of_hashWait {s : State M w} (h : s.state = .hashWait) :
    s.waiting = !s.hashEngine.done := by
  rw [State.waiting, h]
  cases s.hashEngine.done <;> rfl

theorem waiting_of_reduceWait {s : State M w} (h : s.state = .reduceWait) :
    s.waiting = !s.reduceEngine.done := by
  rw [State.waiting, h]
  cases s.reduceEngine.done <;> rfl

theorem waiting_of_recodeWaits {s : State M w} (h : s.state.recodeWaits = true) :
    s.waiting = !s.recodeEngine.done := by
  revert h
  unfold State.waiting
  cases s.state <;> first | (intro _; cases s.recodeEngine.done <;> rfl) | (intro h; cases h)

/-- A client that asks in some states and waits in those after them is patient. -/
theorem step_patient_of (i : Inputs) (s : State M w) {asks waits : Phase → Bool} {done : Bool}
    (hsuccessors : ∀ p, ∀ q ∈ Phase.successors p, waits q = asks p)
    (hwaits : ∀ p, waits p = true → p.waits = true)
    (hasks : ∀ p, p.waits = true → asks p = false)
    (hwaiting : waits s.state = true → s.waiting = !done) :
    Patient done (waits s.state) (waits (step i s).state) (asks s.state) := by
  have hstate := step_state i s
  unfold Patient
  split
  · next h =>
      rw [Bool.and_eq_true] at h
      rw [if_pos ((hwaiting h.1).trans h.2)] at hstate
      rw [hstate]
      exact ⟨h.1, hasks _ (hwaits _ h.1)⟩
  · next h =>
      cases hw : s.waiting with
      | false =>
          rw [hw, if_neg Bool.false_ne_true] at hstate
          exact (hsuccessors _ _ hstate).symm
      | true =>
          -- it waits for another answer
          rw [hw, if_pos rfl] at hstate
          rw [hstate, hasks _ (waits_of_waiting hw)]
          cases hself : waits s.state with
          | false => rfl
          | true => exact absurd (by rw [hself, ← hwaiting hself, hw]; rfl) h

end Ed25519VerifyEngine

end Kv260Sigv
