import Kv260Sigv.Rtl.Ed25519VerifyRun
import Mathlib.Data.Set.Basic

/-!
# The two verification modes

`verify_mode` is read twice: on the start, where the strict mode turns small-order
encodings away, and with the answer of the final addition, where Agave/Zebra doubles
three times more.  So a strict run that accepts and the Agave/Zebra run on the same
inputs are in the same states up to that answer, and the doublings keep the form of the
neutral element.
-/

set_option autoImplicit false

namespace Kv260Sigv

namespace Ed25519VerifyEngine

open Clocked Handshake
open Ed25519PointCore (NeutralForm doubled)

variable {M : Multiplier} {w : ℕ} {mul : BitVec 255 → BitVec 255 → BitVec 255}

/-- The run ends with `verified`. -/
def EndsVerified (inputs : ℕ → Inputs) (s : State M w) : Prop :=
  ∃ n, (∀ m < n, (run State.clock inputs s (m + 1)).done = false) ∧
    (run State.clock inputs s (n + 1)).done = true ∧
    (run State.clock inputs s (n + 1)).verified = true

/-- The inputs with a `verify_mode`. -/
def withMode (mode : BitVec 2) (inputs : ℕ → Inputs) : ℕ → Inputs :=
  fun k => { inputs k with verifyMode := mode }

/-- The inputs that start a run in `s`, do not abort it and make it end with `verified` when
it is in `mode`: key, signature, length and what the message port answers, cycle by cycle. -/
def Accepts (mode : BitVec 2) (s : State M w) : Set (ℕ → Inputs) :=
  {inputs | (inputs 0).start = true ∧ (∀ k, (inputs k).engineRstN = true) ∧
    EndsVerified (withMode mode inputs) s}

/-! ### Where the mode matters -/

theorem step_done (i : Inputs) (s : State M w) :
    (step i s).done = decide (s.state = .done) := by
  simp only [step, stepState, load]
  split <;> rename_i h <;> rw [h] <;> (repeat' split) <;> rfl

/-- Between the start and the last answer no cycle looks at the mode. -/
theorem step_withMode (mode : BitVec 2) (i : Inputs) {s : State M w} (hidle : s.state ≠ .idle)
    (hfinal : ¬ (s.state = .finalEqWait ∧ s.pointDone = true)) :
    step { i with verifyMode := mode } s = step i s := by
  simp only [step, stepState]
  split
  case h_1 h => exact absurd h hidle
  case h_31 h =>
    have hsilent : ¬ s.pointDone = true := fun hdone => hfinal ⟨h, hdone⟩
    rw [if_neg hsilent, if_neg hsilent]
    rfl
  all_goals rfl

/-- The states of a strict run that has not decided yet. -/
def Phase.undecided : Phase → Bool
  | .idle | .finalCofDblStart | .finalCofDblWait | .done => false
  | _ => true

/-- A run that has not decided. -/
def Undecided (s : State M w) : Prop := s.state.undecided = true ∧ s.verified = false

/-- The answer of the final addition has the form of the neutral element. -/
structure Matched (s : State M w) : Prop where
  state : s.state = .finalEqWait
  pointDone : s.pointDone = true
  identity : pointIsIdentity s.pointOut = true

/-- The cycle of the start: a strict run goes on, then in either mode, or it is over without
`verified`. -/
theorem start_strict {i : Inputs} {s : State M w} (hidle : s.state = .idle)
    (hstart : i.start = true) (hstrict : i.agaveZebra = false) :
    Undecided (step i s) ∧ (∀ mode, step { i with verifyMode := mode } s = step i s) ∨
      (step i s).state = .done ∧ (step i s).verified = false := by
  simp only [step, stepState, hidle, hstart, if_true, load]
  split
  · exact .inr ⟨rfl, rfl⟩
  · split
    · exact .inr ⟨rfl, rfl⟩
    · next hsmall =>
        rw [hstrict, Bool.not_false, Bool.true_and] at hsmall
        refine .inl ⟨⟨rfl, rfl⟩, ?_⟩
        intro mode
        rw [if_neg]
        · rfl
        · intro hreject
          exact hsmall (Bool.and_eq_true_iff.mp hreject).2

/-- A cycle of a strict run. -/
theorem step_strict {i : Inputs} {s : State M w} (hs : Undecided s)
    (hstrict : i.agaveZebra = false) :
    Undecided (step i s) ∨
      (step i s).state = .done ∧ ((step i s).verified = true → Matched s) := by
  obtain ⟨hstate, hverified⟩ := hs
  simp only [step, stepState]
  split <;> rename_i h <;> rw [h] at hstate <;> cases hd : s.pointDone <;> (repeat' split) <;>
    simp_all [Undecided, Phase.undecided, rest, startPoint, startDecompress]
  exact fun hidentity => ⟨h, hd, hidentity⟩

/-! ### Three doublings -/

/-- Before doubling number `c`. -/
structure Doubling (mul : BitVec 255 → BitVec 255 → BitVec 255) (c : BitVec 2) (s : State M w) :
    Prop where
  sound : s.Sound mul
  state : s.state = .finalCofDblStart
  work : NeutralForm s.work
  count : s.cofactorDoubleCount = c
  silent : s.done = false

/-- With the answer of doubling number `c`. -/
structure Doubled (mul : BitVec 255 → BitVec 255 → BitVec 255) (c : BitVec 2) (s : State M w) :
    Prop where
  sound : s.Sound mul
  state : s.state = .finalCofDblWait
  pointDone : s.pointDone = true
  out : NeutralForm s.pointOut
  count : s.cofactorDoubleCount = c
  silent : s.done = false

/-- `done` is low. -/
def NotDone (s : State M w) : Prop := s.done = false

theorem pointIsIdentity_iff (p : ExtPoint) :
    pointIsIdentity p = true ↔ p.x = 0 ∧ p.t = 0 ∧ p.y = p.z := by
  simp [pointIsIdentity, and_assoc]

/-- Waiting for the answer of a doubling changes nothing else. -/
theorem step_waiting (i : Inputs) {s : State M w} (hstate : s.state = .finalCofDblWait)
    (hsilent : s.pointDone = false) : step i s = rest i s := by
  simp [step, stepState, hstate, hsilent]

/-- With the start of doubling number `c`. -/
structure Asked (mul : BitVec 255 → BitVec 255 → BitVec 255) (c : BitVec 2) (s : State M w) :
    Prop where
  sound : s.Sound mul
  state : s.state = .finalCofDblWait
  start : s.pointStartReg = true
  op : s.pointOpReg = Ed25519PointCore.opDouble
  point : NeutralForm s.pointAReg
  count : s.cofactorDoubleCount = c
  silent : s.done = false

theorem Doubling.ask (h : M.Computes mul) (hreg : Regular mul) {c : BitVec 2} (i : Inputs)
    (s : State M w) (hs : Doubling mul c s) : Asked mul c (step i s) := by
  have hstep : step i s = startPoint Ed25519PointCore.opDouble s.work s.work .finalCofDblWait
      (rest i s) := by
    simp only [step, stepState, hs.state]
  refine ⟨sound_step h hreg i hs.sound, ?_, ?_, ?_, ?_, ?_, ?_⟩ <;> rw [hstep]
  · rfl
  · rfl
  · rfl
  · exact hs.work
  · exact hs.count
  · rfl

/-- The answer comes, whatever the inputs. -/
theorem reaches_doubled (h : M.Computes mul) (hreg : Regular mul) (c : BitVec 2) :
    Reaches (@step M w) NotDone (Asked mul c) (Doubled mul c) := by
  -- while the point core works the controller only waits
  have hanswer := @reaches_answer M w mul h hreg NotDone
    (fun s => s.state = .finalCofDblWait ∧ s.cofactorDoubleCount = c ∧ s.done = false)
    NeutralForm ?_ fun s hs => hs.2.2
  · refine hanswer.mono ?_ ?_
    · intro s hs
      refine ⟨⟨hs.state, hs.count, hs.silent⟩, hs.sound, hs.start, _,
        Ed25519PointCore.answers_double hs.op, ?_⟩
      exact hs.point.doubled hreg
    · intro s hs
      obtain ⟨hstate, hcount, hsilent⟩ := hs.keeps
      exact ⟨hs.sound, hstate, hs.pointDone, hs.out, hcount, hsilent⟩
  · rintro i s ⟨hstate, hcount, -⟩ hsilent
    rw [step_waiting i hstate hsilent]
    exact ⟨hstate, hcount, rfl⟩

/-- The decision is made. -/
structure Accepting (s : State M w) : Prop where
  state : s.state = .done
  verified : s.verified = true
  silent : s.done = false

/-- The end of a run that accepts. -/
structure Accepted (s : State M w) : Prop where
  done : s.done = true
  verified : s.verified = true

theorem Doubled.again (h : M.Computes mul) (hreg : Regular mul) {c : BitVec 2} (hc : c ≠ 2)
    (i : Inputs) (s : State M w) (hs : Doubled mul c s) : Doubling mul (c + 1) (step i s) := by
  have hstep : step i s = { rest i s with
      work := s.pointOut
      cofactorDoubleCount := c + 1
      state := .finalCofDblStart } := by
    simp only [step, stepState, hs.state, hs.pointDone, hs.count, if_true, if_neg hc]
  refine ⟨sound_step h hreg i hs.sound, ?_, ?_, ?_, ?_⟩ <;> rw [hstep]
  · exact hs.out
  · rfl

theorem Doubled.accept (i : Inputs) (s : State M w) (hs : Doubled mul 2 s) :
    Accepting (step i s) := by
  have hidentity : pointIsIdentity s.pointOut = true :=
    (pointIsIdentity_iff _).mpr ⟨hs.out.x, hs.out.t, hs.out.yz⟩
  have hstep : step i s = { rest i s with
      work := s.pointOut
      verified := true
      state := .done } := by
    simp only [step, stepState, hs.state, hs.pointDone, hs.count, if_true, hidentity]
  refine ⟨?_, ?_, ?_⟩ <;> rw [hstep]
  rfl

theorem Accepting.finish (i : Inputs) (s : State M w) (hs : Accepting s) : Accepted (step i s) := by
  have hstep : step i s = { rest i s with busy := false, done := true, state := .idle } := by
    simp only [step, stepState, hs.state]
  refine ⟨?_, ?_⟩ <;> rw [hstep]
  exact hs.verified

/-- From the first doubling to the end of the run. -/
theorem reaches_accepted (h : M.Computes mul) (hreg : Regular mul) :
    Reaches (@step M w) NotDone (Doubling mul 0) Accepted := by
  have hround : ∀ c, Reaches (@step M w) NotDone (Doubling mul c) (Doubled mul c) := fun c =>
    (Leads.single (Doubling.ask h hreg)).reaches.trans (fun _ hs => hs.silent)
      (reaches_doubled h hreg c)
  have hagain : ∀ c, c ≠ 2 →
      Reaches (@step M w) NotDone (Doubling mul c) (Doubling mul (c + 1)) := fun c hc =>
    (hround c).trans (fun _ hs => hs.silent) (Leads.single (Doubled.again h hreg hc)).reaches
  have hlast : Reaches (@step M w) NotDone (Doubling mul 2) Accepted :=
    (hround 2).trans (fun _ hs => hs.silent)
      ((Leads.single Doubled.accept).reaches.trans (fun _ hs => hs.silent)
        (Leads.single Accepting.finish).reaches)
  exact (hagain 0 (by decide)).trans (fun _ hs => hs.silent)
    ((hagain 1 (by decide)).trans (fun _ hs => hs.silent) hlast)

/-! ### The two runs -/

/-- A run without a reset. -/
theorem run_clock {inputs : ℕ → Inputs} (hrst : ∀ k, (inputs k).engineRstN = true) (s : State M w)
    (k : ℕ) : run State.clock inputs s k = run step inputs s k := by
  induction k with
  | zero => rfl
  | succ k ih => rw [run_succ, run_succ, ih, State.clock, if_pos (hrst k)]

/-- Once the answer of the final addition matches, Agave/Zebra doubles it. -/
theorem Matched.double (h : M.Computes mul) (hreg : Regular mul) {i : Inputs}
    (hagave : i.agaveZebra = true) {s : State M w} (hsound : s.Sound mul) (hs : Matched s) :
    Doubling mul 0 (step i s) := by
  obtain ⟨hx, ht, hyz⟩ := (pointIsIdentity_iff _).mp hs.identity
  have hstep : step i s = { rest i s with
      work := s.pointOut
      cofactorDoubleCount := 0
      state := .finalCofDblStart } := by
    simp only [step, stepState, hs.state, hs.pointDone, hagave, if_true]
  refine ⟨sound_step h hreg i hsound, ?_, ?_, ?_, ?_⟩ <;> rw [hstep]
  · exact ⟨hx, ht, hyz, hsound.of_pointDone hs.pointDone⟩
  · rfl

theorem step_matched {i : Inputs} (hstrict : i.agaveZebra = false) {s : State M w}
    (hstate : s.state = .finalEqWait) (hdone : s.pointDone = true) :
    (step i s).state = .done := by
  simp [step, stepState, hstate, hdone, hstrict]

/-- Up to the decision a strict run that is not over goes through the states of the run in any
other mode. -/
theorem run_undecided {inputs : ℕ → Inputs} {s : State M w} (hidle : s.state = .idle)
    (hstart : (inputs 0).start = true) {n : ℕ}
    (hbefore : ∀ m ≤ n + 1, (run step (withMode verifyModeStrict inputs) s (m + 1)).done = false)
    (mode : BitVec 2) :
    Undecided (run step (withMode verifyModeStrict inputs) s (n + 1)) ∧
      run step (withMode mode inputs) s (n + 1) =
        run step (withMode verifyModeStrict inputs) s (n + 1) := by
  have hgoes : ∀ k ≤ n, (run step (withMode verifyModeStrict inputs) s (k + 1)).state ≠ .done := by
    intro k hk hdone
    have hover := hbefore (k + 1) (by omega)
    rw [run_succ, step_done, hdone] at hover
    cases hover
  have hmode : ∀ k, withMode mode inputs k =
      { withMode verifyModeStrict inputs k with verifyMode := mode } := fun k => rfl
  induction n with
  | zero =>
      rcases start_strict (i := withMode verifyModeStrict inputs 0) hidle hstart rfl with
        ⟨hundecided, hsame⟩ | ⟨hdone, -⟩
      · exact ⟨hundecided, hsame mode⟩
      · exact absurd hdone (hgoes 0 le_rfl)
  | succ n ih =>
      obtain ⟨hundecided, hsame⟩ :=
        ih (fun m hm => hbefore m (by omega)) fun k hk => hgoes k (by omega)
      have hnext := hgoes (n + 1) le_rfl
      rw [run_succ] at hnext
      refine ⟨?_, ?_⟩
      · rcases step_strict (i := withMode verifyModeStrict inputs (n + 1)) hundecided rfl with
          hstep | ⟨hdone, -⟩
        · exact hstep
        · exact absurd hdone hnext
      · rw [run_succ, hsame, hmode]
        refine step_withMode mode _ ?_ ?_
        · intro hstate
          rw [Undecided, hstate] at hundecided
          cases hundecided.1
        · rintro ⟨hstate, hdone⟩
          exact hnext (step_matched rfl hstate hdone)

theorem verified_of_decided (i : Inputs) {s : State M w} (hs : s.state = .done) :
    (step i s).verified = s.verified := by
  simp only [step, stepState, hs, rest]

/-- A strict run that ends with `verified` had a matching answer two cycles before. -/
theorem matched_of_verified {inputs : ℕ → Inputs} {s : State M w} (hidle : s.state = .idle)
    (hstart : (inputs 0).start = true) {n : ℕ}
    (hbefore : ∀ m < n, (run step (withMode verifyModeStrict inputs) s (m + 1)).done = false)
    (hdone : (run step (withMode verifyModeStrict inputs) s (n + 1)).done = true)
    (hverified : (run step (withMode verifyModeStrict inputs) s (n + 1)).verified = true) :
    ∃ k, n = k + 2 ∧ Matched (run step (withMode verifyModeStrict inputs) s (k + 1)) := by
  have hdecided : (run step (withMode verifyModeStrict inputs) s n).state = .done := by
    rw [run_succ, step_done] at hdone
    exact of_decide_eq_true hdone
  rw [run_succ, verified_of_decided _ hdecided] at hverified
  match n, hbefore, hdecided, hverified with
  | 0, _, hdecided, _ =>
      rw [run_zero, hidle] at hdecided
      cases hdecided
  | 1, _, hdecided, hverified =>
      -- the cycle of the start decides against the signature only
      rcases start_strict (i := withMode verifyModeStrict inputs 0) hidle hstart rfl with
        ⟨⟨hundecided, -⟩, -⟩ | ⟨-, hrejected⟩
      · rw [run_succ, run_zero] at hdecided
        rw [hdecided] at hundecided
        cases hundecided
      · rw [run_succ, run_zero, hrejected] at hverified
        cases hverified
  | k + 2, hbefore, hdecided, hverified =>
      refine ⟨k, rfl, ?_⟩
      have hundecided : Undecided (run step (withMode verifyModeStrict inputs) s (k + 1)) :=
        (run_undecided hidle hstart (fun m hm => hbefore m (by omega)) verifyModeStrict).1
      rcases step_strict (i := withMode verifyModeStrict inputs (k + 1)) hundecided rfl with
        ⟨hstate, -⟩ | ⟨-, hmatched⟩
      · rw [run_succ] at hdecided
        rw [hdecided] at hstate
        cases hstate
      · exact hmatched hverified

/-- An Agave/Zebra run with a matching answer ends with `verified`. -/
theorem verified_of_matched (h : M.Computes mul) (hreg : Regular mul) {inputs : ℕ → Inputs}
    {s : State M w} {k : ℕ} (hagave : (inputs k).agaveZebra = true)
    (hsound : (run step inputs s k).Sound mul) (hmatched : Matched (run step inputs s k))
    (hbefore : ∀ m < k, (run step inputs s (m + 1)).done = false) :
    ∃ n, (∀ m < n, (run step inputs s (m + 1)).done = false) ∧
      (run step inputs s (n + 1)).done = true ∧ (run step inputs s (n + 1)).verified = true := by
  have hdouble : Doubling mul 0 (run step inputs s (k + 1)) :=
    hmatched.double h hreg hagave hsound
  obtain ⟨d, hend, hsilent⟩ :=
    reaches_accepted h hreg (fun j => inputs (k + 1 + j)) _ hdouble
  simp only [← run_add] at hend hsilent
  obtain ⟨j, rfl⟩ : ∃ j, d = j + 1 := by
    refine Nat.exists_eq_succ_of_ne_zero ?_
    rintro rfl
    have hcontra := hend.done
    rw [Nat.add_zero, hdouble.silent] at hcontra
    cases hcontra
  refine ⟨k + 1 + j, ?_, hend.done, hend.verified⟩
  intro m hm
  rcases Nat.lt_trichotomy m k with hlt | rfl | hgt
  · exact hbefore m hlt
  · exact hdouble.silent
  · obtain ⟨e, rfl⟩ := Nat.exists_eq_add_of_lt hgt
    have hlater := hsilent (e + 1) (Nat.succ_pos e) (by omega)
    rwa [show k + 1 + (e + 1) = k + e + 1 + 1 by omega] at hlater

/-- Whatever the strict mode accepts, in whatever state the engine rests when the run starts,
Agave/Zebra accepts too. -/
theorem accepts_strict_subset_agaveZebra {s : State wideMultiplier w} (hs : Reachable s)
    (hidle : s.state = .idle) :
    Accepts verifyModeStrict s ⊆ Accepts verifyModeAgaveZebra s := by
  rintro inputs ⟨hstart, hrst, n, hbefore, hdone, hverified⟩
  have hclock : ∀ mode k, run State.clock (withMode mode inputs) s k =
      run step (withMode mode inputs) s k :=
    fun mode => @run_clock _ _ (withMode mode inputs) hrst s
  simp only [hclock] at hbefore hdone hverified
  refine ⟨hstart, hrst, ?_⟩
  simp only [EndsVerified, hclock]
  obtain ⟨k, rfl, hmatched⟩ := matched_of_verified hidle hstart hbefore hdone hverified
  have hsame : ∀ m ≤ k, run step (withMode verifyModeAgaveZebra inputs) s (m + 1) =
      run step (withMode verifyModeStrict inputs) s (m + 1) := fun m hm =>
    (run_undecided hidle hstart (fun j hj => hbefore j (by omega)) verifyModeAgaveZebra).2
  have hsound : (run step (withMode verifyModeAgaveZebra inputs) s (k + 1)).Sound mulWide :=
    run_invariant (fun i s => sound_step computes_wideMultiplier regular_mulWide i)
      (hs.sound computes_wideMultiplier regular_mulWide) (k + 1)
  rw [← hsame k le_rfl] at hmatched
  refine verified_of_matched computes_wideMultiplier regular_mulWide rfl hsound hmatched ?_
  intro m hm
  rw [hsame m (by omega)]
  exact hbefore m (by omega)

/-- Zeros in all registers of the multiplier. -/
def zeroMultiplier : Fe25519MulWideCore.State :=
  ⟨.idle, .zero, .zero, .zero, .zero, 0, 0, false, .zero, 0, 0, 0, 0, false, false, false, 0⟩

/-- The engine of the device, out of reset. -/
def outOfReset : State wideMultiplier 12 := reset (wideMultiplier.reset zeroMultiplier)

theorem accepts_strict_subset_agaveZebra_outOfReset :
    Accepts verifyModeStrict outOfReset ⊆ Accepts verifyModeAgaveZebra outOfReset :=
  @accepts_strict_subset_agaveZebra 12 outOfReset
    (@Reachable.reset wideMultiplier 12 zeroMultiplier) rfl

end Ed25519VerifyEngine

end Kv260Sigv
