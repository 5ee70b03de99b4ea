import Kv260Sigv.Rtl.Ed25519VerifyGroup

/-!
# The odd multiples of the key

An operation of the point core takes the controller from the state that asks for it to the one
after the answer (`comes_answer`).  Four of them compute `2A`, `3A`, `5A` and `7A` between
the recoding and `ST_JOINT_INIT`.
-/

set_option autoImplicit false

namespace Kv260Sigv

namespace Ed25519VerifyEngine

open Clocked
open Ed25519PointCore (added doubled Answers answers_add answers_double opAdd opDouble)

universe u

variable {M : Multiplier} {w : ℕ} {mul : BitVec 255 → BitVec 255 → BitVec 255}

/-! ### One operation -/

section operations

variable {D P K Q T : State M w → Prop} {R : ExtPoint → Prop}

/-- In step with its point core the engine comes from `P` to `Q`, through states of `D`. -/
def Comes (mul : BitVec 255 → BitVec 255 → BitVec 255) (D P Q : State M w → Prop) : Prop :=
  Reaches (@step M w) D (fun s => s.Sound mul ∧ P s) fun s => s.Sound mul ∧ Q s

theorem Comes.trans (h₁ : Comes mul D P Q) (hD : ∀ s, Q s → D s) (h₂ : Comes mul D Q T) :
    Comes mul D P T :=
  Reaches.trans h₁ (fun s hs => hD s hs.2) h₂

theorem comes_of_reaches (h : M.Computes mul) (hreg : Regular mul) (hreach : Reaches step D P Q) :
    Comes mul D P Q :=
  hreach.and_invariant fun i _ hs => sound_step h hreg i hs

theorem comes_step (h : M.Computes mul) (hreg : Regular mul)
    (hstep : ∀ i s, P s → Q (step i s)) : Comes mul D P Q :=
  comes_of_reaches h hreg (Leads.single hstep).reaches

/-- An operation of the point core: asked for in a state of `P`, waited for in states of `K`. -/
theorem comes_answer (h : M.Computes mul) (hreg : Regular mul)
    (hask : ∀ i s, P s → K (step i s) ∧ (step i s).pointStartReg = true ∧
      ∃ out, Answers mul (step i s).pointInputs out ∧ R out)
    (hkeep : ∀ i s, K s → s.pointDone = false → K (step i s)) (hD : ∀ s, K s → D s)
    (hanswer : ∀ i s, K s → s.pointDone = true → R s.pointOut → Q (step i s)) :
    Comes mul D P Q := by
  have hasked : Reaches step D (fun s => s.Sound mul ∧ P s) (Requested mul K R) := by
    refine (Leads.single ?_).reaches
    rintro i s ⟨hs, hP⟩
    obtain ⟨hK, hstart, hout⟩ := hask i s hP
    exact ⟨hK, sound_step h hreg i hs, hstart, hout⟩
  have hanswered : Reaches step D (Answered mul K R) fun s => s.Sound mul ∧ Q s := by
    refine (Leads.single ?_).reaches
    intro i s hs
    exact ⟨sound_step h hreg i hs.sound, hanswer i s hs.keeps hs.pointDone hs.out⟩
  have hwait : Reaches step D (Requested mul K R) (Answered mul K R) :=
    reaches_answer h hreg hkeep hD
  exact (hasked.trans (fun s hs => hD s hs.keeps) hwait).trans (fun s hs => hD s hs.keeps)
    hanswered

end operations

/-! ### The odd multiples -/

variable {a : ExtPoint} {sScalar kScalar : ℤ} {D : State M w → Prop}

/-- The key and its multiples and the packed digits. -/
def State.multiples (s : State M w) :
    ExtPoint × ExtPoint × ExtPoint × ExtPoint × ExtPoint × BitVec 1024 × BitVec 1024 :=
  (s.a, s.a2, s.a3, s.a5, s.a7, s.sWnafPacked, s.kWnafPacked)

/-- With the digits of both scalars and the first `n` of the multiples. -/
structure Tabled (mul : BitVec 255 → BitVec 255 → BitVec 255) (a : ExtPoint)
    (sScalar kScalar : ℤ) (phase : Phase) (n : ℕ) (s : State M w) : Prop where
  state : s.state = phase
  sPacks : Packs sScalar s.sWnafPacked 256
  kPacks : Packs kScalar s.kWnafPacked 256
  key : s.a = a
  a2 : 1 ≤ n → Combines.{u} mul a s.a2 0 (-2)
  a3 : 2 ≤ n → Combines.{u} mul a s.a3 0 (-3)
  a5 : 3 ≤ n → Combines.{u} mul a s.a5 0 (-5)
  a7 : 4 ≤ n → Combines.{u} mul a s.a7 0 (-7)

theorem Tabled.move {phase phase' : Phase} {n : ℕ} {s s' : State M w}
    (h : Tabled.{u} mul a sScalar kScalar phase n s) (hstate : s'.state = phase')
    (hkeep : s'.multiples = s.multiples) : Tabled.{u} mul a sScalar kScalar phase' n s' := by
  simp only [State.multiples, Prod.mk.injEq] at hkeep
  obtain ⟨ha, ha2, ha3, ha5, ha7, hs, hk⟩ := hkeep
  exact ⟨hstate, by rw [hs]; exact h.sPacks, by rw [hk]; exact h.kPacks, ha.trans h.key,
    by rw [ha2]; exact h.a2, by rw [ha3]; exact h.a3, by rw [ha5]; exact h.a5,
    by rw [ha7]; exact h.a7⟩

theorem Tabled.combines_key {phase : Phase} {n : ℕ} {s : State M w}
    (h : Tabled.{u} mul a sScalar kScalar phase n s) : Combines.{u} mul a s.a 0 (-1) := by
  rw [h.key]
  exact .key

theorem Tabled.wait {phase : Phase} {n : ℕ} {s : State M w} (i : Inputs)
    (h : Tabled.{u} mul a sScalar kScalar phase n s) (hwait : phase.pointWaits = true)
    (hother : phase ≠ .jointDblWait) (hsilent : s.pointDone = false) :
    Tabled.{u} mul a sScalar kScalar phase n (step i s) := by
  rw [step_wait i (by rwa [h.state]) (by rwa [h.state]) hsilent]
  exact h.move h.state rfl

/-- One more multiple. -/
theorem comes_multiple (h : M.Computes mul) (hreg : Regular mul)
    (hD : ∀ s : State M w, s.state.pointWaits = true → D s) {start next : Phase} {n : ℕ}
    {y : ℤ} (wait : Phase) (hwait : wait.pointWaits = true) (hother : wait ≠ .jointDblWait)
    (hask : ∀ i (s : State M w), Tabled.{u} mul a sScalar kScalar start n s →
      (step i s).state = wait ∧ (step i s).multiples = s.multiples ∧
        (step i s).pointStartReg = true ∧
        ∃ out, Answers mul (step i s).pointInputs out ∧ Combines.{u} mul a out 0 y)
    (hanswer : ∀ i (s : State M w), Tabled.{u} mul a sScalar kScalar wait n s → s.pointDone = true →
      Combines.{u} mul a s.pointOut 0 y →
        Tabled.{u} mul a sScalar kScalar next (n + 1) (step i s)) :
    Comes mul D (Tabled.{u} mul a sScalar kScalar start n)
      (Tabled.{u} mul a sScalar kScalar next (n + 1)) := by
  refine comes_answer (R := fun p => Combines.{u} mul a p 0 y) h hreg ?_
    (fun i s hs => hs.wait i hwait hother) (fun s hs => hD s (by rwa [hs.state])) hanswer
  intro i s hs
  obtain ⟨hstate, hkeep, hstart, hout⟩ := hask i s hs
  exact ⟨hs.move hstate hkeep, hstart, hout⟩

theorem comes_a2 (h : M.Computes mul) (hreg : Regular mul)
    (hD : ∀ s : State M w, s.state.pointWaits = true → D s) :
    Comes mul D (Tabled.{u} mul a sScalar kScalar .oddA2DblStart 0)
      (Tabled.{u} mul a sScalar kScalar .oddA3AddStart 1) := by
  refine comes_multiple (y := -2) h hreg hD .oddA2DblWait rfl (by decide) ?_ ?_
  · intro i s hs
    have hstep : step i s = startPoint opDouble s.a s.a .oddA2DblWait (rest i s) := by
      rw [step, stepState, hs.state]
    rw [hstep]
    exact ⟨rfl, rfl, rfl, _, answers_double rfl, hs.combines_key.double⟩
  · intro i s hs hdone hout
    have hstep : step i s = { rest i s with a2 := s.pointOut, state := .oddA3AddStart } := by
      rw [step, stepState, hs.state]
      exact if_pos hdone
    rw [hstep]
    exact ⟨rfl, hs.sPacks, hs.kPacks, hs.key, fun _ => hout, fun hn => absurd hn (by decide),
      fun hn => absurd hn (by decide), fun hn => absurd hn (by decide)⟩

theorem comes_a3 (h : M.Computes mul) (hreg : Regular mul)
    (hD : ∀ s : State M w, s.state.pointWaits = true → D s) :
    Comes mul D (Tabled.{u} mul a sScalar kScalar .oddA3AddStart 1)
      (Tabled.{u} mul a sScalar kScalar .oddA5AddStart 2) := by
  refine comes_multiple (y := -3) h hreg hD .oddA3AddWait rfl (by decide) ?_ ?_
  · intro i s hs
    have hstep : step i s = startPoint opAdd s.a2 s.a .oddA3AddWait (rest i s) := by
      rw [step, stepState, hs.state]
    rw [hstep]
    exact ⟨rfl, rfl, rfl, _, answers_add rfl, (hs.a2 le_rfl).add hs.combines_key⟩
  · intro i s hs hdone hout
    have hstep : step i s = { rest i s with a3 := s.pointOut, state := .oddA5AddStart } := by
      rw [step, stepState, hs.state]
      exact if_pos hdone
    rw [hstep]
    exact ⟨rfl, hs.sPacks, hs.kPacks, hs.key, fun _ => hs.a2 le_rfl, fun _ => hout,
      fun hn => absurd hn (by decide), fun hn => absurd hn (by decide)⟩

theorem comes_a5 (h : M.Computes mul) (hreg : Regular mul)
    (hD : ∀ s : State M w, s.state.pointWaits = true → D s) :
    Comes mul D (Tabled.{u} mul a sScalar kScalar .oddA5AddStart 2)
      (Tabled.{u} mul a sScalar kScalar .oddA7AddStart 3) := by
  refine comes_multiple (y := -5) h hreg hD .oddA5AddWait rfl (by decide) ?_ ?_
  · intro i s hs
    have hstep : step i s = startPoint opAdd s.a3 s.a2 .oddA5AddWait (rest i s) := by
      rw [step, stepState, hs.state]
    rw [hstep]
    exact ⟨rfl, rfl, rfl, _, answers_add rfl, (hs.a3 le_rfl).add (hs.a2 (by decide))⟩
  · intro i s hs hdone hout
    have hstep : step i s = { rest i s with a5 := s.pointOut, state := .oddA7AddStart } := by
      rw [step, stepState, hs.state]
      exact if_pos hdone
    rw [hstep]
    exact ⟨rfl, hs.sPacks, hs.kPacks, hs.key, fun _ => hs.a2 (by decide), fun _ => hs.a3 le_rfl,
      fun _ => hout, fun hn => absurd hn (by decide)⟩

theorem comes_a7 (h : M.Computes mul) (hreg : Regular mul)
    (hD : ∀ s : State M w, s.state.pointWaits = true → D s) :
    Comes mul D (Tabled.{u} mul a sScalar kScalar .oddA7AddStart 3)
      (Tabled.{u} mul a sScalar kScalar .jointInit 4) := by
  refine comes_multiple (y := -7) h hreg hD .oddA7AddWait rfl (by decide) ?_ ?_
  · intro i s hs
    have hstep : step i s = startPoint opAdd s.a5 s.a2 .oddA7AddWait (rest i s) := by
      rw [step, stepState, hs.state]
    rw [hstep]
    exact ⟨rfl, rfl, rfl, _, answers_add rfl, (hs.a5 le_rfl).add (hs.a2 (by decide))⟩
  · intro i s hs hdone hout
    have hstep : step i s = { rest i s with a7 := s.pointOut, state := .jointInit } := by
      rw [step, stepState, hs.state]
      exact if_pos hdone
    rw [hstep]
    exact ⟨rfl, hs.sPacks, hs.kPacks, hs.key, fun _ => hs.a2 (by decide),
      fun _ => hs.a3 (by decide), fun _ => hs.a5 le_rfl, fun _ => hout⟩

end Ed25519VerifyEngine

end Kv260Sigv
