import Kv260Sigv.Library.Clocked
import Kv260Sigv.Library.Program

/-!
# Programs a machine can be made to perform

`Performs` speaks of a given run.  To show that a program can be performed at all one
has to choose the inputs: `Plays M P m Q` says that from every state of `P` some inputs
make the machine `M` perform the program `m` and end in a state of `Q`.  The rules are
those of a program logic with total correctness, in which the inputs are chosen by the
prover.
-/

set_option autoImplicit false

/-- A clocked machine with the accesses it takes and its answers. -/
structure Machine (Op : Type) (Ret : Op → Type) (ι σ : Type) where
  step : ι → σ → σ
  events : ι → σ → List Op
  answer : σ → (o : Op) → Ret o

namespace Machine

open Clocked (run)
open Program (Performs)

variable {Op : Type} {Ret : Op → Type} {ι σ α β ε : Type} {M : Machine Op Ret ι σ}

/-- What a program sees of a run. -/
def history (M : Machine Op Ret ι σ) (inputs : ℕ → ι) (s : σ) : History Op Ret where
  events n := M.events (inputs n) (run M.step inputs s n)
  answer n o := M.answer (run M.step inputs s n) o

/-- The first `n` inputs of one stream, then another stream. -/
def splice (n : ℕ) (first second : ℕ → ι) : ℕ → ι :=
  fun k => if k < n then first k else second (k - n)

theorem splice_lt {n k : ℕ} (h : k < n) (first second : ℕ → ι) :
    splice n first second k = first k := if_pos h

theorem splice_add (n k : ℕ) (first second : ℕ → ι) :
    splice n first second (n + k) = second k := by
  rw [splice, if_neg (by omega), Nat.add_sub_cancel_left]

/-- A run depends on the inputs so far. -/
theorem run_congr {inputs inputs' : ℕ → ι} {s : σ} {n : ℕ}
    (h : ∀ k < n, inputs' k = inputs k) : run M.step inputs' s n = run M.step inputs s n := by
  induction n with
  | zero => rfl
  | succ n ih =>
      rw [Clocked.run_succ, Clocked.run_succ, h n (Nat.lt_succ_self n),
        ih fun k hk => h k (Nat.lt_succ_of_lt hk)]

theorem run_splice (n k : ℕ) (first second : ℕ → ι) (s : σ) :
    run M.step (splice n first second) s (n + k) =
      run M.step second (run M.step first s n) k := by
  rw [Clocked.run_add, run_congr fun k hk => splice_lt hk first second]
  congr 1
  funext j
  exact splice_add n j first second

/-- A performance depends on what is seen in its own cycles. -/
theorem performs_shift {h : History Op Ret} (h' : History Op Ret) {m : Program Op Ret α} {c c' : ℕ} {a : α} (d : ℕ)
    (hm : Performs h m c c' a)
    (heq : ∀ k, c ≤ k → k < c' → h'.events (d + k) = h.events k ∧
      ∀ o, h'.answer (d + k) o = h.answer k o) : Performs h' m (d + c) (d + c') a := by
  have hquiet : ∀ {b b' : ℕ}, c ≤ b → b' ≤ c' → h.Quiet b b' → h'.Quiet (d + b) (d + b') := by
    intro b b' hb hb' hq k hk hk'
    obtain ⟨j, rfl⟩ : ∃ j, k = d + j := ⟨k - d, by omega⟩
    rw [(heq j (by omega) (by omega)).1]
    exact hq j (by omega) (by omega)
  induction hm with
  | pure le quiet => exact .pure (by omega) (hquiet le_rfl le_rfl quiet)
  | @perform o next c r c' a le quiet event rest ih =>
      have hle := rest.le
      obtain ⟨hevent, hanswer⟩ := heq r le (by omega)
      refine .perform (by omega) (hquiet le_rfl (by omega) quiet) (hevent.trans event) ?_
      rw [hanswer, Nat.add_assoc]
      exact ih (fun k hk hk' => heq k (by omega) hk') fun hb hb' hq => hquiet (by omega) hb' hq

/-- From every state of `P` some inputs make the machine perform the program, and leave
it in a state of `Q`. -/
def Plays (M : Machine Op Ret ι σ) (P : σ → Prop) (m : Program Op Ret α) (Q : α → σ → Prop) :
    Prop :=
  ∀ s, P s → ∃ (inputs : ℕ → ι) (n : ℕ) (a : α),
    Performs (M.history inputs s) m 0 n a ∧ Q a (run M.step inputs s n)

variable {P P' : σ → Prop} {Q Q' : α → σ → Prop} {R : β → σ → Prop} {m : Program Op Ret α}

theorem Plays.mono (h : M.Plays P m Q) (hP : ∀ s, P' s → P s) (hQ : ∀ a s, Q a s → Q' a s) :
    M.Plays P' m Q' := by
  intro s hs
  obtain ⟨inputs, n, a, hm, ha⟩ := h s (hP s hs)
  exact ⟨inputs, n, a, hm, hQ _ _ ha⟩

/-- One program after the other. -/
theorem Plays.bind {f : α → Program Op Ret β} (hm : M.Plays P m Q)
    (hf : ∀ a, M.Plays (Q a) (f a) R) : M.Plays P (m >>= f) R := by
  intro s hs
  obtain ⟨first, n, a, hfirst, ha⟩ := hm s hs
  obtain ⟨second, n', b, hsecond, hb⟩ := hf a _ ha
  refine ⟨splice n first second, n + n', b, ?_, ?_⟩
  · refine Performs.bind (d := n) (a := a) ?_ ?_
    · have hsame := performs_shift (M.history (splice n first second) s) 0 hfirst ?_
      · rwa [Nat.zero_add, Nat.zero_add] at hsame
      · intro k _ hk
        rw [Nat.zero_add]
        have hrun : run M.step (splice n first second) s k = run M.step first s k :=
          run_congr fun j hj => splice_lt (by omega) first second
        simp only [history, hrun, splice_lt hk, and_self, implies_true]
    · refine performs_shift (M.history (splice n first second) s) n hsecond ?_
      intro k _ _
      simp only [history, run_splice, splice_add, and_self, implies_true]
  · rw [run_splice]
    exact hb

/-- Nothing to do, while the machine runs on without an access. -/
theorem Plays.wait {a : α} (h : ∀ s, P s → ∃ (inputs : ℕ → ι) (n : ℕ),
      (∀ k < n, M.events (inputs k) (run M.step inputs s k) = []) ∧ Q a (run M.step inputs s n)) :
    M.Plays P (.pure a) Q := by
  intro s hs
  obtain ⟨inputs, n, hquiet, ha⟩ := h s hs
  exact ⟨inputs, n, a, .pure (Nat.zero_le n) fun k _ hk => hquiet k hk, ha⟩

/-- A program that is begun later. -/
theorem Plays.later {S : σ → Prop} (hw : M.Plays P (.pure () : Program Op Ret Unit) fun _ => S)
    (hm : M.Plays S m Q) : M.Plays P m Q :=
  Plays.bind (f := fun _ => m) hw fun _ => hm

theorem Plays.pure [Inhabited ι] {a : α} (h : ∀ s, P s → Q a s) : M.Plays P (.pure a) Q :=
  Plays.wait fun s hs => ⟨fun _ => default, 0, fun _ hk => absurd hk (Nat.not_lt_zero _), h s hs⟩

/-- A single access, and some cycles without one. -/
theorem Plays.access {o : Op} {Q : Ret o → σ → Prop} (h : ∀ s, P s → ∃ (inputs : ℕ → ι) (n : ℕ),
      M.events (inputs 0) s = [o] ∧
      (∀ k, 0 < k → k < n + 1 → M.events (inputs k) (run M.step inputs s k) = []) ∧
      Q (M.answer s o) (run M.step inputs s (n + 1))) : M.Plays P (Program.access o) Q := by
  intro s hs
  obtain ⟨inputs, n, hevent, hquiet, ha⟩ := h s hs
  refine ⟨inputs, n + 1, M.answer s o, ?_, ha⟩
  exact .perform le_rfl (fun k _ hk => absurd hk (Nat.not_lt_zero _)) hevent
    (.pure (by omega) fun k hk hk' => hquiet k hk hk')

/-! ### Programs that can fail -/

/-- The program can be performed so that it succeeds. -/
def Succeeds (M : Machine Op Ret ι σ) (P : σ → Prop) (m : ExceptT ε (Program Op Ret) α)
    (Q : α → σ → Prop) : Prop :=
  M.Plays P m.run fun x s => ∃ a, x = .ok a ∧ Q a s

section fallible

variable {m : ExceptT ε (Program Op Ret) α} {f : α → ExceptT ε (Program Op Ret) β}

theorem Succeeds.mono (h : M.Succeeds P m Q) (hP : ∀ s, P' s → P s) (hQ : ∀ a s, Q a s → Q' a s) :
    M.Succeeds P' m Q' :=
  Plays.mono h hP fun _ s ⟨a, ha, hs⟩ => ⟨a, ha, hQ a s hs⟩

/-- A success, then a program that ends in any way. -/
theorem Succeeds.bind_run {R : Except ε β → σ → Prop} (hm : M.Succeeds P m Q)
    (hf : ∀ a, M.Plays (Q a) (f a).run R) : M.Plays P (m >>= f).run R := by
  refine Plays.bind hm fun x => ?_
  cases x with
  | error e =>
      intro s hs
      obtain ⟨a, ha, -⟩ := hs
      cases ha
  | ok a =>
      refine (hf a).mono ?_ fun _ _ h => h
      rintro s ⟨b, hb, hs⟩
      cases hb
      exact hs

/-- A success with a known result, then a program that ends in any way. -/
theorem Succeeds.bind_run_eq {a : α} {S : σ → Prop} {R : Except ε β → σ → Prop}
    (hm : M.Succeeds P m fun b s => b = a ∧ S s) (hf : M.Plays S (f a).run R) :
    M.Plays P (m >>= f).run R := by
  refine hm.bind_run fun b => ?_
  by_cases hb : b = a
  · subst hb
    exact hf.mono (fun s hs => hs.2) fun _ _ h => h
  · intro s hs
    exact absurd hs.1 hb

theorem Succeeds.bind (hm : M.Succeeds P m Q) (hf : ∀ a, M.Succeeds (Q a) (f a) R) :
    M.Succeeds P (m >>= f) R :=
  Succeeds.bind_run hm hf

theorem Succeeds.lift {m : Program Op Ret α} [Inhabited ι] (h : M.Plays P m Q) :
    M.Succeeds P (ExceptT.lift m : ExceptT ε (Program Op Ret) α) Q :=
  Plays.bind h fun a => Plays.pure fun _ hs => ⟨a, rfl, hs⟩

theorem Succeeds.pure [Inhabited ι] {a : α} (h : ∀ s, P s → Q a s) :
    M.Succeeds P (Pure.pure a : ExceptT ε (Program Op Ret) α) Q :=
  Plays.pure (a := Except.ok a) fun s hs => ⟨a, rfl, h s hs⟩

/-- The program can be performed so that it fails. -/
def Fails (M : Machine Op Ret ι σ) (P : σ → Prop) (m : ExceptT ε (Program Op Ret) α)
    (S : σ → Prop) : Prop :=
  M.Plays P m.run fun x s => (∃ e, x = .error e) ∧ S s

/-- What follows a failure is not reached. -/
theorem Fails.bind [Inhabited ι] {S : σ → Prop} (hm : M.Fails P m S) : M.Fails P (m >>= f) S := by
  refine Plays.bind hm fun x => ?_
  cases x with
  | error e => exact Plays.pure fun s hs => ⟨⟨e, rfl⟩, hs.2⟩
  | ok a =>
      intro s hs
      obtain ⟨⟨e, he⟩, -⟩ := hs
      cases he

/-- A success, then a failure. -/
theorem Succeeds.fails {S : σ → Prop} (hm : M.Succeeds P m Q) (hf : ∀ a, M.Fails (Q a) (f a) S) :
    M.Fails P (m >>= f) S :=
  hm.bind_run hf

/-- A test that fails. -/
theorem Plays.of_not {p : Prop} [Decidable p] {m' : ExceptT ε (Program Op Ret) α}
    {R : Except ε α → σ → Prop} (hp : ¬ p) (h : M.Plays P m'.run R) :
    M.Plays P (if p then m else m').run R := by
  rw [if_neg hp]
  exact h

/-- A test that is passed. -/
theorem Plays.of_true {p : Prop} [Decidable p] {m' : ExceptT ε (Program Op Ret) α}
    {R : Except ε α → σ → Prop} (hp : p) (h : M.Plays P m.run R) :
    M.Plays P (if p then m else m').run R := by
  rw [if_pos hp]
  exact h

end fallible

end Machine
