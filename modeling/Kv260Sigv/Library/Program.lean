import Mathlib.Data.Nat.Basic
import Mathlib.Tactic.Common

/-!
# Programs that talk to a clocked machine

A `Program` is a sequential computation whose steps are accesses `o : Op`, each
answered by a value of `Ret o`.  `Performs` runs it against the history of a machine,
cycle by cycle: the program takes as long as it likes between two accesses, and in
the cycles of its run the machine sees no accesses but the program's, in its order
and one at a time.

A program that can fail is an `ExceptT ε (Program Op Ret)`; what a successful run has
done is read off piece by piece with `Performs.of_bind_ok`.
-/

set_option autoImplicit false

/-- A sequential program over the accesses `Op`. -/
inductive Program (Op : Type) (Ret : Op → Type) (α : Type) where
  | pure (a : α)
  | perform (o : Op) (next : Ret o → Program Op Ret α)

/-- The accesses a machine sees in a cycle, and what it answers to an access in a
cycle. -/
structure History (Op : Type) (Ret : Op → Type) where
  events : ℕ → List Op
  answer : ℕ → (o : Op) → Ret o

/-- No access in the cycles from `c` to `c'`, the last excluded. -/
def History.Quiet {Op : Type} {Ret : Op → Type} (h : History Op Ret) (c c' : ℕ) : Prop :=
  ∀ k, c ≤ k → k < c' → h.events k = []

theorem History.Quiet.append {Op : Type} {Ret : Op → Type} {h : History Op Ret} {c d c' : ℕ}
    (hfirst : h.Quiet c d) (hsecond : h.Quiet d c') : h.Quiet c c' := by
  intro k hle hlt
  rcases Nat.lt_or_ge k d with hk | hk
  · exact hfirst k hle hk
  · exact hsecond k hk hlt

namespace Program

variable {Op : Type} {Ret : Op → Type} {α β ε : Type}

/-- One program after the other. -/
def bind : Program Op Ret α → (α → Program Op Ret β) → Program Op Ret β
  | .pure a, f => f a
  | .perform o next, f => .perform o fun r => (next r).bind f

instance : Monad (Program Op Ret) where
  pure := .pure
  bind := .bind

/-- A single access. -/
def access (o : Op) : Program Op Ret (Ret o) := .perform o .pure

theorem pure_bind_eq (a : α) (f : α → Program Op Ret β) :
    (Pure.pure a : Program Op Ret α) >>= f = f a := rfl

theorem bind_pure_eq (m : Program Op Ret α) : (m >>= fun a => Pure.pure a) = m := by
  induction m with
  | pure a => rfl
  | perform o next ih => exact congrArg (perform o) (funext ih)

theorem bind_bind_eq {γ : Type} (m : Program Op Ret α) (f : α → Program Op Ret β)
    (g : β → Program Op Ret γ) : (m >>= f >>= g) = m >>= fun a => f a >>= g := by
  induction m with
  | pure a => rfl
  | perform o next ih => exact congrArg (perform o) (funext ih)

instance : LawfulMonad (Program Op Ret) :=
  LawfulMonad.mk' (Program Op Ret) bind_pure_eq pure_bind_eq bind_bind_eq

/-- The program is begun in cycle `c` and has ended with `a` by cycle `c'`. -/
inductive Performs (h : History Op Ret) : Program Op Ret α → ℕ → ℕ → α → Prop
  | pure {a : α} {c c' : ℕ} (le : c ≤ c') (quiet : h.Quiet c c') : Performs h (.pure a) c c' a
  | perform {o : Op} {next : Ret o → Program Op Ret α} {c r c' : ℕ} {a : α} (le : c ≤ r)
      (quiet : h.Quiet c r) (event : h.events r = [o])
      (rest : Performs h (next (h.answer r o)) (r + 1) c' a) : Performs h (.perform o next) c c' a

/-- Every access the program can make satisfies `S`. -/
def All (S : Op → Prop) : Program Op Ret α → Prop
  | .pure _ => True
  | .perform o next => S o ∧ ∀ r, (next r).All S

variable {h : History Op Ret} {c c' : ℕ}

theorem Performs.le {m : Program Op Ret α} {a : α} (hm : Performs h m c c' a) : c ≤ c' := by
  induction hm with
  | pure le _ => exact le
  | perform le _ _ _ ih => omega

/-- The machine sees only accesses the program can make. -/
theorem Performs.all {S : Op → Prop} {m : Program Op Ret α} {a : α} (hm : Performs h m c c' a)
    (hS : m.All S) : ∀ k, c ≤ k → k < c' → ∀ o ∈ h.events k, S o := by
  induction hm with
  | pure le quiet =>
      intro k hle hlt o ho
      rw [quiet k hle hlt] at ho
      contradiction
  | @perform o next c r c' a le quiet event rest ih =>
      intro k hle hlt o' ho
      rcases Nat.lt_trichotomy k r with hk | rfl | hk
      · rw [quiet k hle hk] at ho
        contradiction
      · rw [event, List.mem_singleton] at ho
        rw [ho]
        exact hS.1
      · exact ih (hS.2 _) k hk hlt o' ho

theorem All.bind {S : Op → Prop} {m : Program Op Ret α} {f : α → Program Op Ret β}
    (hm : m.All S) (hf : ∀ a, (f a).All S) : (m >>= f).All S := by
  induction m with
  | pure a => exact hf a
  | perform o next ih => exact ⟨hm.1, fun r => ih r (hm.2 r)⟩

/-- A run of two programs in sequence is two runs in sequence. -/
theorem Performs.of_bind {m : Program Op Ret α} {f : α → Program Op Ret β} {b : β}
    (hm : Performs h (m >>= f) c c' b) :
    ∃ a d, Performs h m c d a ∧ Performs h (f a) d c' b := by
  induction m generalizing c with
  | pure a => exact ⟨a, c, .pure le_rfl (fun k hle hlt => absurd hlt (by omega)), hm⟩
  | perform o next ih =>
      cases hm with
      | perform le quiet event rest =>
          obtain ⟨a, d, hfirst, hsecond⟩ := ih _ rest
          exact ⟨a, d, .perform le quiet event hfirst, hsecond⟩

/-- Two runs in sequence are a run of the two programs in sequence. -/
theorem Performs.bind {m : Program Op Ret α} {f : α → Program Op Ret β} {a : α} {b : β} {d : ℕ}
    (hm : Performs h m c d a) (hf : Performs h (f a) d c' b) : Performs h (m >>= f) c c' b := by
  induction hm with
  | @pure a c d le quiet =>
      show Performs h (f a) c c' b
      cases hfa : f a with
      | pure b' =>
          rw [hfa] at hf
          cases hf with
          | pure le' quiet' => exact .pure (Nat.le_trans le le') (quiet.append quiet')
      | perform o next =>
          rw [hfa] at hf
          cases hf with
          | perform le' quiet' event rest =>
              exact .perform (Nat.le_trans le le') (quiet.append quiet') event rest
  | perform le quiet event rest ih => exact .perform le quiet event (ih hf)

/-- A single access. -/
theorem Performs.of_access {o : Op} {a : Ret o} (hm : Performs h (access o) c c' a) :
    ∃ r, c ≤ r ∧ r < c' ∧ h.Quiet c r ∧ h.events r = [o] ∧ a = h.answer r o ∧
      h.Quiet (r + 1) c' := by
  cases hm with
  | perform le quiet event rest =>
      cases rest with
      | pure le' quiet' => exact ⟨_, le, le', quiet, event, rfl, quiet'⟩

/-! ### Programs that can fail -/

section fallible

variable {m : ExceptT ε (Program Op Ret) α} {f : α → ExceptT ε (Program Op Ret) β} {b : β}

/-- A sequence succeeds when its parts do. -/
theorem Performs.of_bind_ok (hm : Performs h (m >>= f).run c c' (.ok b)) :
    ∃ a d, Performs h m.run c d (.ok a) ∧ Performs h (f a).run d c' (.ok b) := by
  obtain ⟨a, d, hfirst, hsecond⟩ := Performs.of_bind hm
  cases a with
  | error e => cases hsecond
  | ok a => exact ⟨a, d, hfirst, hsecond⟩

/-- Two parts that succeed are a sequence that ends as the second part does. -/
theorem Performs.bind_ok {a : α} {x : Except ε β} {d : ℕ} (hm : Performs h m.run c d (.ok a))
    (hf : Performs h (f a).run d c' x) : Performs h (m >>= f).run c c' x :=
  Performs.bind hm hf

/-- A program that cannot fail. -/
theorem Performs.of_lift_ok {m : Program Op Ret β}
    (hm : Performs h (ExceptT.lift m : ExceptT ε (Program Op Ret) β).run c c' (.ok b)) :
    ∃ d, Performs h m c d b ∧ d ≤ c' ∧ h.Quiet d c' := by
  obtain ⟨a, d, hfirst, hsecond⟩ := Performs.of_bind hm
  cases hsecond with
  | pure le quiet => exact ⟨d, hfirst, le, quiet⟩

/-- A program that has ended does nothing more. -/
theorem Performs.of_pure_ok {a : β} (hm : Performs h (Pure.pure a : ExceptT ε (Program Op Ret) β).run
    c c' (.ok b)) : a = b ∧ c ≤ c' ∧ h.Quiet c c' := by
  cases hm with
  | pure le quiet => exact ⟨rfl, le, quiet⟩

/-- A program that has failed does not succeed. -/
theorem Performs.of_throw_ok {e : ε}
    (hm : Performs h (throw e : ExceptT ε (Program Op Ret) β).run c c' (.ok b)) : False := by
  cases hm

theorem All.bind_run {S : Op → Prop} (hm : m.run.All S) (hf : ∀ a, (f a).run.All S) :
    (m >>= f).run.All S := by
  refine All.bind hm ?_
  intro a
  cases a with
  | error e => exact trivial
  | ok a => exact hf a

end fallible

end Program
