import Mathlib.Data.List.Basic

/-!
# Computations that return, fail, or panic

A call into memory-safe code ends in one of three ways: it returns a value, it
reports an error its caller is expected to handle, or it aborts the thread of
control (an out-of-bounds index, a failed `expect`, an uncaught exception).
`Outcome ε α` keeps the last two apart, so that "never panics" is a statement
about the program and not a convention of the model.

The module provides the monad, the inversion lemmas `bind_eq_ok` and
`bind_eq_panic` through which every parser proof peels a `do` block apart, the
bounded loop `iterate`, and the checked primitives a slice-based parser uses.
-/

universe u v w

/-- The three ways a call can end. -/
inductive Outcome (ε : Type u) (α : Type v) where
  /-- The call returns. -/
  | ok (value : α)
  /-- The call reports an error to its caller. -/
  | err (error : ε)
  /-- The call aborts. -/
  | panic
  deriving DecidableEq, Repr

namespace Outcome

variable {ε : Type u} {α β σ : Type v}

/-- Sequencing: errors and panics pass through. -/
def bind (x : Outcome ε α) (f : α → Outcome ε β) : Outcome ε β :=
  match x with
  | ok a => f a
  | err e => err e
  | panic => panic

instance : Monad (Outcome ε) where
  pure := ok
  bind := Outcome.bind

@[simp] theorem pure_def (a : α) : (pure a : Outcome ε α) = ok a := rfl

@[simp] theorem ok_bind (a : α) (f : α → Outcome ε β) : (ok a >>= f) = f a := rfl

@[simp] theorem err_bind (e : ε) (f : α → Outcome ε β) : (err e >>= f) = err e := rfl

@[simp] theorem panic_bind (f : α → Outcome ε β) : (panic >>= f) = panic := rfl

theorem bind_assoc {γ : Type v} (x : Outcome ε α) (f : α → Outcome ε β) (g : β → Outcome ε γ) :
    (x >>= f >>= g) = (x >>= fun a => f a >>= g) := by
  cases x <;> rfl

/-- A sequence returns exactly when both halves do. -/
theorem bind_eq_ok {x : Outcome ε α} {f : α → Outcome ε β} {b : β} :
    (x >>= f) = ok b ↔ ∃ a, x = ok a ∧ f a = ok b := by
  cases x <;> simp

/-- A sequence panics when its first half does, or when the second half does on
the value the first half returned. -/
theorem bind_eq_panic {x : Outcome ε α} {f : α → Outcome ε β} :
    (x >>= f) = panic ↔ x = panic ∨ ∃ a, x = ok a ∧ f a = panic := by
  cases x <;> simp

/-- Forget everything but the returned value. -/
def value? : Outcome ε α → Option α
  | ok a => some a
  | _ => none

@[simp] theorem value?_ok (a : α) : (ok a : Outcome ε α).value? = some a := rfl

@[simp] theorem value?_err (e : ε) : (err e : Outcome ε α).value? = none := rfl

@[simp] theorem value?_panic : (panic : Outcome ε α).value? = none := rfl

theorem value?_eq_some {x : Outcome ε α} {a : α} : x.value? = some a ↔ x = ok a := by
  cases x <;> simp

/-! ### The bounded loop -/

/-- `n` rounds of `body`, stopping at the first round that does not return. -/
def iterate (body : σ → Outcome ε σ) : ℕ → σ → Outcome ε σ
  | 0, s => ok s
  | n + 1, s => body s >>= iterate body n

@[simp] theorem iterate_zero (body : σ → Outcome ε σ) (s : σ) :
    iterate body 0 s = ok s := rfl

theorem iterate_succ (body : σ → Outcome ε σ) (n : ℕ) (s : σ) :
    iterate body (n + 1) s = (body s >>= iterate body n) := rfl

/-- An invariant under which the body does not panic carries through the loop. -/
theorem iterate_ne_panic {body : σ → Outcome ε σ} (inv : σ → Prop)
    (safe : ∀ s, inv s → body s ≠ panic)
    (step : ∀ s s', inv s → body s = ok s' → inv s') (n : ℕ) :
    ∀ s, inv s → iterate body n s ≠ panic := by
  induction n with
  | zero => intro s _; simp
  | succ n ih =>
      intro s hs h
      rw [iterate_succ, bind_eq_panic] at h
      rcases h with h | ⟨s', hbody, h⟩
      · exact safe s hs h
      · exact ih s' (step s s' hs hbody) h

/-! ### Two computations in step -/

section Matches

variable {ε' : Type w} {α' β' σ' : Type v} {E : ε → ε' → Prop}

/-- Both computations end the same way, with related values or related errors. -/
inductive Matches (E : ε → ε' → Prop) (R : α → α' → Prop) :
    Outcome ε α → Outcome ε' α' → Prop
  | ok {a : α} {a' : α'} : R a a' → Matches E R (.ok a) (.ok a')
  | err {e : ε} {e' : ε'} : E e e' → Matches E R (.err e) (.err e')
  | panic : Matches E R .panic .panic

/-- Sequences match when their halves do. -/
theorem Matches.bind {R : α → α' → Prop} {S : β → β' → Prop} {x : Outcome ε α}
    {x' : Outcome ε' α'} {f : α → Outcome ε β} {f' : α' → Outcome ε' β'}
    (hx : Matches E R x x') (hf : ∀ a a', R a a' → Matches E S (f a) (f' a')) :
    Matches E S (x >>= f) (x' >>= f') := by
  cases hx with
  | ok h => exact hf _ _ h
  | err h => exact .err h
  | panic => exact .panic

/-- Loops match when their bodies do. -/
theorem Matches.iterate {R : σ → σ' → Prop} {body : σ → Outcome ε σ}
    {body' : σ' → Outcome ε' σ'} (hbody : ∀ s s', R s s' → Matches E R (body s) (body' s'))
    (n : ℕ) : ∀ s s', R s s' → Matches E R (iterate body n s) (iterate body' n s') := by
  induction n with
  | zero =>
      intro s s' h
      exact .ok h
  | succ n ih =>
      intro s s' h
      rw [iterate_succ, iterate_succ]
      exact (hbody s s' h).bind ih

/-- Post-processing the second value. -/
theorem Matches.map_right {R : α → α' → Prop} {S : α → β' → Prop} {x : Outcome ε α}
    {x' : Outcome ε' α'} {f' : α' → β'} (hx : Matches E R x x')
    (hf : ∀ a a', R a a' → S a (f' a')) : Matches E S x (x' >>= fun a' => .ok (f' a')) := by
  cases hx with
  | ok h => exact .ok (hf _ _ h)
  | err h => exact .err h
  | panic => exact .panic

theorem Matches.ok_iff {R : α → α' → Prop} {x : Outcome ε α} {x' : Outcome ε' α'}
    (h : Matches E R x x') : (∃ a, x = .ok a) ↔ ∃ a', x' = .ok a' := by
  cases h <;> simp

theorem Matches.exists_ok {R : α → α' → Prop} {x : Outcome ε α} {x' : Outcome ε' α'} {a : α}
    (h : Matches E R x x') (hx : x = .ok a) : ∃ a', x' = .ok a' ∧ R a a' := by
  subst hx
  cases h with
  | ok h => exact ⟨_, rfl, h⟩

theorem Matches.exists_ok' {R : α → α' → Prop} {x : Outcome ε α} {x' : Outcome ε' α'} {a' : α'}
    (h : Matches E R x x') (hx : x' = .ok a') : ∃ a, x = .ok a ∧ R a a' := by
  subst hx
  cases h with
  | ok h => exact ⟨_, rfl, h⟩

theorem Matches.panic_iff {R : α → α' → Prop} {x : Outcome ε α} {x' : Outcome ε' α'}
    (h : Matches E R x x') : x = .panic ↔ x' = .panic := by
  cases h <;> simp

end Matches

/-! ### Checked slice primitives -/

/-- `data[lo..hi]`: panics unless `lo ≤ hi ≤ data.len()`. -/
def slice (data : List α) (lo hi : ℕ) : Outcome ε (List α) :=
  if lo ≤ hi ∧ hi ≤ data.length then ok ((data.drop lo).take (hi - lo)) else panic

/-- `data[i]`: panics unless `i < data.len()`. -/
def index (data : List α) (i : ℕ) : Outcome ε α :=
  match data[i]? with
  | some a => ok a
  | none => panic

@[simp] theorem index_eq_ok {data : List α} {i : ℕ} {a : α} :
    (index data i : Outcome ε α) = ok a ↔ data[i]? = some a := by
  unfold index
  split <;> simp_all

@[simp] theorem index_eq_panic {data : List α} {i : ℕ} :
    (index data i : Outcome ε α) = panic ↔ data.length ≤ i := by
  unfold index
  split <;> simp_all [List.getElem?_eq_some_iff]
  rename_i h
  exact h.1

@[simp] theorem index_ne_err {data : List α} {i : ℕ} {e : ε} :
    (index data i : Outcome ε α) ≠ err e := by
  unfold index
  split <;> simp

end Outcome
