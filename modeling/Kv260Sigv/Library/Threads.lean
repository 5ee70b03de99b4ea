import Kv260Sigv.Library.Program
import Mathlib.Logic.Function.Basic

/-!
# Clients that run their programs at the same time

Every client is idle or in the middle of a call, which is a `Program` over accesses to
one shared state.  A `Step` is what one client does next: it begins a call, makes the
next access of the call it is in, or returns from it.  Nothing is said about which client
moves, so a `Run` is any interleaving of any number of clients, and its trace lists what
happened, the last step first.
-/

set_option autoImplicit false

namespace Program

/-- The shared state, and how far every client has come with its call. -/
structure Threads (Client Op : Type) (Ret : Op → Type) (α σ : Type) where
  shared : σ
  running : Client → Option (Program Op Ret α)

/-- What a client can do. -/
inductive Happening (Call Op : Type) (Ret : Op → Type) (α : Type) where
  | called (q : Call)
  | accessed (o : Op) (r : Ret o)
  | returned (a : α)

namespace Threads

variable {Client Call Op : Type} {Ret : Op → Type} {α σ : Type} [DecidableEq Client]
  (body : Call → Program Op Ret α) (effect : σ → (o : Op) → Ret o → σ → Prop)

/-- One client moves.  An access takes effect at once; `effect` relates the shared state
before it, the answer and the shared state after it. -/
inductive Step : Threads Client Op Ret α σ → Client × Happening Call Op Ret α →
    Threads Client Op Ret α σ → Prop
  | call {t : Threads Client Op Ret α σ} {c : Client} {q : Call} (idle : t.running c = none) :
      Step t (c, .called q) ⟨t.shared, Function.update t.running c (some (body q))⟩
  | access {t : Threads Client Op Ret α σ} {c : Client} {o : Op} {r : Ret o} {s : σ}
      {next : Ret o → Program Op Ret α} (here : t.running c = some (.perform o next))
      (done : effect t.shared o r s) :
      Step t (c, .accessed o r) ⟨s, Function.update t.running c (some (next r))⟩
  | ret {t : Threads Client Op Ret α σ} {c : Client} {a : α}
      (here : t.running c = some (.pure a)) :
      Step t (c, .returned a) ⟨t.shared, Function.update t.running c none⟩

/-- What can have happened, the last step first, and where it leads from the shared state
`init` with every client idle. -/
inductive Run (init : σ) : List (Client × Happening Call Op Ret α) →
    Threads Client Op Ret α σ → Prop
  | start : Run init [] ⟨init, fun _ => none⟩
  | step {trace : List (Client × Happening Call Op Ret α)} {t t' : Threads Client Op Ret α σ}
      {l : Client × Happening Call Op Ret α} (run : Run init trace t)
      (next : Step body effect t l t') : Run init (l :: trace) t'

variable {body effect}

/-- What holds at the start and survives every step holds after every run. -/
theorem Run.invariant {init : σ}
    {inv : List (Client × Happening Call Op Ret α) → Threads Client Op Ret α σ → Prop}
    (start : inv [] ⟨init, fun _ => none⟩)
    (step : ∀ trace t l t', inv trace t → Step body effect t l t' → inv (l :: trace) t')
    {trace : List (Client × Happening Call Op Ret α)} {t : Threads Client Op Ret α σ}
    (run : Run body effect init trace t) : inv trace t := by
  induction run with
  | start => exact start
  | step _ next ih => exact step _ _ _ _ ih next

/-- The other clients stay where they are. -/
theorem Step.running_other {t t' : Threads Client Op Ret α σ} {c c' : Client}
    {x : Happening Call Op Ret α} (h : Step body effect t (c, x) t') (hne : c' ≠ c) :
    t'.running c' = t.running c' := by
  cases h <;> exact Function.update_of_ne hne _ _

/-- The client that calls is idle before and has the whole body before it. -/
theorem Step.of_called {t t' : Threads Client Op Ret α σ} {c : Client} {q : Call}
    (h : Step body effect t (c, .called q) t') :
    t.running c = none ∧ t'.running c = some (body q) ∧ t'.shared = t.shared := by
  cases h with
  | call idle => exact ⟨idle, Function.update_self .., rfl⟩

/-- The client that makes an access is at it before and has the rest before it. -/
theorem Step.of_accessed {t t' : Threads Client Op Ret α σ} {c : Client} {o : Op} {r : Ret o}
    (h : Step body effect t (c, .accessed o r) t') :
    ∃ next, t.running c = some (.perform o next) ∧ t'.running c = some (next r) ∧
      effect t.shared o r t'.shared := by
  cases h with
  | access here done => exact ⟨_, here, Function.update_self .., done⟩

/-- The client that returns is at its end before and idle afterwards. -/
theorem Step.of_returned {t t' : Threads Client Op Ret α σ} {c : Client} {a : α}
    (h : Step body effect t (c, .returned a) t') :
    t.running c = some (.pure a) ∧ t'.running c = none ∧ t'.shared = t.shared := by
  cases h with
  | ret here => exact ⟨here, Function.update_self .., rfl⟩

end Threads

end Program
