import Kv260Sigv.Library.Program

/-!
# A machine shared by several clients

When several clients use one machine, every access belongs to one of them: an `owner`
says whose the accesses of a cycle are, and `History.of` is what is left of a history
for one client.  A client performs its own programs on its own part of the history,
whatever the others do in between, and need not be through with the last one when we
stop looking (`Performing`).

`Confined` says of a program which accesses it can make and what it can return,
`Keeps` the same of a program that can fail.
-/

set_option autoImplicit false

/-- The accesses of one client. -/
def History.of {Op Client : Type} {Ret : Op → Type} [DecidableEq Client] (h : History Op Ret)
    (owner : ℕ → Client) (x : Client) : History Op Ret where
  events k := if owner k = x then h.events k else []
  answer := h.answer

namespace History

variable {Op Client : Type} {Ret : Op → Type} [DecidableEq Client] {h : History Op Ret}
  {owner : ℕ → Client} {x : Client} {k : ℕ} {o : Op}

theorem of_owner (hk : owner k = x) : (h.of owner x).events k = h.events k := if_pos hk

theorem of_other (hk : owner k ≠ x) : (h.of owner x).events k = [] := if_neg hk

end History

namespace Program

variable {Op : Type} {Ret : Op → Type} {α β ε : Type} {h : History Op Ret} {n c c' : ℕ}

/-! ### Programs under way -/

/-- The program is begun in cycle `c` and is as far as it has come by cycle `n`. -/
inductive Performing (h : History Op Ret) (n : ℕ) : Program Op Ret α → ℕ → Prop
  | waiting {m : Program Op Ret α} {c : ℕ} (quiet : h.Quiet c n) : Performing h n m c
  | perform {o : Op} {next : Ret o → Program Op Ret α} {c r : ℕ} (le : c ≤ r) (lt : r < n)
      (quiet : h.Quiet c r) (event : h.events r = [o])
      (rest : Performing h n (next (h.answer r o)) (r + 1)) : Performing h n (.perform o next) c

/-- The machine sees only accesses the program can make. -/
theorem Performing.all {S : Op → Prop} {m : Program Op Ret α} (hm : Performing h n m c)
    (hS : m.All S) : ∀ k, c ≤ k → k < n → ∀ o ∈ h.events k, S o := by
  induction hm with
  | waiting quiet =>
      intro k hle hlt o ho
      rw [quiet k hle hlt] at ho
      contradiction
  | @perform o next c r le lt quiet event rest ih =>
      intro k hle hlt o' ho
      rcases Nat.lt_trichotomy k r with hk | rfl | hk
      · rw [quiet k hle hk] at ho
        contradiction
      · rw [event, List.mem_singleton] at ho
        rw [ho]
        exact hS.1
      · exact ih (hS.2 _) k hk hlt o' ho

/-- The first part is under way. -/
theorem Performing.bind_left {m : Program Op Ret α} (hm : Performing h n m c)
    (f : α → Program Op Ret β) : Performing h n (m >>= f) c := by
  induction hm with
  | waiting quiet => exact .waiting quiet
  | perform le lt quiet event rest ih => exact .perform le lt quiet event ih

/-- The first part is over. -/
theorem Performs.performing {m : Program Op Ret α} {f : α → Program Op Ret β} {a : α}
    (hm : Performs h m c c' a) (hlt : c' ≤ n) (hf : Performing h n (f a) c') :
    Performing h n (m >>= f) c := by
  induction hm with
  | @pure a c d le quiet =>
      show Performing h n (f a) c
      generalize f a = m at hf ⊢
      cases hf with
      | waiting quiet' => exact .waiting (quiet.append quiet')
      | perform le' lt quiet' event rest =>
          exact .perform (Nat.le_trans le le') lt (quiet.append quiet') event rest
  | perform le quiet event rest ih =>
      have hle := rest.le
      exact .perform le (by omega) quiet event (ih hlt hf)

/-- A program that is begun later. -/
theorem Performs.later {m : Program Op Ret α} {a : α} {d : ℕ} (hquiet : h.Quiet c d) (hle : c ≤ d)
    (hm : Performs h m d c' a) : Performs h m c c' a :=
  Performs.bind (m := Pure.pure ()) (f := fun _ => m) (.pure hle hquiet) hm

/-- A program makes one access at a time. -/
theorem Performs.single {m : Program Op Ret α} {a : α} (hm : Performs h m c c' a) :
    ∀ k, c ≤ k → k < c' → (h.events k).length ≤ 1 := by
  induction hm with
  | pure le quiet =>
      intro k hk hk'
      rw [quiet k hk hk']
      exact Nat.zero_le 1
  | @perform o next c r c' a le quiet event rest ih =>
      intro k hk hk'
      rcases Nat.lt_trichotomy k r with hlt | rfl | hlt
      · rw [quiet k hk hlt]
        exact Nat.zero_le 1
      · rw [event]
        exact le_rfl
      · exact ih k hlt hk'

/-- A client on its own part of the history performs what the whole history shows in the
cycles it owns. -/
theorem Performs.of_owned {Client : Type} [DecidableEq Client] {owner : ℕ → Client} {x : Client}
    {m : Program Op Ret α} {a : α} (hm : Performs h m c c' a)
    (howned : ∀ k, c ≤ k → k < c' → owner k = x) : Performs (h.of owner x) m c c' a := by
  have hquiet : ∀ {b b' : ℕ}, c ≤ b → b' ≤ c' → h.Quiet b b' → (h.of owner x).Quiet b b' := by
    intro b b' hb hb' hq k hk hk'
    rw [History.of_owner (howned k (by omega) (by omega))]
    exact hq k hk hk'
  induction hm with
  | pure le quiet => exact .pure le (hquiet le_rfl le_rfl quiet)
  | @perform o next c r c' a le quiet event rest ih =>
      have hle := rest.le
      refine .perform le (hquiet le_rfl (by omega) quiet)
        ((History.of_owner (howned r le (by omega))).trans event) ?_
      exact ih (fun k hk hk' => howned k (by omega) hk') fun hb hb' hq => hquiet (by omega) hb' hq

/-! ### What a program can do -/

/-- Every access satisfies `S`, and what the program returns satisfies `Q`. -/
def Confined (S : Op → Prop) (Q : α → Prop) : Program Op Ret α → Prop
  | .pure a => Q a
  | .perform o next => S o ∧ ∀ r, (next r).Confined S Q

variable {S : Op → Prop} {Q Q' : α → Prop} {R : β → Prop}

theorem Confined.bind {m : Program Op Ret α} {f : α → Program Op Ret β} (hm : m.Confined S Q)
    (hf : ∀ a, Q a → (f a).Confined S R) : (m >>= f).Confined S R := by
  induction m with
  | pure a => exact hf a hm
  | perform o next ih => exact ⟨hm.1, fun r => ih r (hm.2 r)⟩

theorem Confined.mono {S' : Op → Prop} {m : Program Op Ret α} (hm : m.Confined S Q)
    (hS : ∀ o, S o → S' o) (hQ : ∀ a, Q a → Q' a) : m.Confined S' Q' := by
  induction m with
  | pure a => exact hQ a hm
  | perform o next ih => exact ⟨hS o hm.1, fun r => ih r (hm.2 r)⟩

theorem Confined.all {m : Program Op Ret α} (hm : m.Confined S Q) : m.All S := by
  induction m with
  | pure a => exact trivial
  | perform o next ih => exact ⟨hm.1, fun r => ih r (hm.2 r)⟩

theorem confined_of_all {m : Program Op Ret α} (hm : m.All S) : m.Confined S fun _ => True := by
  induction m with
  | pure a => exact trivial
  | perform o next ih => exact ⟨hm.1, fun r => ih r (hm.2 r)⟩

/-- What a confined program has returned. -/
theorem Performs.returns {m : Program Op Ret α} {a : α} (hm : Performs h m c c' a)
    (hQ : m.Confined S Q) : Q a := by
  induction hm with
  | pure le quiet => exact hQ
  | perform le quiet event rest ih => exact ih (hQ.2 _)

/-- Every access satisfies `S`, and what the program returns if it succeeds `Q`. -/
def Keeps (S : Op → Prop) (Q : α → Prop) (m : ExceptT ε (Program Op Ret) α) : Prop :=
  m.run.Confined S fun x => ∀ a, x = .ok a → Q a

section fallible

variable {m : ExceptT ε (Program Op Ret) α} {f : α → ExceptT ε (Program Op Ret) β}

theorem Keeps.bind (hm : Keeps S Q m) (hf : ∀ a, Q a → Keeps S R (f a)) : Keeps S R (m >>= f) := by
  refine Confined.bind hm fun x hx => ?_
  cases x with
  | error e =>
      intro b hb
      cases hb
  | ok a => exact hf a (hx a rfl)

theorem Keeps.mono {S' : Op → Prop} (hm : Keeps S Q m) (hS : ∀ o, S o → S' o)
    (hQ : ∀ a, Q a → Q' a) : Keeps S' Q' m :=
  Confined.mono hm hS fun _ hx a ha => hQ a (hx a ha)

theorem Keeps.pure {a : α} (ha : Q a) :
    Keeps S Q (Pure.pure a : ExceptT ε (Program Op Ret) α) := by
  intro b hb
  cases hb
  exact ha

theorem Keeps.throw {e : ε} : Keeps S Q (throw e : ExceptT ε (Program Op Ret) α) := by
  intro b hb
  cases hb

theorem Keeps.ite {p : Prop} [Decidable p] {m' : ExceptT ε (Program Op Ret) α} (hm : p → Keeps S Q m)
    (hm' : ¬ p → Keeps S Q m') : Keeps S Q (if p then m else m') := by
  by_cases hp : p
  · rw [if_pos hp]
    exact hm hp
  · rw [if_neg hp]
    exact hm' hp

theorem Keeps.access {o : Op} (ho : S o) :
    Keeps S (fun _ => True) (ExceptT.lift (Program.access o) : ExceptT ε (Program Op Ret) (Ret o)) :=
  ⟨ho, fun _ _ _ => trivial⟩

theorem Keeps.run_all (hm : Keeps S Q m) : m.run.All S := Confined.all hm

theorem keeps_of_all (hm : m.run.All S) : Keeps S (fun _ => True) m :=
  (confined_of_all hm).mono (fun _ ho => ho) fun _ _ _ _ => trivial

end fallible

end Program
