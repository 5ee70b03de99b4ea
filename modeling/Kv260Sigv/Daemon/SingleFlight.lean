import Kv260Sigv.Daemon.Accelerator
import Kv260Sigv.Library.Threads

/-!
# One batch at a time

`SingleFlightAccelerator` of `accelerator.rs`: the accelerator behind a busy flag.
`verify_batch` is a program over the atomic flag and the call of the inner accelerator,
which takes its time between `enter` and `leave` and may return `Ok`, return `Err` or
panic.  The guard is a local of `verify_batch`, so it is dropped when the inner call
returns and when a panic unwinds through it, and it exists only where the flag was taken.

Any number of callers run this program at the same time (`Program.Threads`).  Whether a
call is in progress is read off the trace of what they did (`InProgress`).
-/

set_option autoImplicit false

namespace Kv260Sigv

namespace SingleFlight

open Program Accelerator

/-- How a call comes back. -/
inductive Completion where
  | returned (result : Except ServiceError HardwareBatchResult)
  | panicked

/-- What a caller does to the flag and to the inner accelerator. -/
inductive Op where
  | compareExchange (expected new : Bool)
  | store (value : Bool)
  | enter (request : HardwareBatchRequest)
  | leave

/-- `compare_exchange` answers with the value it found, as `Ok` if it was the expected one. -/
abbrev Ret : Op → Type
  | .compareExchange .. => Except Bool Bool
  | .store .. => Unit
  | .enter .. => Unit
  | .leave => Completion

/-- What an access does to the flag.  The inner accelerator does not know of the flag and
may come back in any way. -/
def effect (busy : Bool) : (o : Op) → Ret o → Bool → Prop
  | .compareExchange expected new, r, busy' =>
      (busy = expected ∧ r = .ok expected ∧ busy' = new) ∨
        (busy ≠ expected ∧ r = .error busy ∧ busy' = busy)
  | .store value, _, busy' => busy' = value
  | .enter _, _, busy' => busy' = busy
  | .leave, _, busy' => busy' = busy

/-- The refusal of `BusyGuard::try_acquire`. -/
def acceleratorBusy : ServiceError :=
  ⟨.unavailable, "accelerator_busy", "another verification request is already running"⟩

/-- `BusyGuard::try_acquire`. -/
def tryAcquire : ExceptT ServiceError (Program Op Ret) Unit := do
  let found : Except Bool Bool ← ExceptT.lift (access (Op.compareExchange false true))
  match found with
  | .error _ => throw acceleratorBusy
  | .ok _ => return ()

/-- `Drop for BusyGuard`. -/
def dropGuard : Program Op Ret Unit := access (Op.store false)

/-- `self.inner.verify_batch(request)`. -/
def innerVerifyBatch (request : HardwareBatchRequest) : Program Op Ret Completion := do
  access (Op.enter request)
  access Op.leave

/-- The scope of `_guard` after it was built: left by a return or by unwinding, the guard
is dropped. -/
def guarded (body : Program Op Ret Completion) : Program Op Ret Completion := do
  let completion ← body
  dropGuard
  return completion

/-- `SingleFlightAccelerator::verify_batch`. -/
def verifyBatch (request : HardwareBatchRequest) : Program Op Ret Completion := do
  match ← tryAcquire.run with
  | .error e => return .returned (.error e)
  | .ok () => guarded (innerVerifyBatch request)

section

variable {Caller : Type} [DecidableEq Caller]

/-- What the callers did, the last step first. -/
abbrev Trace (Caller : Type) :=
  List (Caller × Happening HardwareBatchRequest Op Ret Completion)

/-- The flag and the callers. -/
abbrev State (Caller : Type) := Threads Caller Op Ret Completion Bool

/-- A step of one caller. -/
abbrev Step :
    State Caller → Caller × Happening HardwareBatchRequest Op Ret Completion → State Caller → Prop :=
  Threads.Step verifyBatch effect

/-- Any interleaving of calls, from `SingleFlightAccelerator::new`. -/
abbrev Run : Trace Caller → State Caller → Prop := Threads.Run verifyBatch effect false

/-- The caller took the flag and has not given it back. -/
def InProgress : Trace Caller → Caller → Prop
  | [], _ => False
  | (c', .accessed (.compareExchange _ _) (.ok _)) :: earlier, c => c' = c ∨ InProgress earlier c
  | (c', .accessed (.store _) _) :: earlier, c => c' ≠ c ∧ InProgress earlier c
  | _ :: earlier, c => InProgress earlier c

/-- The caller's inner `verify_batch` has begun and has not come back. -/
def InnerRunning : Trace Caller → Caller → Prop
  | [], _ => False
  | (c', .accessed (.enter _) _) :: earlier, c => c' = c ∨ InnerRunning earlier c
  | (c', .accessed .leave _) :: earlier, c => c' ≠ c ∧ InnerRunning earlier c
  | _ :: earlier, c => InnerRunning earlier c

end

/-! ### Where a caller is in `verify_batch` -/

/-- The places in `verify_batch`. -/
inductive Place where
  | asking (request : HardwareBatchRequest)
  | refused
  | admitted (request : HardwareBatchRequest)
  | inside
  | leaving (completion : Completion)
  | through (completion : Completion)

namespace Place

/-- What is left of `verify_batch`. -/
def program : Place → Program Op Ret Completion
  | .asking request => verifyBatch request
  | .refused => .pure (.returned (.error acceleratorBusy))
  | .admitted request => guarded (innerVerifyBatch request)
  | .inside => guarded (access Op.leave)
  | .leaving completion => guarded (.pure completion)
  | .through completion => .pure completion

/-- The guard exists. -/
def Holds : Place → Prop
  | .admitted _ | .inside | .leaving _ => True
  | _ => False

/-- What a caller does next, and where it gets. -/
inductive Move : Place → (o : Op) → Ret o → Place → Prop
  | acquire {request : HardwareBatchRequest} {b : Bool} :
      Move (.asking request) (.compareExchange false true) (.ok b) (.admitted request)
  | refuse {request : HardwareBatchRequest} {b : Bool} :
      Move (.asking request) (.compareExchange false true) (.error b) .refused
  | enter {request : HardwareBatchRequest} :
      Move (.admitted request) (.enter request) () .inside
  | leave {completion : Completion} : Move .inside .leave completion (.leaving completion)
  | release {completion : Completion} :
      Move (.leaving completion) (.store false) () (.through completion)

/-- The program makes no other accesses than these moves. -/
theorem move {p : Place} {o : Op} {next : Ret o → Program Op Ret Completion} (r : Ret o)
    (h : p.program = .perform o next) : ∃ p' : Place, next r = p'.program ∧ p.Move o r p' := by
  cases p with
  | asking request =>
      cases h
      cases r with
      | error b => exact ⟨.refused, rfl, .refuse⟩
      | ok b => exact ⟨.admitted request, rfl, .acquire⟩
  | refused => cases h
  | admitted request =>
      cases h
      exact ⟨.inside, rfl, .enter⟩
  | inside =>
      cases h
      exact ⟨.leaving r, rfl, .leave⟩
  | leaving completion =>
      cases h
      exact ⟨.through completion, rfl, .release⟩
  | through completion => cases h

/-- A caller returns only without the guard. -/
theorem not_holds_of_pure {p : Place} {completion : Completion}
    (h : p.program = .pure completion) : ¬ p.Holds := by
  cases p with
  | asking request => cases h
  | admitted request => cases h
  | inside => cases h
  | leaving completion => cases h
  | refused => exact id
  | through completion => exact id

end Place

/-! ### The flag is set while a call is in progress -/

section

variable {Caller : Type} [DecidableEq Caller]

/-- The trace tells where every caller is, and the flag is set exactly while one of them
has its guard. -/
structure Invariant (trace : Trace Caller) (s : State Caller) : Prop where
  placed : ∀ c m, s.running c = some m →
    ∃ p : Place, m = p.program ∧ (InProgress trace c ↔ p.Holds) ∧
      (InnerRunning trace c ↔ p = .inside)
  idle : ∀ c, s.running c = none → ¬ InProgress trace c ∧ ¬ InnerRunning trace c
  single : ∀ c c', InProgress trace c → InProgress trace c' → c = c'
  busy : s.shared = true ↔ ∃ c, InProgress trace c

theorem Invariant.start : Invariant ([] : Trace Caller) ⟨false, fun _ => none⟩ where
  placed := fun _ _ h => nomatch h
  idle := fun _ _ => ⟨id, id⟩
  single := fun _ _ h => h.elim
  busy := by simp [InProgress]

variable {trace : Trace Caller} {s s' : State Caller} {c : Caller}

/-- A caller that makes an access is somewhere in `verify_batch`, and the access is the
next move from there. -/
theorem Invariant.of_accessed (hs : Invariant trace s) {o : Op} {r : Ret o}
    (h : Step s (c, .accessed o r) s') :
    ∃ p p' : Place, p.Move o r p' ∧ s'.running c = some p'.program ∧
      (InProgress trace c ↔ p.Holds) ∧ (InnerRunning trace c ↔ p = .inside) ∧
      effect s.shared o r s'.shared := by
  obtain ⟨next, hhere, hafter, heffect⟩ := h.of_accessed
  obtain ⟨p, hp, hholds, hinside⟩ := hs.placed c _ hhere
  obtain ⟨p', hp', hmove⟩ := p.move r hp.symm
  exact ⟨p, p', hmove, hp' ▸ hafter, hholds, hinside, heffect⟩

/-- A step that leaves the guards alone keeps the invariant, if its own caller is where the
trace says. -/
theorem Invariant.of_frame (hs : Invariant trace s)
    {x : Happening HardwareBatchRequest Op Ret Completion} (h : Step s (c, x) s')
    (hothers : ∀ c', c' ≠ c → (InProgress ((c, x) :: trace) c' ↔ InProgress trace c') ∧
      (InnerRunning ((c, x) :: trace) c' ↔ InnerRunning trace c'))
    (hplaced : ∀ m, s'.running c = some m →
      ∃ p : Place, m = p.program ∧ (InProgress ((c, x) :: trace) c ↔ p.Holds) ∧
        (InnerRunning ((c, x) :: trace) c ↔ p = .inside))
    (hidle : s'.running c = none →
      ¬ InProgress ((c, x) :: trace) c ∧ ¬ InnerRunning ((c, x) :: trace) c)
    (hsingle : ∀ c', c' ≠ c → InProgress ((c, x) :: trace) c → ¬ InProgress trace c')
    (hbusy : s'.shared = true ↔ ∃ c', InProgress ((c, x) :: trace) c') :
    Invariant ((c, x) :: trace) s' where
  placed := by
    intro c' m hm
    by_cases hc : c' = c
    · subst hc
      exact hplaced m hm
    · rw [h.running_other hc] at hm
      rw [(hothers c' hc).1, (hothers c' hc).2]
      exact hs.placed c' m hm
  idle := by
    intro c' hnone
    by_cases hc : c' = c
    · subst hc
      exact hidle hnone
    · rw [h.running_other hc] at hnone
      rw [(hothers c' hc).1, (hothers c' hc).2]
      exact hs.idle c' hnone
  single := by
    intro c₁ c₂ h₁ h₂
    by_cases hc₁ : c₁ = c
    · subst hc₁
      by_contra hne
      exact hsingle c₂ (Ne.symm hne) h₁ ((hothers c₂ (Ne.symm hne)).1.mp h₂)
    by_cases hc₂ : c₂ = c
    · subst hc₂
      exact absurd ((hothers c₁ hc₁).1.mp h₁) (hsingle c₁ hc₁ h₂)
    · exact hs.single c₁ c₂ ((hothers c₁ hc₁).1.mp h₁) ((hothers c₂ hc₂).1.mp h₂)
  busy := hbusy

/-- **One step.**  Whoever moves, the flag goes with the guard. -/
theorem Invariant.step (hs : Invariant trace s)
    {l : Caller × Happening HardwareBatchRequest Op Ret Completion} (h : Step s l s') :
    Invariant (l :: trace) s' := by
  obtain ⟨c, x⟩ := l
  cases x with
  | called request =>
      obtain ⟨hnone, hafter, hshared⟩ := h.of_called
      refine hs.of_frame h (fun c' _ => ⟨Iff.rfl, Iff.rfl⟩) ?_ ?_ ?_ ?_
      · intro m hm
        cases hafter.symm.trans hm
        exact ⟨.asking request, rfl, iff_of_false (hs.idle c hnone).1 id,
          iff_of_false (hs.idle c hnone).2 nofun⟩
      · intro hnone'
        exact nomatch hafter.symm.trans hnone'
      · intro c' hne hc hc'
        exact hne (hs.single c' c hc' hc)
      · rw [hshared]
        exact hs.busy
  | returned completion =>
      obtain ⟨hhere, hafter, hshared⟩ := h.of_returned
      obtain ⟨p, hp, hholds, hinside⟩ := hs.placed c _ hhere
      have hnot : ¬ p.Holds := p.not_holds_of_pure hp.symm
      refine hs.of_frame h (fun c' _ => ⟨Iff.rfl, Iff.rfl⟩) ?_ ?_ ?_ ?_
      · intro m hm
        exact nomatch hafter.symm.trans hm
      · intro _
        refine ⟨fun hc => hnot (hholds.mp hc), fun hc => ?_⟩
        rw [hinside.mp hc] at hnot
        exact hnot trivial
      · intro c' hne hc hc'
        exact hne (hs.single c' c hc' hc)
      · rw [hshared]
        exact hs.busy
  | accessed o r =>
      obtain ⟨p, p', hmove, hafter, hholds, hinside, heffect⟩ := hs.of_accessed h
      have hplace : ∀ m, s'.running c = some m → m = p'.program :=
        fun m hm => (Option.some.inj (hafter.symm.trans hm)).symm
      have hrunning : s'.running c ≠ none := by simp [hafter]
      cases hmove with
      | @acquire request b =>
          obtain ⟨hfree, -, hset⟩ := heffect.resolve_right (fun h => nomatch h.2.1)
          have hnobody : ∀ c', ¬ InProgress trace c' := by
            intro c' hc'
            rw [hs.busy.mpr ⟨c', hc'⟩] at hfree
            cases hfree
          refine hs.of_frame h ?_ ?_ (fun h => absurd h hrunning) (fun c' _ _ => hnobody c') ?_
          · intro c' hne
            exact ⟨or_iff_right (Ne.symm hne), Iff.rfl⟩
          · intro m hm
            exact ⟨_, hplace m hm, iff_of_true (.inl rfl) trivial,
              hinside.trans (iff_of_false nofun nofun)⟩
          · rw [hset]
            exact iff_of_true rfl ⟨c, .inl rfl⟩
      | @refuse request b =>
          obtain ⟨-, -, hset⟩ := heffect.resolve_left (fun h => nomatch h.2.1)
          refine hs.of_frame h (fun c' _ => ⟨Iff.rfl, Iff.rfl⟩) ?_ (fun h => absurd h hrunning)
            ?_ ?_
          · intro m hm
            exact ⟨_, hplace m hm, hholds.trans (iff_of_false id id),
              hinside.trans (iff_of_false nofun nofun)⟩
          · intro c' hne hc hc'
            exact hne (hs.single c' c hc' hc)
          · rw [hset]
            exact hs.busy
      | @enter request =>
          refine hs.of_frame h ?_ ?_ (fun h => absurd h hrunning) ?_ ?_
          · intro c' hne
            exact ⟨Iff.rfl, or_iff_right (Ne.symm hne)⟩
          · intro m hm
            exact ⟨_, hplace m hm, hholds.trans (iff_of_true trivial trivial),
              iff_of_true (.inl rfl) rfl⟩
          · intro c' hne hc hc'
            exact hne (hs.single c' c hc' hc)
          · rw [show s'.shared = s.shared from heffect]
            exact hs.busy
      | @leave completion =>
          refine hs.of_frame h ?_ ?_ (fun h => absurd h hrunning) ?_ ?_
          · intro c' hne
            exact ⟨Iff.rfl, and_iff_right (Ne.symm hne)⟩
          · intro m hm
            exact ⟨_, hplace m hm, hholds.trans (iff_of_true trivial trivial),
              iff_of_false (fun h => h.1 rfl) nofun⟩
          · intro c' hne hc hc'
            exact hne (hs.single c' c hc' hc)
          · rw [show s'.shared = s.shared from heffect]
            exact hs.busy
      | @release completion =>
          have hown : InProgress trace c := hholds.mpr trivial
          refine hs.of_frame h ?_ ?_ (fun h => absurd h hrunning) ?_ ?_
          · intro c' hne
            exact ⟨and_iff_right (Ne.symm hne), Iff.rfl⟩
          · intro m hm
            exact ⟨_, hplace m hm, iff_of_false (fun h => h.1 rfl) id,
              hinside.trans (iff_of_false nofun nofun)⟩
          · intro c' _ hc
            exact absurd rfl hc.1
          · rw [show s'.shared = false from heffect]
            refine iff_of_false nofun ?_
            rintro ⟨c', hne, hc'⟩
            exact hne (hs.single c c' hown hc')

theorem Run.invariant (h : Run trace s) : Invariant trace s :=
  Threads.Run.invariant Invariant.start (fun _ _ _ _ hs hstep => hs.step hstep) h

/-- The inner call runs within the guard. -/
theorem Invariant.inProgress_of_innerRunning (hs : Invariant trace s)
    (h : InnerRunning trace c) : InProgress trace c := by
  rcases hrunning : s.running c with _ | m
  · exact absurd h (hs.idle c hrunning).2
  · obtain ⟨p, -, hholds, hinside⟩ := hs.placed c m hrunning
    rw [hholds, hinside.mp h]
    trivial

/-- The caller is on its way back with `accelerator_busy`. -/
def Refused (s : State Caller) (c : Caller) : Prop :=
  s.running c = some (.pure (.returned (.error acceleratorBusy)))

/-- An acquire finds the flag as the trace says: it is refused while another call is in
progress, and otherwise the call is in progress from then on. -/
theorem Invariant.of_acquire (hs : Invariant trace s) {r : Except Bool Bool}
    (h : Step s (c, .accessed (.compareExchange false true) r) s') :
    (Refused s' c ↔ ∃ c', c' ≠ c ∧ InProgress trace c') ∧
      ((∀ c', ¬ InProgress trace c') →
        InProgress ((c, .accessed (.compareExchange false true) r) :: trace) c) := by
  obtain ⟨p, p', hmove, hafter, hholds, -, heffect⟩ := hs.of_accessed h
  cases hmove with
  | @acquire request b =>
      obtain ⟨hfree, -, -⟩ := heffect.resolve_right (fun h => nomatch h.2.1)
      refine ⟨iff_of_false ?_ ?_, fun _ => .inl rfl⟩
      · intro hrefused
        cases hafter.symm.trans hrefused
      · rintro ⟨c', -, hc'⟩
        rw [hs.busy.mpr ⟨c', hc'⟩] at hfree
        cases hfree
  | @refuse request b =>
      obtain ⟨hset, -, -⟩ := heffect.resolve_left (fun h => nomatch h.2.1)
      obtain ⟨c', hc'⟩ := hs.busy.mp (by simpa using hset)
      refine ⟨iff_of_true hafter ⟨c', ?_, hc'⟩, fun hnone => absurd hc' (hnone c')⟩
      rintro rfl
      exact hholds.mp hc'

/-- Only the caller whose call is in progress writes to the flag. -/
theorem Invariant.of_clear (hs : Invariant trace s)
    {x : Happening HardwareBatchRequest Op Ret Completion} (h : Step s (c, x) s')
    (hset : s.shared = true) (hclear : s'.shared = false) : InProgress trace c := by
  cases x with
  | called request =>
      rw [h.of_called.2.2, hset] at hclear
      cases hclear
  | returned completion =>
      rw [h.of_returned.2.2, hset] at hclear
      cases hclear
  | accessed o r =>
      obtain ⟨p, p', hmove, -, hholds, -, heffect⟩ := hs.of_accessed h
      cases hmove with
      | acquire =>
          rcases heffect with ⟨hfree, -⟩ | ⟨-, -, hsame⟩
          · rw [hset] at hfree
            cases hfree
          · rw [hsame, hset] at hclear
            cases hclear
      | refuse =>
          rcases heffect with ⟨hfree, -⟩ | ⟨-, -, hsame⟩
          · rw [hset] at hfree
            cases hfree
          · rw [hsame, hset] at hclear
            cases hclear
      | enter => exact hholds.mpr trivial
      | leave => exact hholds.mpr trivial
      | release => exact hholds.mpr trivial

/-- An acquire is never kept waiting: it can be made on a free flag. -/
theorem step_acquire {request : HardwareBatchRequest}
    (h : s.running c = some (verifyBatch request)) (hfree : s.shared = false) :
    Step s (c, .accessed (.compareExchange false true) (.ok false))
      ⟨true, Function.update s.running c (some (guarded (innerVerifyBatch request)))⟩ :=
  Threads.Step.access h (Or.inl ⟨hfree, rfl, rfl⟩)

/-- And it can be made on a flag that is set. -/
theorem step_refuse {request : HardwareBatchRequest}
    (h : s.running c = some (verifyBatch request)) (hset : s.shared = true) :
    Step s (c, .accessed (.compareExchange false true) (.error true))
      ⟨true, Function.update s.running c
        (some (.pure (.returned (.error acceleratorBusy))))⟩ :=
  Threads.Step.access h (Or.inr ⟨by simp [hset], by rw [hset], hset.symm⟩)

theorem step_enter {request : HardwareBatchRequest}
    (h : s.running c = some (guarded (innerVerifyBatch request))) :
    Step s (c, .accessed (.enter request) ())
      ⟨s.shared, Function.update s.running c (some (guarded (access Op.leave)))⟩ :=
  Threads.Step.access (o := Op.enter request) (r := ()) h rfl

/-- **Single flight.**  After any interleaving of any number of calls: at most one inner
call is running; an acquire is refused with `accelerator_busy` exactly when another call
is in progress; a caller that is refused leaves the flag alone, and whoever clears it has
its own call in progress; and when no call is in progress the next acquire can be made and
puts its caller's call in progress. -/
theorem single_flight (hrun : Run trace s) :
    (∀ c c', InnerRunning trace c → InnerRunning trace c' → c = c') ∧
    (∀ c r s', Step s (c, .accessed (.compareExchange false true) r) s' →
      (Refused s' c ↔ ∃ c', c' ≠ c ∧ InProgress trace c')) ∧
    (∀ c x s', Step s (c, x) s' → Refused s c → s'.shared = s.shared) ∧
    (∀ c x s', Step s (c, x) s' → s.shared = true → s'.shared = false →
      InProgress trace c) ∧
    ((∀ c, ¬ InProgress trace c) → ∀ c request, s.running c = some (verifyBatch request) →
      (∃ s', Step s (c, .accessed (.compareExchange false true) (.ok false)) s') ∧
      ∀ r s', Step s (c, .accessed (.compareExchange false true) r) s' →
        InProgress ((c, .accessed (.compareExchange false true) r) :: trace) c) := by
  have hs := Run.invariant hrun
  refine ⟨?_, fun c r s' h => (hs.of_acquire h).1, ?_, fun c x s' h => hs.of_clear h, ?_⟩
  · intro c c' hc hc'
    exact hs.single c c' (hs.inProgress_of_innerRunning hc) (hs.inProgress_of_innerRunning hc')
  · intro c x s' h hrefused
    cases x with
    | called request => exact h.of_called.2.2
    | returned completion => exact h.of_returned.2.2
    | accessed o r =>
        obtain ⟨next, hhere, -⟩ := h.of_accessed
        cases hrefused.symm.trans hhere
  · intro hnone c request hasking
    have hfree : s.shared = false := by
      rw [← Bool.not_eq_true]
      exact fun hset => absurd (hs.busy.mp hset) (not_exists.mpr hnone)
    exact ⟨⟨_, step_acquire hasking hfree⟩, fun r s' h => (hs.of_acquire h).2 hnone⟩

end

/-- Caller 1 comes while the inner call of caller 0 runs, and is refused. -/
theorem single_flight_two_callers :
    ∃ (trace : Trace ℕ) (s s' : State ℕ), Run trace s ∧ InnerRunning trace 0 ∧
      Step s (1, .accessed (.compareExchange false true) (.error true)) s' ∧ Refused s' 1 := by
  have request : HardwareBatchRequest := ⟨[], [], .strict, 0, 0⟩
  have h₀ : Run ([] : Trace ℕ) _ := .start
  have h₁ := h₀.step (l := (0, .called request)) (.call rfl)
  have h₂ := h₁.step (step_acquire (c := 0) (show _ = some (verifyBatch request) from rfl) rfl)
  have h₃ := h₂.step (step_enter (c := 0) (show _ = some (guarded (innerVerifyBatch request)) from rfl))
  have h₄ := h₃.step (l := (1, .called request)) (.call rfl)
  obtain ⟨trace, s, hrun, hinner, hprogress, hasking, hset⟩ :
      ∃ (trace : Trace ℕ) (s : State ℕ), Run trace s ∧ InnerRunning trace 0 ∧
        InProgress trace 0 ∧ s.running 1 = some (verifyBatch request) ∧ s.shared = true :=
    ⟨_, _, h₄, .inl rfl, .inl rfl, rfl, rfl⟩
  have hstep := step_refuse hasking hset
  exact ⟨trace, s, _, hrun, hinner, hstep,
    ((single_flight hrun).2.1 1 _ _ hstep).mpr ⟨0, by decide, hprogress⟩⟩

end SingleFlight

end Kv260Sigv
