import Kv260Sigv.Library.Clocked

/-!
# Start and done

Two machines on one clock: a client asks with a one-cycle `start` and waits, a server
answers with a one-cycle `done`.  `Linked` lists the four situations the two can be in,
and `Linked.step` says that they stay in one of them, whatever the server computes, as
long as the client keeps waiting until the answer and asks only when it begins to wait.
-/

set_option autoImplicit false

namespace Handshake

universe u v

/-- A machine that is asked by a pulse and answers by one. -/
structure Server (ι : Type u) (σ : Type v) where
  step : ι → σ → σ
  start : ι → Bool
  done : σ → Bool
  Idle : σ → Prop
  /-- It works on a request. -/
  Busy : σ → Prop
  /-- What it answers is right. -/
  Answer : σ → Prop

variable {ι : Type u} {σ : Type v} {S : Server ι σ}

/-- A request was taken: it is worked on, or answered in this very cycle. -/
inductive Server.Engaged (S : Server ι σ) (s : σ) : Prop
  | working (busy : S.Busy s) (silent : S.done s = false)
  | answered (idle : S.Idle s) (done : S.done s = true) (answer : S.Answer s)

/-- Only a request ends the rest, and a request is worked on until its answer. -/
structure Server.Sound (S : Server ι σ) : Prop where
  rest : ∀ {i s}, S.Idle s → S.start i = false → S.Idle (S.step i s) ∧ S.done (S.step i s) = false
  accept : ∀ {i s}, S.Idle s → S.start i = true → S.Engaged (S.step i s)
  work : ∀ {i s}, S.Busy s → S.start i = false → S.Engaged (S.step i s)

/-- The situations of a server and a client that waits, or not, and asks, or not. -/
inductive Server.Linked (S : Server ι σ) (s : σ) : Bool → Bool → Prop
  | quiet (idle : S.Idle s) (silent : S.done s = false) : S.Linked s false false
  | asked (idle : S.Idle s) (silent : S.done s = false) : S.Linked s true true
  | engaged (engaged : S.Engaged s) : S.Linked s true false

/-- A client that waits for an answer goes on waiting, without asking again; any other
asks exactly when it begins to wait. -/
def Patient (done waiting waiting' asking' : Bool) : Prop :=
  if waiting && !done then waiting' = true ∧ asking' = false else asking' = waiting'

instance (done waiting waiting' asking' : Bool) :
    Decidable (Patient done waiting waiting' asking') := by
  unfold Patient
  infer_instance

namespace Server.Linked

variable {s : σ} {waiting asking waiting' asking' : Bool}

theorem of_idle (idle : S.Idle s) (silent : S.done s = false) (h : asking = waiting) :
    S.Linked s waiting asking := by
  subst h
  cases asking
  · exact quiet idle silent
  · exact asked idle silent

/-- One cycle of both. -/
theorem step (sound : S.Sound) {i : ι} (h : S.Linked s waiting asking) (hstart : S.start i = asking)
    (hclient : Patient (S.done s) waiting waiting' asking') :
    S.Linked (S.step i s) waiting' asking' := by
  cases h with
  | quiet idle silent =>
      obtain ⟨hidle, hsilent⟩ := sound.rest idle hstart
      exact of_idle hidle hsilent hclient
  | asked idle silent =>
      rw [silent] at hclient
      obtain ⟨rfl, rfl⟩ := hclient
      exact engaged (sound.accept idle hstart)
  | engaged hengaged =>
      cases hengaged with
      | working busy silent =>
          rw [silent] at hclient
          obtain ⟨rfl, rfl⟩ := hclient
          exact engaged (sound.work busy hstart)
      | answered idle done answer =>
          rw [done] at hclient
          obtain ⟨hidle, hsilent⟩ := sound.rest idle hstart
          exact of_idle hidle hsilent hclient

/-- A start finds the server idle. -/
theorem idle_of_asking (h : S.Linked s waiting true) : S.Idle s ∧ S.done s = false := by
  cases h with
  | asked idle silent => exact ⟨idle, silent⟩

/-- An answer comes only to a client that waits. -/
theorem of_done (h : S.Linked s waiting asking) (hdone : S.done s = true) :
    waiting = true ∧ asking = false ∧ S.Idle s ∧ S.Answer s := by
  cases h with
  | quiet _ silent => exact absurd hdone (by rw [silent]; decide)
  | asked _ silent => exact absurd hdone (by rw [silent]; decide)
  | engaged hengaged =>
      cases hengaged with
      | working _ silent => exact absurd hdone (by rw [silent]; decide)
      | answered idle _ answer => exact ⟨rfl, rfl, idle, answer⟩

/-- Whoever does not wait finds the server idle. -/
theorem of_not_waiting (h : S.Linked s false asking) :
    asking = false ∧ S.Idle s ∧ S.done s = false := by
  cases h with
  | quiet idle silent => exact ⟨rfl, idle, silent⟩

/-- What a server shows at rest and at work it shows always. -/
theorem always {P : Prop} (h : S.Linked s waiting asking) (hidle : S.Idle s → P)
    (hbusy : S.Busy s → P) : P := by
  cases h with
  | quiet idle _ => exact hidle idle
  | asked idle _ => exact hidle idle
  | engaged hengaged =>
      cases hengaged with
      | working busy _ => exact hbusy busy
      | answered idle _ _ => exact hidle idle

end Server.Linked

/-! ### Progress -/

/-- Every request is answered, as long as the inputs are `ok`. -/
def Server.Live (S : Server ι σ) (ok : σ → ι → Prop) : Prop :=
  ∀ (inputs : ℕ → ι) (s : σ), S.Idle s → S.start (inputs 0) = true →
    (∀ k, ok (Clocked.run S.step inputs s k) (inputs k)) →
      ∃ n, (∀ m < n, S.done (Clocked.run S.step inputs s (m + 1)) = false) ∧
        S.done (Clocked.run S.step inputs s (n + 1)) = true

/-- A server whose work comes closer to its end in every cycle. -/
theorem Server.live_of_measure {ok : σ → ι → Prop} {working : σ → Prop} (measure : σ → ℕ)
    (hsilent : ∀ s, working s → S.done s = false)
    (haccept : ∀ i s, S.Idle s → S.start i = true → ok s i →
      S.done (S.step i s) = true ∨ working (S.step i s))
    (hwork : ∀ i s, working s → ok s i →
      S.done (S.step i s) = true ∨ working (S.step i s) ∧ measure (S.step i s) < measure s) :
    S.Live ok := by
  intro inputs s hidle hstart hok
  rcases haccept (inputs 0) s hidle hstart (hok 0) with hdone | hbusy
  · exact ⟨0, fun m hm => absurd hm (Nat.not_lt_zero m), hdone⟩
  · obtain ⟨n, hdone, hbefore⟩ := @Clocked.exists_goal ℕ _ _
      (fun k => working (Clocked.run S.step inputs s k))
      (fun k => S.done (Clocked.run S.step inputs s k) = true)
      (fun k => measure (Clocked.run S.step inputs s k))
      (fun k hk => hwork (inputs k) _ hk (hok k)) 1 hbusy
    refine ⟨n + 1, ?_, by rwa [show n + 1 + 1 = 1 + n + 1 by omega]⟩
    intro m hm
    rw [Nat.add_comm m 1]
    exact hsilent _ (hbefore m (by omega))

/-- A request to a server that is part of a larger machine. -/
theorem Server.Live.of_part {ok : σ → ι → Prop} (h : S.Live ok) {κ τ : Type*} {whole : κ → τ → τ}
    {part : τ → σ} {port : κ → τ → ι} (hpart : ∀ i t, part (whole i t) = S.step (port i t) (part t))
    (outer : ℕ → κ) (t : τ) (hidle : S.Idle (part t)) (hstart : S.start (port (outer 0) t) = true)
    (hok : ∀ k, ok (part (Clocked.run whole outer t k))
      (port (outer k) (Clocked.run whole outer t k))) :
    ∃ n, (∀ m < n, S.done (part (Clocked.run whole outer t (m + 1))) = false) ∧
      S.done (part (Clocked.run whole outer t (n + 1))) = true := by
  have hrun := Clocked.run_part hpart outer t
  simp only [hrun] at hok ⊢
  refine h _ _ hidle hstart ?_
  intro k
  have hk := hok k
  rw [← hrun] at hk ⊢
  exact hk

/-! ### Counting servers -/

/-- A server that shows by `busy` whether it works on a request. -/
def busyServer (step : ι → σ → σ) (start : ι → Bool) (done busy : σ → Bool) : Server ι σ where
  step := step
  start := start
  done := done
  Idle := fun s => busy s = false
  Busy := fun s => busy s = true
  Answer := fun _ => True

/-- Once started it counts down and answers. -/
structure Counts (step : ι → σ → σ) (start : ι → Bool) (done busy : σ → Bool)
    (measure : σ → ℕ) : Prop where
  rest : ∀ i s, busy s = false → busy (step i s) = start i ∧ done (step i s) = false
  work : ∀ i s, busy s = true →
    busy (step i s) = false ∧ done (step i s) = true ∨
      (busy (step i s) = true ∧ done (step i s) = false) ∧ measure (step i s) < measure s

namespace Counts

variable {step : ι → σ → σ} {start : ι → Bool} {done busy : σ → Bool} {measure : σ → ℕ}

theorem sound (h : Counts step start done busy measure) :
    (busyServer step start done busy).Sound where
  rest := by
    intro i s hidle hstart
    obtain ⟨hbusy, hsilent⟩ := h.rest i s hidle
    exact ⟨hbusy.trans hstart, hsilent⟩
  accept := by
    intro i s hidle hstart
    obtain ⟨hbusy, hsilent⟩ := h.rest i s hidle
    exact .working (hbusy.trans hstart) hsilent
  work := by
    intro i s hbusy _
    rcases h.work i s hbusy with ⟨hidle, hdone⟩ | ⟨⟨hbusy', hsilent⟩, -⟩
    · exact .answered hidle hdone trivial
    · exact .working hbusy' hsilent

theorem live (h : Counts step start done busy measure) :
    (busyServer step start done busy).Live fun _ _ => True := by
  refine @Server.live_of_measure ι σ _ _ (fun s => busy s = true ∧ done s = false) measure
    (fun s hs => hs.2) ?_ ?_
  · intro i s hidle hstart _
    obtain ⟨hbusy, hsilent⟩ := h.rest i s hidle
    exact .inr ⟨hbusy.trans hstart, hsilent⟩
  · intro i s hs _
    exact (h.work i s hs.1).imp_left And.right

end Counts

end Handshake
