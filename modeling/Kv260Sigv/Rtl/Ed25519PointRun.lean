import Kv260Sigv.Rtl.Ed25519PointCore
import Mathlib.Logic.Function.Iterate

/-!
# Runs of the point core

The sequencer is a patient client of its multiplier, whatever it computes
(`State.Sound`).  Seen from outside the multiplications take no time: `advance` goes from
a step of the sequencer straight to the next one, with the product there, and `reaches_iterate`
says that the clocked core gets wherever `advance` does.
-/

set_option autoImplicit false

namespace Kv260Sigv

namespace Ed25519PointCore

open Clocked Handshake

variable {M : Multiplier} {mul : BitVec 255 → BitVec 255 → BitVec 255}

/-! ### The client of the multiplier -/

/-- The steps that wait for `fe_done`. -/
def Step.waits : Step → Bool
  | .add2 | .add4 | .add5 | .add6 | .add7 | .add12 | .add13 | .add14 | .add15
  | .dbl1 | .dbl2 | .dbl3 | .dbl5 | .dbl12 | .dbl13 | .dbl14 | .dbl15
  | .dec1 | .dec2 | .dec3 | .dec4 | .dec5 | .dec6 | .dec7 | .dec9 | .dec10 | .dec11 | .dec12
  | .dec14 | .powWait => true
  | _ => false

@[simp] theorem Regs.rest_step (r : Regs) : r.rest.step = r.step := rfl
@[simp] theorem Regs.rest_feStart (r : Regs) : r.rest.feStart = false := rfl
@[simp] theorem Regs.rest_done (r : Regs) : r.rest.done = false := rfl
@[simp] theorem Regs.rest_busy (r : Regs) : r.rest.busy = r.busy := rfl
@[simp] theorem Regs.rest_t0 (r : Regs) : r.rest.t0 = r.t0 := rfl
@[simp] theorem Regs.rest_out (r : Regs) : r.rest.out = r.out := rfl

theorem powDispatch_step (r n : Regs) :
    (powDispatch r n).step = .powWait ∧ (powDispatch r n).feStart = true := by
  simp only [powDispatch]
  split <;> (try split) <;> (try split) <;> exact ⟨rfl, rfl⟩

theorem powStore_step (v : BitVec 255) (r n : Regs) :
    ((powStore v r n).step = .powDispatch ∨ (powStore v r n).step = .dec8) ∧
      (powStore v r n).feStart = n.feStart := by
  simp only [powStore, nextPowPhase]
  cases r.powStoreSel <;> split <;> (try split) <;> exact ⟨by simp, rfl⟩

theorem powDispatch_keeps (r n : Regs) : (powDispatch r n).busy = n.busy ∧
    (powDispatch r n).done = n.done ∧ (powDispatch r n).t0 = n.t0 ∧
      (powDispatch r n).out = n.out := by
  simp only [powDispatch]
  split <;> (try split) <;> (try split) <;> exact ⟨rfl, rfl, rfl, rfl⟩

theorem powStore_keeps (v : BitVec 255) (r n : Regs) : (powStore v r n).busy = n.busy ∧
    (powStore v r n).done = n.done ∧ (powStore v r n).t0 = n.t0 ∧
      (powStore v r n).out = n.out := by
  simp only [powStore, nextPowPhase]
  cases r.powStoreSel <;> split <;> (try split) <;> exact ⟨rfl, rfl, rfl, rfl⟩

/-- The sequencer waits for every product it asks for. -/
theorem stepBusy_patient (f : Bool) (v : BitVec 255) (r : Regs) :
    Patient f r.step.waits (stepBusy f v r r.rest).step.waits (stepBusy f v r r.rest).feStart := by
  have hdispatch := powDispatch_step r r.rest
  have hstore := powStore_step v r r.rest
  unfold stepBusy
  -- a case for each step, with and without the product
  split <;> rename_i h <;> cases f <;> simp only [h] <;> (repeat' split) <;>
    simp_all [issue, Patient, Step.waits]
  all_goals
    rcases hstore.1 with hstep | hstep <;> rw [hstep]

/-- Only the last step ends the work, with `done`. -/
theorem stepBusy_control (f : Bool) (v : BitVec 255) (r : Regs) (hbusy : r.busy = true)
    (hstep : r.step ≠ .idle) :
    (stepBusy f v r r.rest).done = decide (r.step = .done) ∧
      (stepBusy f v r r.rest).busy = decide (r.step ≠ .done) ∧
      ((stepBusy f v r r.rest).step = .idle ↔ r.step = .done) := by
  have hdispatch := powDispatch_step r r.rest
  have hstore := powStore_step v r r.rest
  have hdispatch' := powDispatch_keeps r r.rest
  have hstore' := powStore_keeps v r r.rest
  unfold stepBusy
  split <;> rename_i h <;> cases f <;> simp only [h] <;> (repeat' split) <;>
    simp_all [issue]
  all_goals
    rcases hstore.1 with hstep | hstep <;> rw [hstep] <;> simp

/-- Where `t0` and the outputs come from. -/
theorem stepBusy_values {C : BitVec 255 → Prop} (f : Bool) (v : BitVec 255) (r : Regs)
    (hv : r.step.waits = true → f = true → C v) (h0 : C 0) (h1 : C 1) (ht : C r.t0)
    (hy : C r.out.y) (hz : C r.out.z) :
    C (stepBusy f v r r.rest).t0 ∧ C (stepBusy f v r r.rest).out.y ∧
      C (stepBusy f v r r.rest).out.z := by
  obtain ⟨-, -, hdt, hdo⟩ := powDispatch_keeps r r.rest
  obtain ⟨-, -, hst, hso⟩ := powStore_keeps v r r.rest
  unfold stepBusy
  rw [Regs.rest_t0] at hdt hst
  rw [Regs.rest_out] at hdo hso
  split <;> rename_i h <;> rw [h] at hv <;> cases f <;> (repeat' split) <;>
    refine ⟨?_, ?_, ?_⟩ <;>
    first
    | exact ht
    | exact hy
    | exact hz
    | exact h0
    | exact h1
    | exact hv rfl rfl
    | contradiction
    | (simp only [hdt, hdo, hst, hso]; assumption)

/-- A request begins with the sequencer away from `STEP_IDLE`, and with a multiplication
when it is a decompression. -/
theorem load_control (i : Inputs) (n : Regs) (hstart : n.feStart = false) :
    (load i n).busy = true ∧ (load i n).done = n.done ∧ (load i n).step ≠ .idle ∧
      (load i n).feStart = (load i n).step.waits := by
  unfold load
  split
  · exact ⟨rfl, rfl, by simp, hstart⟩
  · split
    · exact ⟨rfl, rfl, by simp, hstart⟩
    · split
      · exact ⟨rfl, rfl, by simp [issue], rfl⟩
      · exact ⟨rfl, rfl, by simp, hstart⟩

theorem load_values {C : BitVec 255 → Prop} (i : Inputs) (n : Regs)
    (he : C (encodedYCanonical i.encodedPoint)) (ht : C n.t0) :
    C (load i n).t0 ∧ (load i n).out = zeroPoint := by
  unfold load
  split
  · exact ⟨ht, rfl⟩
  · split
    · exact ⟨ht, rfl⟩
    · split
      · exact ⟨he, rfl⟩
      · exact ⟨ht, rfl⟩

/-! ### The invariant -/

theorem canonical_encodedYCanonical (e : BitVec 256) : Canonical (encodedYCanonical e) := by
  have hp : fieldP = 2 ^ 255 - 19 := rfl
  have hy : (e.setWidth 255).toNat < 2 ^ 255 := BitVec.isLt _
  rw [Canonical, encodedYCanonical]
  split
  · next h =>
      rw [Fe25519AuxCore.needsReduce_iff] at h
      rw [BitVec.toNat_setWidth, BitVec.toNat_add, BitVec.toNat_setWidth]
      show ((e.setWidth 255).toNat % 2 ^ 256 + 19) % 2 ^ 256 % 2 ^ 255 < _
      omega
  · next h =>
      rw [Fe25519AuxCore.needsReduce_iff] at h
      omega

/-- What holds in every state of the core. -/
structure State.Sound (mul : BitVec 255 → BitVec 255 → BitVec 255) (s : State M) : Prop where
  link : (M.server mul).Linked s.feCore s.regs.step.waits s.regs.feStart
  busy : s.regs.busy = decide (s.regs.step ≠ .idle)
  done : s.regs.done = true → s.regs.step = .idle
  t0 : Canonical s.regs.t0
  outY : Canonical s.regs.out.y
  outZ : Canonical s.regs.out.z

theorem canonical_zero : Canonical 0 := by decide

theorem canonical_one : Canonical 1 := by decide

theorem State.Sound.of_reset (h : M.Computes mul) (s : State M) : (reset s).Sound mul where
  link := .quiet (h.idle_reset s.feCore).1 (h.idle_reset s.feCore).2
  busy := rfl
  done := fun hdone => by cases hdone
  t0 := canonical_zero
  outY := canonical_zero
  outZ := canonical_zero

theorem State.Sound.busy_of_idle {s : State M} (hs : s.Sound mul) (hidle : s.regs.step = .idle) :
    s.regs.busy = false := by
  rw [hs.busy, hidle]
  rfl

theorem State.Sound.busy_of_step {s : State M} (hs : s.Sound mul) (hstep : s.regs.step ≠ .idle) :
    s.regs.busy = true := by
  rw [hs.busy]
  exact decide_eq_true hstep

/-! The three kinds of cycles. -/

theorem step_rest {i : Inputs} {s : State M} (hbusy : s.regs.busy = false)
    (hstart : i.start = false) : (step i s).regs = s.regs.rest := by
  simp [step, Regs.clock, hbusy, hstart]

theorem step_load {i : Inputs} {s : State M} (hbusy : s.regs.busy = false)
    (hstart : i.start = true) : (step i s).regs = load i s.regs.rest := by
  simp [step, Regs.clock, hbusy, hstart]

theorem step_work (i : Inputs) {s : State M} (hbusy : s.regs.busy = true) :
    (step i s).regs = stepBusy (M.done s.feCore) (M.result s.feCore) s.regs s.regs.rest := by
  simp [step, Regs.clock, hbusy]

/-- What a cycle has to show for the invariant: the link is kept by any patient one. -/
theorem State.Sound.step_of (h : M.Computes mul) {i : Inputs} {s : State M} (hs : s.Sound mul)
    {r : Regs} (hregs : (Ed25519PointCore.step i s).regs = r)
    (hclient : Patient (M.done s.feCore) s.regs.step.waits r.step.waits r.feStart)
    (hbusy : r.busy = decide (r.step ≠ .idle)) (hdone : r.done = true → r.step = .idle)
    (ht : Canonical r.t0) (hy : Canonical r.out.y) (hz : Canonical r.out.z) :
    (Ed25519PointCore.step i s).Sound mul := by
  subst hregs
  exact ⟨hs.link.step h.sound rfl hclient, hbusy, hdone, ht, hy, hz⟩

/-- A product is canonical. -/
theorem State.Sound.canonical_result (hreg : Regular mul) {s : State M} (hs : s.Sound mul)
    (hdone : M.done s.feCore = true) : Canonical (M.result s.feCore) := by
  obtain ⟨-, -, -, a, b, hresult⟩ := hs.link.of_done hdone
  rw [hresult]
  exact hreg.canonical a b

/-- One cycle, whatever the inputs. -/
theorem State.Sound.step (h : M.Computes mul) (hreg : Regular mul) (i : Inputs) {s : State M}
    (hs : s.Sound mul) : (step i s).Sound mul := by
  by_cases hidle : s.regs.step = .idle
  · have hbusy := hs.busy_of_idle hidle
    have hquiet : s.regs.step.waits = false := by rw [hidle]; rfl
    cases hstart : i.start with
    | false =>
        refine hs.step_of h (step_rest hbusy hstart) ?_ hs.busy ?_ hs.t0 hs.outY hs.outZ
        · rw [Regs.rest_step, hquiet]
          rfl
        · intro _
          exact hidle
    | true =>
        obtain ⟨hb, hd, hstep, hask⟩ := load_control i s.regs.rest rfl
        obtain ⟨ht, hout⟩ := load_values i s.regs.rest
          (canonical_encodedYCanonical i.encodedPoint) hs.t0
        have hzero : Canonical (load i s.regs.rest).out.y ∧
            Canonical (load i s.regs.rest).out.z := by
          rw [hout]
          exact ⟨canonical_zero, canonical_zero⟩
        refine hs.step_of h (step_load hbusy hstart) ?_ ?_ ?_ ht hzero.1 hzero.2
        · rw [hquiet]
          exact hask
        · rw [hb, decide_eq_true hstep]
        · intro hdone
          rw [hd] at hdone
          cases hdone
  · have hbusy := hs.busy_of_step hidle
    have hvalue : s.regs.step.waits = true → M.done s.feCore = true →
        Canonical (M.result s.feCore) := fun _ hdone => hs.canonical_result hreg hdone
    obtain ⟨hd, hb, hend⟩ :=
      stepBusy_control (M.done s.feCore) (M.result s.feCore) s.regs hbusy hidle
    obtain ⟨ht, hy, hz⟩ := stepBusy_values (M.done s.feCore) (M.result s.feCore) s.regs hvalue
      canonical_zero canonical_one hs.t0 hs.outY hs.outZ
    refine hs.step_of h (step_work i hbusy) (stepBusy_patient _ _ _) ?_ ?_ ht hy hz
    · rw [hb]
      exact decide_eq_decide.mpr (not_congr hend).symm
    · intro hdone
      rw [hd, decide_eq_true_eq] at hdone
      exact hend.mpr hdone

/-! ### The core as a server -/

/-- The point core with the ports its controller sees. -/
def pointServer (M : Multiplier) (mul : BitVec 255 → BitVec 255 → BitVec 255) :
    Server Inputs (State M) where
  step := step
  start := Inputs.start
  done := fun s => s.regs.done
  Idle := fun s => s.Sound mul ∧ s.regs.step = .idle
  Busy := fun s => s.Sound mul ∧ s.regs.step ≠ .idle
  Answer := fun s => Canonical s.regs.out.y ∧ Canonical s.regs.out.z

theorem sound_pointServer (h : M.Computes mul) (hreg : Regular mul) :
    (pointServer M mul).Sound where
  rest := by
    rintro i s ⟨hs, hidle⟩ hstart
    have hregs := step_rest (hs.busy_of_idle hidle) hstart
    refine ⟨⟨hs.step h hreg i, ?_⟩, ?_⟩
    · show (step i s).regs.step = .idle
      rw [hregs]
      exact hidle
    · show (step i s).regs.done = false
      rw [hregs]
      rfl
  accept := by
    rintro i s ⟨hs, hidle⟩ hstart
    have hregs := step_load (hs.busy_of_idle hidle) hstart
    obtain ⟨-, hd, hstep, -⟩ := load_control i s.regs.rest rfl
    rw [← hregs] at hd hstep
    exact .working ⟨hs.step h hreg i, hstep⟩ hd
  work := by
    rintro i s ⟨hs, hstep⟩ _
    have hbusy := hs.busy_of_step hstep
    have hs' := hs.step h hreg i
    obtain ⟨hd, -, hend⟩ :=
      stepBusy_control (M.done s.feCore) (M.result s.feCore) s.regs hbusy hstep
    rw [← step_work i hbusy] at hd hend
    by_cases hlast : s.regs.step = .done
    · exact .answered ⟨hs', hend.mpr hlast⟩ (hd.trans (decide_eq_true hlast)) ⟨hs'.outY, hs'.outZ⟩
    · exact .working ⟨hs', fun hidle => hlast (hend.mp hidle)⟩ (hd.trans (decide_eq_false hlast))

/-- In every run out of reset the core is sound. -/
theorem sound_run (h : M.Computes mul) (hreg : Regular mul) (inputs : ℕ → Inputs) (s : State M)
    (n : ℕ) : (run step inputs (reset s) n).Sound mul :=
  run_invariant (fun i _ hs => hs.step h hreg i) (.of_reset h s) n

theorem State.Sound.step_eq_idle {s : State M} (hs : s.Sound mul) (hbusy : s.regs.busy = false) :
    s.regs.step = .idle := by
  by_contra hne
  rw [hs.busy_of_step hne] at hbusy
  cases hbusy

/-! ### Multiplications that take no time -/

/-- A step of the sequencer, with the product it waits for. -/
def Regs.advance (mul : BitVec 255 → BitVec 255 → BitVec 255) (r : Regs) : Regs :=
  if r.step.waits then stepBusy true (mul r.feA r.feB) r.rest r.rest
  else stepBusy false 0 r r.rest

/-- Steps up to `STEP_DONE`, at most `n`. -/
def Regs.finish (mul : BitVec 255 → BitVec 255 → BitVec 255) : ℕ → Regs → Regs
  | 0, r => r
  | n + 1, r => if r.step = .done then r else finish mul n (r.advance mul)

/-- At work, between two steps. -/
structure Regs.Running (r : Regs) : Prop where
  busy : r.busy = true
  step : r.step ≠ .idle
  asks : r.feStart = r.step.waits
  silent : r.done = false

/-- The sequencer at the beginning of a step. -/
structure At (r : Regs) (s : State M) : Prop where
  regs : s.regs = r
  idle : M.Idle s.feCore
  silent : M.done s.feCore = false

/-- `done` is low. -/
def NotDone (s : State M) : Prop := s.regs.done = false

theorem stepBusy_waiting {r : Regs} (h : r.step.waits = true) (v : BitVec 255) (n : Regs) :
    stepBusy false v r n = n := by
  cases hstep : r.step <;> simp_all [stepBusy, Step.waits]

/-- Only a step that waits looks at the product. -/
theorem stepBusy_of_not_waits {r : Regs} (h : r.step.waits = false) (f : Bool) (v : BitVec 255)
    (n : Regs) : stepBusy f v r n = stepBusy false 0 r n := by
  cases hstep : r.step <;> simp_all [stepBusy, Step.waits, auxResult, auxMux]

theorem Regs.Running.advance {r : Regs} (h : r.Running) (hlast : r.step ≠ .done) :
    (r.advance mul).Running := by
  unfold Regs.advance
  split
  · next hwaits =>
      have hpatient := stepBusy_patient true (mul r.feA r.feB) r.rest
      obtain ⟨hd, hb, hend⟩ := stepBusy_control true (mul r.feA r.feB) r.rest h.busy h.step
      rw [Regs.rest_step] at hd hb hend hpatient
      rw [Patient, hwaits] at hpatient
      exact ⟨hb.trans (decide_eq_true hlast), fun hidle => hlast (hend.mp hidle), hpatient,
        hd.trans (decide_eq_false hlast)⟩
  · next hwaits =>
      have hpatient := stepBusy_patient false 0 r
      obtain ⟨hd, hb, hend⟩ := stepBusy_control false 0 r h.busy h.step
      rw [Bool.not_eq_true] at hwaits
      rw [Patient, hwaits] at hpatient
      exact ⟨hb.trans (decide_eq_true hlast), fun hidle => hlast (hend.mp hidle), hpatient,
        hd.trans (decide_eq_false hlast)⟩

/-- A step without a product takes a cycle. -/
theorem leads_advance (h : M.Computes mul) {r : Regs} (hr : r.Running)
    (hwaits : r.step.waits = false) :
    Leads (@step M) NotDone 1 (At r) (At (r.advance mul)) := by
  refine Leads.single ?_
  rintro i s ⟨rfl, hidle, hsilent⟩
  have hstart : s.regs.feStart = false := hr.asks.trans hwaits
  obtain ⟨hidle', hsilent'⟩ :=
    h.rest ⟨s.regs.feStart, s.regs.feA, s.regs.feB⟩ s.feCore hidle hstart
  refine ⟨?_, hidle', hsilent'⟩
  rw [Regs.advance, if_neg (by rw [hwaits]; exact Bool.false_ne_true), step_work i hr.busy]
  exact stepBusy_of_not_waits hwaits _ _ _

/-- A step that waits takes as long as its product. -/
theorem reaches_product (h : M.Computes mul) {r : Regs} (hr : r.Running)
    (hwaits : r.step.waits = true) :
    Reaches (@step M) NotDone (At r) (At (r.advance mul)) := by
  rintro inputs s ⟨rfl, hidle, hsilent⟩
  let feInputs : ℕ → MulInputs := fun k =>
    let regs := (run step inputs s k).regs
    ⟨regs.feStart, regs.feA, regs.feB⟩
  have hcore : ∀ k, (run step inputs s k).feCore = run M.step feInputs s.feCore k := by
    intro k
    induction k with
    | zero => rfl
    | succ k ih => rw [run_succ, run_succ, ← ih]; rfl
  obtain ⟨n, hbefore, hdone, hrest, hresult⟩ :=
    h.multiply feInputs s.feCore hidle (hr.asks.trans hwaits)
  -- until the product is there every cycle only clears the ports
  have hregs : ∀ k ≤ n, (run step inputs s (k + 1)).regs = s.regs.rest := by
    intro k
    induction k with
    | zero =>
        intro _
        rw [run_succ, run_zero, step_work _ hr.busy, hsilent, stepBusy_waiting hwaits]
    | succ k ih =>
        intro hk
        have hprev := ih (by omega)
        have hsilent' : M.done (run step inputs s (k + 1)).feCore = false := by
          rw [hcore]
          exact hbefore k (by omega)
        rw [run_succ, step_work _ (by rw [hprev]; exact hr.busy), hsilent', hprev,
          stepBusy_waiting (by rw [Regs.rest_step]; exact hwaits)]
        rfl
  have hlast := hregs n le_rfl
  refine ⟨n + 2, ⟨?_, ?_, ?_⟩, ?_⟩
  · rw [run_succ, step_work _ (by rw [hlast]; exact hr.busy), hlast, hcore, hdone, hresult,
      Regs.advance, if_pos hwaits]
    rfl
  · rw [hcore]
    refine (h.rest _ _ hrest ?_).1
    show (run step inputs s (n + 1)).regs.feStart = false
    rw [hlast]
    rfl
  · rw [hcore]
    refine (h.rest _ _ hrest ?_).2
    show (run step inputs s (n + 1)).regs.feStart = false
    rw [hlast]
    rfl
  · intro m hpos hlt
    obtain ⟨k, rfl⟩ : ∃ k, m = k + 1 := ⟨m - 1, by omega⟩
    show (run step inputs s (k + 1)).regs.done = false
    rw [hregs k (by omega)]
    rfl

theorem reaches_advance (h : M.Computes mul) {r : Regs} (hr : r.Running) :
    Reaches (@step M) NotDone (At r) (At (r.advance mul)) := by
  cases hwaits : r.step.waits with
  | false => exact (leads_advance h hr hwaits).reaches
  | true => exact reaches_product h hr hwaits

/-- The clocked core gets as far as the one with a multiplier that takes no time. -/
theorem reaches_finish (h : M.Computes mul) (n : ℕ) {r : Regs} (hr : r.Running) :
    Reaches (@step M) NotDone (At r) (At (r.finish mul n)) ∧ (r.finish mul n).Running := by
  induction n generalizing r with
  | zero => exact ⟨.refl, hr⟩
  | succ n ih =>
      rw [Regs.finish]
      split
      · exact ⟨.refl, hr⟩
      · next hlast =>
          obtain ⟨hreaches, hrunning⟩ := ih (hr.advance hlast)
          refine ⟨(reaches_advance h hr).trans ?_ hreaches, hrunning⟩
          intro s hs
          rw [NotDone, hs.regs]
          exact (hr.advance hlast).silent

/-- The steps lead from `r` to `r'`. -/
def Regs.LeadsTo (mul : BitVec 255 → BitVec 255 → BitVec 255) (r r' : Regs) : Prop :=
  ∃ m, ∀ k, r.finish mul (m + k) = r'.finish mul k

theorem Regs.LeadsTo.refl (r : Regs) : r.LeadsTo mul r :=
  ⟨0, fun k => by rw [Nat.zero_add]⟩

theorem Regs.LeadsTo.trans {r r' r'' : Regs} (h : r.LeadsTo mul r') (h' : r'.LeadsTo mul r'') :
    r.LeadsTo mul r'' := by
  obtain ⟨m, h⟩ := h
  obtain ⟨n, h'⟩ := h'
  exact ⟨m + n, fun k => by rw [Nat.add_assoc, h, h']⟩

theorem Regs.leadsTo_advance {r : Regs} (h : r.step ≠ .done) : r.LeadsTo mul (r.advance mul) :=
  ⟨1, fun k => by rw [Nat.add_comm, Regs.finish, if_neg h]⟩

/-- At `STEP_DONE` there is nothing left to do. -/
theorem Regs.finish_of_done {r : Regs} (h : r.step = .done) (n : ℕ) : r.finish mul n = r := by
  cases n with
  | zero => rfl
  | succ n => rw [Regs.finish, if_pos h]

theorem Regs.leadsTo_finish (r : Regs) (n : ℕ) : r.LeadsTo mul (r.finish mul n) := by
  induction n generalizing r with
  | zero => exact .refl r
  | succ n ih =>
      rw [Regs.finish]
      split
      · exact .refl r
      · next h => exact (leadsTo_advance h).trans (ih _)

theorem Regs.LeadsTo.exists_finish {r r' : Regs} (h : r.LeadsTo mul r') (hdone : r'.step = .done) :
    ∃ n, r.finish mul n = r' := by
  obtain ⟨m, h⟩ := h
  exact ⟨m, (h 0).trans (finish_of_done hdone 0)⟩

/-- Once the steps lead to `STEP_DONE`, `done` comes with what they left. -/
theorem run_finish (h : M.Computes mul) (n : ℕ) {inputs : ℕ → Inputs} {r : Regs} {s : State M}
    (hs : At r s) (hr : r.Running) (hlast : (r.finish mul n).step = .done) :
    ∃ k, (∀ m ≤ k, (run step inputs s m).regs.done = false) ∧
      (run step inputs s (k + 1)).regs =
        { (r.finish mul n).rest with
          busy := false
          done := true
          step := .idle } := by
  obtain ⟨hreaches, hrunning⟩ := reaches_finish h n hr
  obtain ⟨k, hend, hbefore⟩ := hreaches inputs s hs
  refine ⟨k, ?_, ?_⟩
  · intro m hm
    rcases Nat.eq_zero_or_pos m with rfl | hpos
    · rw [run_zero, hs.regs]
      exact hr.silent
    · rcases Nat.lt_or_ge m k with hlt | hge
      · exact hbefore m hpos hlt
      · rw [show m = k by omega, hend.regs]
        exact hrunning.silent
  · rw [run_succ]
    generalize run step inputs s k = s' at hend
    simp only [step, Regs.clock, hend.regs, hrunning.busy, Bool.not_true, Bool.false_eq_true,
      if_false, stepBusy, hlast]

/-- `done` comes with these values of `flag` and of the outputs. -/
def Ends (inputs : ℕ → Inputs) (s : State M) (flag : Bool) (out : ExtPoint) : Prop :=
  ∃ k, (∀ m ≤ k, (run step inputs s m).regs.done = false) ∧
    (run step inputs s (k + 1)).regs.done = true ∧
      (run step inputs s (k + 1)).regs.flag = flag ∧ (run step inputs s (k + 1)).regs.out = out

theorem ends_of_finish (h : M.Computes mul) (n : ℕ) {inputs : ℕ → Inputs} {r : Regs}
    {s : State M} (hs : At r s) (hr : r.Running) (hlast : (r.finish mul n).step = .done) :
    Ends inputs s (r.finish mul n).flag (r.finish mul n).out := by
  obtain ⟨k, hbefore, hend⟩ := @run_finish M mul h n inputs r s hs hr hlast
  refine ⟨k, hbefore, ?_, ?_, ?_⟩
  · rw [hend]
  · rw [hend]
    rfl
  · rw [hend]
    rfl

/-- A request sets the sequencer to work. -/
theorem at_load (h : M.Computes mul) {i : Inputs} {s : State M} (hs : s.Sound mul)
    (hidle : s.regs.step = .idle) (hstart : i.start = true) :
    At (load i s.regs.rest) (step i s) ∧ (load i s.regs.rest).Running := by
  have hlink := hs.link
  rw [hidle] at hlink
  obtain ⟨hask, hcore, -⟩ := hlink.of_not_waiting
  obtain ⟨hb, hd, hstep, hasks⟩ := load_control i s.regs.rest rfl
  obtain ⟨hcore', hsilent'⟩ :=
    h.rest ⟨s.regs.feStart, s.regs.feA, s.regs.feB⟩ s.feCore hcore hask
  exact ⟨⟨step_load (hs.busy_of_idle hidle) hstart, hcore', hsilent'⟩, hb, hstep, hasks, hd⟩

/-- A whole request. -/
theorem run_request (h : M.Computes mul) (n : ℕ) {inputs : ℕ → Inputs} {s : State M}
    (hs : s.Sound mul) (hidle : s.regs.step = .idle) (hstart : (inputs 0).start = true)
    (hlast : ((load (inputs 0) s.regs.rest).finish mul n).step = .done) :
    ∃ k, (∀ m < k, (run step inputs s (m + 1)).regs.done = false) ∧
      (run step inputs s (k + 1)).regs =
        { ((load (inputs 0) s.regs.rest).finish mul n).rest with
          busy := false
          done := true
          step := .idle } := by
  obtain ⟨hload, hrunning⟩ := at_load h hs hidle hstart
  obtain ⟨k, hbefore, hend⟩ :=
    @run_finish M mul h n (fun k => inputs (k + 1)) _ _ hload hrunning hlast
  have hrun : ∀ m, run step (fun k => inputs (k + 1)) (step (inputs 0) s) m =
      run step inputs s (m + 1) := fun m => (run_succ' m).symm
  refine ⟨k + 1, ?_, ?_⟩
  · intro m hm
    rw [← hrun]
    exact hbefore m (Nat.le_of_lt_succ hm)
  · rw [← hrun]
    exact hend

/-- The steps of a request come to `STEP_DONE` with this output. -/
def Answers (mul : BitVec 255 → BitVec 255 → BitVec 255) (i : Inputs) (out : ExtPoint) : Prop :=
  ∀ n, ∃ k, ((load i n).finish mul k).step = .done ∧ ((load i n).finish mul k).out = out

/-- A request is answered. -/
theorem run_answers (h : M.Computes mul) {inputs : ℕ → Inputs} {s : State M} (hs : s.Sound mul)
    (hidle : s.regs.step = .idle) (hstart : (inputs 0).start = true) {out : ExtPoint}
    (hanswers : Answers mul (inputs 0) out) :
    ∃ k, (∀ m < k, (run step inputs s (m + 1)).regs.done = false) ∧
      (run step inputs s (k + 1)).regs.done = true ∧
      (run step inputs s (k + 1)).regs.out = out := by
  obtain ⟨n, hlast, hout⟩ := hanswers s.regs.rest
  obtain ⟨k, hbefore, hend⟩ := run_request h n hs hidle hstart hlast
  exact ⟨k, hbefore, by rw [hend], by rw [hend]; exact hout⟩

/-! ### Doubling -/

/-- What `OP_DOUBLE` computes. -/
def doubled (mul : BitVec 255 → BitVec 255 → BitVec 255) (p : ExtPoint) : ExtPoint :=
  let a := mul p.x p.x
  let b := mul p.y p.y
  let c := Fe25519AuxCore.addModP (mul p.z p.z) (mul p.z p.z)
  let xy := Fe25519AuxCore.addModP p.x p.y
  let e := Fe25519AuxCore.subModP (Fe25519AuxCore.subModP (mul xy xy) a) b
  let g := Fe25519AuxCore.subModP b a
  let f := Fe25519AuxCore.subModP g c
  let h := Fe25519AuxCore.negModP (Fe25519AuxCore.addModP a b)
  ⟨mul e f, mul g h, mul f g, mul e h⟩

theorem auxPipeAddResult_eq (r : Regs) :
    auxPipeAddResult r = Fe25519AuxCore.addModP r.auxPipeA r.auxPipeB := rfl

/-- The steps `STEP_DBL_0 .. STEP_DBL_15`. -/
theorem finish_double {i : Inputs} (hop : i.op = opDouble) (n : Regs) :
    ((load i n).finish mul 18).step = .done ∧
      ((load i n).finish mul 18).out = doubled mul i.pointA := by
  have hload : load i n = { load i n with p := i.pointA, step := .dbl0 } := by
    simp [load, hop, opDouble, opAdd]
  rw [hload]
  simp only [Regs.finish, Regs.advance, stepBusy, Step.waits, issue, auxResult, auxMux, Regs.rest,
    Fe25519AuxCore.result, auxPipeAddResult_eq, reduceCtorEq, if_true, ite_cond_eq_false,
    Bool.false_eq_true, doubled, and_self]

theorem answers_double {i : Inputs} (hop : i.op = opDouble) :
    Answers mul i (doubled mul i.pointA) :=
  fun n => ⟨18, finish_double hop n⟩

/-- The neutral element, as the identity test looks at it: `0 : y : y : 0`. -/
structure NeutralForm (p : ExtPoint) : Prop where
  x : p.x = 0
  t : p.t = 0
  yz : p.y = p.z
  canonical : Canonical p.y

/-- Doubling keeps the form of the neutral element. -/
theorem NeutralForm.doubled (hreg : Regular mul) {p : ExtPoint} (hp : NeutralForm p) :
    NeutralForm (doubled mul p) := by
  -- with `b = y * y` the four factors are `e = 0`, `g = b` and `f = h = -b`
  have hpos : 0 < fieldP := by decide
  have hb := hreg.canonical p.y p.y
  have hsum : Fe25519AuxCore.addModP p.x p.y = p.y := by
    apply BitVec.eq_of_toNat_eq
    rw [hp.x, Fe25519AuxCore.toNat_addModP canonical_zero hp.canonical]
    exact (congrArg (· % fieldP) (Nat.zero_add _)).trans (Nat.mod_eq_of_lt hp.canonical)
  have ha : mul p.x p.x = 0 := by rw [hp.x, hreg.zero_mul]
  have hsub : Fe25519AuxCore.subModP (mul p.y p.y) 0 = mul p.y p.y := by
    apply BitVec.eq_of_toNat_eq
    rw [Fe25519AuxCore.toNat_subModP hb canonical_zero]
    exact (Nat.add_mod_right _ _).trans (Nat.mod_eq_of_lt hb)
  have hcancel : Fe25519AuxCore.subModP (mul p.y p.y) (mul p.y p.y) = 0 := by
    apply BitVec.eq_of_toNat_eq
    rw [Fe25519AuxCore.toNat_subModP hb hb]
    rw [Canonical] at hb
    rw [show (mul p.y p.y).toNat + (fieldP - (mul p.y p.y).toNat) = fieldP by omega, Nat.mod_self]
    rfl
  have hadd : Fe25519AuxCore.addModP 0 (mul p.y p.y) = mul p.y p.y := by
    apply BitVec.eq_of_toNat_eq
    rw [Fe25519AuxCore.toNat_addModP canonical_zero hb]
    exact (congrArg (· % fieldP) (Nat.zero_add _)).trans (Nat.mod_eq_of_lt hb)
  have hf : Fe25519AuxCore.subModP (mul p.y p.y)
        (Fe25519AuxCore.addModP (mul p.y p.y) (mul p.y p.y)) =
      Fe25519AuxCore.negModP (mul p.y p.y) := by
    have hc : Canonical (Fe25519AuxCore.addModP (mul p.y p.y) (mul p.y p.y)) := by
      rw [Canonical, Fe25519AuxCore.toNat_addModP hb hb]
      exact Nat.mod_lt _ hpos
    apply BitVec.eq_of_toNat_eq
    rw [Fe25519AuxCore.toNat_subModP hb hc, Fe25519AuxCore.toNat_negModP hb,
      Fe25519AuxCore.toNat_addModP hb hb]
    rw [Canonical] at hb
    generalize (mul p.y p.y).toNat = b at hb
    have hp : fieldP = 2 ^ 255 - 19 := rfl
    rw [hp] at hb ⊢
    omega
  simp only [Ed25519PointCore.doubled, ← hp.yz, hsum, ha, hsub, hcancel, hadd, hf]
  exact ⟨hreg.zero_mul _, hreg.zero_mul _, hreg.comm _ _, hreg.canonical _ _⟩

end Ed25519PointCore

end Kv260Sigv
