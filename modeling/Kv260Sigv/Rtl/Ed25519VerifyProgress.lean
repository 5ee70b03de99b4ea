import Kv260Sigv.Rtl.Ed25519PointProgress
import Kv260Sigv.Rtl.Sha512StreamProgress
import Kv260Sigv.Rtl.VerifyModes

/-!
# The verify engine cannot hang

The controller is a patient client of all four sub-engines (`InStep`), so that every start
finds its engine idle and every answer a controller that waits for it.  A state is left
once the answer is there, each sub-engine answers every start, and the `rank` is lower in
the next state.
-/

set_option autoImplicit false

namespace Kv260Sigv

namespace Ed25519VerifyEngine

open Clocked Handshake

variable {M : Multiplier} {w : ℕ} {mul : BitVec 255 → BitVec 255 → BitVec 255}

/-! ### The sub-engines -/

/-- `reduce_engine`. -/
def reduceServer : Server ScalarReduceModL.Inputs ScalarReduceModL.State :=
  busyServer ScalarReduceModL.step ScalarReduceModL.Inputs.start ScalarReduceModL.State.done
    ScalarReduceModL.State.busy

/-- `recode_engine`. -/
def recodeServer : Server ScalarWnaf4Recode.Inputs ScalarWnaf4Recode.State :=
  busyServer ScalarWnaf4Recode.step ScalarWnaf4Recode.Inputs.start ScalarWnaf4Recode.State.done
    ScalarWnaf4Recode.State.busy

/-- The controller and its sub-engines are in step. -/
structure State.InStep (mul : BitVec 255 → BitVec 255 → BitVec 255) (s : State M w) : Prop where
  point : s.Sound mul
  hash : (Sha512StreamEngine.hashServer w).Linked s.hashEngine (decide (s.state = .hashWait))
    s.hashStartReg
  reduce : reduceServer.Linked s.reduceEngine (decide (s.state = .reduceWait)) s.reduceStartReg
  recode : recodeServer.Linked s.recodeEngine s.state.recodeWaits s.recodeStartReg

theorem hash_patient (i : Inputs) (s : State M w) :
    Patient s.hashEngine.done (decide (s.state = .hashWait))
      (decide ((step i s).state = .hashWait)) (step i s).hashStartReg := by
  have hstart : (step i s).hashStartReg = decide (s.state = .hashStart) :=
    congrArg (fun starts => starts.2.1) (step_starts i s)
  rw [hstart]
  refine @step_patient_of M w i s (fun p => decide (p = .hashStart))
    (fun p => decide (p = .hashWait)) _ ?_ ?_ ?_ ?_
  · intro p
    cases p <;> decide
  · intro p
    cases p <;> decide
  · intro p
    cases p <;> decide
  · intro h
    exact waiting_of_hashWait (of_decide_eq_true h)

theorem reduce_patient (i : Inputs) (s : State M w) :
    Patient s.reduceEngine.done (decide (s.state = .reduceWait))
      (decide ((step i s).state = .reduceWait)) (step i s).reduceStartReg := by
  have hstart : (step i s).reduceStartReg = decide (s.state = .reduceStart) :=
    congrArg (fun starts => starts.2.2.1) (step_starts i s)
  rw [hstart]
  refine @step_patient_of M w i s (fun p => decide (p = .reduceStart))
    (fun p => decide (p = .reduceWait)) _ ?_ ?_ ?_ ?_
  · intro p
    cases p <;> decide
  · intro p
    cases p <;> decide
  · intro p
    cases p <;> decide
  · intro h
    exact waiting_of_reduceWait (of_decide_eq_true h)

theorem recode_patient (i : Inputs) (s : State M w) :
    Patient s.recodeEngine.done s.state.recodeWaits (step i s).state.recodeWaits
      (step i s).recodeStartReg := by
  have hstart : (step i s).recodeStartReg = s.state.recodeAsks :=
    congrArg (fun starts => starts.2.2.2) (step_starts i s)
  rw [hstart]
  refine step_patient_of i s ?_ ?_ ?_ waiting_of_recodeWaits
  · intro p
    cases p <;> decide
  · intro p
    cases p <;> decide
  · intro p
    cases p <;> decide

/-- One cycle. -/
theorem State.InStep.step (h : M.Computes mul) (hreg : Regular mul) (hlow : 2 ≤ w) (hhigh : w < 32)
    (i : Inputs) {s : State M w} (hs : s.InStep mul) :
    (Ed25519VerifyEngine.step i s).InStep mul where
  point := sound_step h hreg i hs.point
  hash := by
    rw [Ed25519VerifyEngine.step, stepState_hashEngine]
    exact hs.hash.step (Sha512StreamEngine.sound_hashServer hlow hhigh) (i := s.hashInputs i) rfl
      (hash_patient i s)
  reduce := by
    rw [Ed25519VerifyEngine.step, stepState_reduceEngine]
    exact hs.reduce.step ScalarReduceModL.counts.sound
      (i := ⟨s.reduceStartReg, s.hashEngine.digestOut⟩) rfl (reduce_patient i s)
  recode := by
    rw [Ed25519VerifyEngine.step, stepState_recodeEngine]
    exact hs.recode.step ScalarWnaf4Recode.counts.sound
      (i := ⟨s.recodeStartReg, s.recodeScalarReg⟩) rfl (recode_patient i s)

theorem inStep_reset (h : M.Computes mul) (feCore : M.State) :
    (reset (M.reset feCore) : State M w).InStep mul where
  point := sound_reset h feCore
  hash := .quiet ⟨Sha512StreamEngine.atRest_reset, rfl⟩ rfl
  reduce := .quiet rfl rfl
  recode := .quiet rfl rfl

theorem Reachable.inStep (h : M.Computes mul) (hreg : Regular mul) (hlow : 2 ≤ w) (hhigh : w < 32)
    {s : State M w} (hs : Reachable s) : s.InStep mul := by
  induction hs with
  | reset feCore => exact inStep_reset h feCore
  | @clock i s _ ih =>
      rw [State.clock]
      split
      · exact ih.step h hreg hlow hhigh i
      · exact inStep_reset h s.pointCore.feCore

/-! ### Starts and answers -/

theorem State.Sound.pointCore {s : State M w} (hs : s.Sound mul) : s.pointCore.Sound mul :=
  Server.Linked.always hs And.left And.left

theorem State.InStep.hashEngine {s : State M w} (hs : s.InStep mul) :
    Sha512StreamEngine.AtRest s.hashEngine :=
  hs.hash.always And.left Sha512StreamEngine.Hashing.atRest

/-- Every start, those inside the sub-engines among them, finds its engine idle, and every
`done` a client that waits for it. -/
structure Orderly (s : State wideMultiplier w) : Prop where
  pointStart : s.pointStartReg = true → s.pointCore.regs.busy = false
  pointDone : s.pointDone = true → s.state.pointWaits = true
  hashStart : s.hashStartReg = true → s.hashEngine.state = .idle
  hashDone : s.hashEngine.done = true → s.state = .hashWait
  reduceStart : s.reduceStartReg = true → s.reduceEngine.busy = false
  reduceDone : s.reduceEngine.done = true → s.state = .reduceWait
  recodeStart : s.recodeStartReg = true → s.recodeEngine.busy = false
  recodeDone : s.recodeEngine.done = true → s.state.recodeWaits = true
  feStart : s.pointCore.regs.feStart = true → wideMultiplier.Idle s.pointCore.feCore
  feDone : wideMultiplier.done s.pointCore.feCore = true → s.pointCore.regs.step.waits = true
  blockStart : s.hashEngine.blockStart = true → s.hashEngine.blockCore.busy = false
  blockDone : s.hashEngine.blockCore.done = true → s.hashEngine.state = .compress

theorem State.InStep.orderly {s : State wideMultiplier w} (hs : s.InStep mul) : Orderly s where
  pointStart := by
    intro hstart
    have hlink := hs.point
    rw [State.Sound, hstart] at hlink
    obtain ⟨⟨hcore, hidle⟩, -⟩ := hlink.idle_of_asking
    exact hcore.busy_of_idle hidle
  pointDone := fun hdone => (Server.Linked.of_done hs.point hdone).1
  hashStart := by
    intro hstart
    have hlink := hs.hash
    rw [hstart] at hlink
    exact hlink.idle_of_asking.1.2
  hashDone := fun hdone => of_decide_eq_true (Server.Linked.of_done hs.hash hdone).1
  reduceStart := by
    intro hstart
    have hlink := hs.reduce
    rw [hstart] at hlink
    exact hlink.idle_of_asking.1
  reduceDone := fun hdone => of_decide_eq_true (Server.Linked.of_done hs.reduce hdone).1
  recodeStart := by
    intro hstart
    have hlink := hs.recode
    rw [hstart] at hlink
    exact hlink.idle_of_asking.1
  recodeDone := fun hdone => (Server.Linked.of_done hs.recode hdone).1
  feStart := by
    intro hstart
    have hlink := hs.point.pointCore.link
    rw [hstart] at hlink
    exact hlink.idle_of_asking.1
  feDone := fun hdone => (hs.point.pointCore.link.of_done hdone).1
  blockStart := fun hstart => (hs.hashEngine.starting hstart).1
  blockDone := by
    intro hdone
    by_contra hstate
    have hsilent := (hs.hashEngine.core hstate).2.2
    rw [hdone] at hsilent
    cases hsilent

/-! ### Answers -/

/-- The starts that a state waits with. -/
def Phase.awaited (p : Phase) : Bool × Bool × Bool × Bool :=
  (p.pointWaits, decide (p = .hashWait), decide (p = .reduceWait), p.recodeWaits)

/-- As long as the answer is not there, the controller stays where it is. -/
theorem stays_until {inputs : ℕ → Inputs} {s : State M w} {answer : State M w → Bool}
    (hidle : s.state ≠ .idle)
    (hwaiting : ∀ t : State M w, t.state = s.state → t.waiting = !answer t)
    (hfirst : answer s = false) {n : ℕ}
    (hbefore : ∀ m < n, answer (run step inputs s (m + 1)) = false)
    (hlast : answer (run step inputs s (n + 1)) = true) :
    (run step inputs s (n + 1)).state = s.state ∧ (run step inputs s (n + 1)).rank = s.rank ∧
      (run step inputs s (n + 1)).waiting = false := by
  have hstay : ∀ m ≤ n + 1, (run step inputs s m).state = s.state ∧
      (run step inputs s m).rank = s.rank := by
    intro m
    induction m with
    | zero =>
        intro _
        exact ⟨rfl, rfl⟩
    | succ m ih =>
        intro hm
        obtain ⟨hstate, hrank⟩ := ih (by omega)
        have hsilent : answer (run step inputs s m) = false := by
          cases m with
          | zero => exact hfirst
          | succ m => exact hbefore m (by omega)
        have hwait : (run step inputs s m).waiting = true := by
          rw [hwaiting _ hstate, hsilent]
          rfl
        have hkeepState := step_state (inputs m) (run step inputs s m)
        have hkeepRank := step_rank (inputs m) (run step inputs s m) (by rwa [hstate])
        rw [if_pos hwait] at hkeepState hkeepRank
        exact ⟨hkeepState.trans hstate, hkeepRank.trans hrank⟩
  obtain ⟨hstate, hrank⟩ := hstay (n + 1) le_rfl
  refine ⟨hstate, hrank, ?_⟩
  rw [hwaiting _ hstate, hlast]
  rfl

/-- A state that waits for a server ends its wait. -/
theorem exists_answer_of {ι σ : Type} {S : Server ι σ} {ok : σ → ι → Prop} (hlive : S.Live ok)
    {part : State M w → σ} {port : Inputs → State M w → ι}
    (hpart : ∀ i s, part (step i s) = S.step (port i s) (part s)) {inputs : ℕ → Inputs}
    {s : State M w} (hidle : s.state ≠ .idle)
    (hwaiting : ∀ t : State M w, t.state = s.state → t.waiting = !S.done (part t))
    {waiting : Bool} (hlink : S.Linked (part s) waiting true)
    (hstart : S.start (port (inputs 0) s) = true)
    (hok : ∀ k, ok (part (run step inputs s k)) (port (inputs k) (run step inputs s k))) :
    ∃ n, (run step inputs s n).state = s.state ∧ (run step inputs s n).rank = s.rank ∧
      (run step inputs s n).waiting = false := by
  obtain ⟨hrest, hfirst⟩ := hlink.idle_of_asking
  obtain ⟨n, hbefore, hlast⟩ := hlive.of_part hpart inputs s hrest hstart hok
  exact ⟨n + 1, stays_until hidle hwaiting hfirst hbefore hlast⟩

/-- With the message granted, the controller does not wait for ever. -/
theorem exists_answer (h : M.Computes mul) (hlow : 2 ≤ w) (hhigh : w < 32)
    {inputs : ℕ → Inputs} {s : State M w} (hs : s.InStep mul) (hidle : s.state ≠ .idle)
    (hstarts : s.starts = s.state.awaited)
    (hgrant : ∀ k, (run step inputs s k).hashEngine.msgRdEn = true →
      (inputs k).msgRdReady = true) :
    ∃ n, (run step inputs s n).state = s.state ∧ (run step inputs s n).rank = s.rank ∧
      (run step inputs s n).waiting = false := by
  by_cases hwaits : s.state.waits = true
  · simp only [State.starts, Phase.awaited, Prod.mk.injEq] at hstarts
    obtain ⟨hpoint, hhash, hreduce, hrecode⟩ := hstarts
    simp only [Phase.waits, Bool.or_eq_true, or_assoc] at hwaits
    rcases hwaits with hstate | hstate | hstate | hstate
    · have hlink := hs.point
      rw [State.Sound, hpoint, hstate] at hlink
      exact exists_answer_of (Ed25519PointCore.live_pointServer h)
        (fun i s => stepState_pointCore i s (rest i s)) hidle
        (fun t ht => waiting_of_pointWaits (by rwa [ht])) hlink (hpoint.trans hstate)
        fun _ => trivial
    · have hlink := hs.hash
      rw [hhash, hstate] at hlink
      exact exists_answer_of (Sha512StreamEngine.live_hashServer hlow hhigh)
        (fun i s => stepState_hashEngine i s (rest i s)) hidle
        (fun t ht => waiting_of_hashWait (ht.trans (of_decide_eq_true hstate))) hlink
        (hhash.trans hstate) hgrant
    · have hlink := hs.reduce
      rw [hreduce, hstate] at hlink
      exact exists_answer_of ScalarReduceModL.counts.live
        (fun i s => stepState_reduceEngine i s (rest i s)) hidle
        (fun t ht => waiting_of_reduceWait (ht.trans (of_decide_eq_true hstate))) hlink
        (hreduce.trans hstate) fun _ => trivial
    · have hlink := hs.recode
      rw [hrecode, hstate] at hlink
      exact exists_answer_of ScalarWnaf4Recode.counts.live
        (fun i s => stepState_recodeEngine i s (rest i s)) hidle
        (fun t ht => waiting_of_recodeWaits (by rwa [ht])) hlink (hrecode.trans hstate)
        fun _ => trivial
  · refine ⟨0, rfl, rfl, ?_⟩
    by_contra hwait
    exact hwaits (waits_of_waiting (Bool.eq_true_of_not_eq_false hwait))

/-! ### The run -/

/-- A state that is entered waits with the starts it was entered with. -/
theorem awaited_of_successor (p : Phase) : ∀ q ∈ p.successors,
    q.awaited = (p.pointAsks, decide (p = .hashStart), decide (p = .reduceStart), p.recodeAsks) := by
  cases p <;> decide

theorem successor_ne_idle {p q : Phase} (h : q ∈ p.successors) (hidle : p ≠ .idle)
    (hdone : p ≠ .done) : q ≠ .idle := by
  rintro rfl
  revert h hidle hdone
  cases p <;> decide

/-- A state is left for one with a lower rank. -/
theorem exists_lower (h : M.Computes mul) (hlow : 2 ≤ w) (hhigh : w < 32)
    (inputs : ℕ → Inputs) {s : State M w} (hs : s.InStep mul) (hidle : s.state ≠ .idle)
    (hstarts : s.starts = s.state.awaited)
    (hgrant : ∀ k, (run step inputs s k).hashEngine.msgRdEn = true →
      (inputs k).msgRdReady = true) :
    ∃ n, (run step inputs s (n + 1)).done = true ∨
      ((run step inputs s (n + 1)).state ≠ .idle ∧
        (run step inputs s (n + 1)).starts = (run step inputs s (n + 1)).state.awaited) ∧
        (run step inputs s (n + 1)).rank < s.rank := by
  obtain ⟨n, hstate, hrank, hwait⟩ := exists_answer h hlow hhigh hs hidle hstarts hgrant
  refine ⟨n, ?_⟩
  have hnext := step_state (inputs n) (run step inputs s n)
  have hlower := step_rank (inputs n) (run step inputs s n) (by rwa [hstate])
  rw [hwait, if_neg Bool.false_ne_true] at hnext hlower
  rw [run_succ]
  by_cases hlast : (run step inputs s n).state = .done
  · left
    rw [step_done, hlast]
    rfl
  · right
    refine ⟨⟨successor_ne_idle hnext (by rwa [hstate]) hlast, ?_⟩, hrank ▸ hlower⟩
    rw [step_starts, awaited_of_successor _ _ hnext]

/-- From every state that is entered with its starts the run comes to `done`. -/
theorem exists_done (h : M.Computes mul) (hreg : Regular mul) (hlow : 2 ≤ w) (hhigh : w < 32)
    (inputs : ℕ → Inputs) {s : State M w} (hs : s.InStep mul) (hidle : s.state ≠ .idle)
    (hstarts : s.starts = s.state.awaited)
    (hgrant : ∀ k, (run step inputs s k).hashEngine.msgRdEn = true →
      (inputs k).msgRdReady = true) :
    ∃ n, (run step inputs s (n + 1)).done = true := by
  have hlater := @exists_later_goal
    (fun k => (run step inputs s k).state ≠ .idle ∧
      (run step inputs s k).starts = (run step inputs s k).state.awaited)
    (fun k => (run step inputs s k).done = true) (fun k => (run step inputs s k).rank) ?_ 0
    ⟨hidle, hstarts⟩
  · obtain ⟨n, hdone⟩ := hlater
    exact ⟨n, by rwa [Nat.zero_add] at hdone⟩
  · rintro k ⟨hidle', hstarts'⟩
    have hsound : (run step inputs s k).InStep mul :=
      run_invariant (fun i s hs => State.InStep.step h hreg hlow hhigh i hs) hs k
    obtain ⟨n, hn⟩ := exists_lower h hlow hhigh (fun j => inputs (k + j)) hsound hidle'
      hstarts' (by
        intro j hj
        rw [← run_add] at hj
        exact hgrant (k + j) hj)
    rw [← run_add] at hn
    exact ⟨n, hn⟩

/-- The state after the start. -/
theorem step_start {i : Inputs} {s : State M w} (hidle : s.state = .idle) (hstart : i.start = true) :
    (step i s).state ≠ .idle ∧ (step i s).starts = (step i s).state.awaited := by
  have hstep : step i s = load i (rest i s) := by
    rw [step, stepState, hidle]
    exact if_pos hstart
  have hstarts := step_starts i s
  have hstate := load_state i (rest i s)
  rw [← hstep] at hstate
  rw [hstarts, hidle]
  rcases hstate with hstate | hstate <;> rw [hstate] <;> exact ⟨by decide, rfl⟩

/-- In every reachable state starts and answers are in order, and every run from rest comes to
`done` as long as it is not aborted and message requests are granted. -/
theorem cannot_hang (hlow : 2 ≤ w) (hhigh : w < 32) :
    (∀ s : State wideMultiplier w, Reachable s → Orderly s) ∧
      ∀ (inputs : ℕ → Inputs) (s : State wideMultiplier w), Reachable s → s.state = .idle →
        (inputs 0).start = true → (∀ k, (inputs k).engineRstN = true) →
        (∀ k, (run State.clock inputs s k).hashEngine.msgRdEn = true →
          (inputs k).msgRdReady = true) →
        ∃ n, (run State.clock inputs s (n + 1)).done = true := by
  have hinStep : ∀ s : State wideMultiplier w, Reachable s → s.InStep mulWide := fun s hs =>
    hs.inStep computes_wideMultiplier regular_mulWide hlow hhigh
  refine ⟨fun s hs => (hinStep s hs).orderly, ?_⟩
  intro inputs s hs hidle hstart hrst hgrant
  simp only [run_clock hrst] at hgrant ⊢
  have hnext := (hinStep s hs).step computes_wideMultiplier regular_mulWide hlow hhigh (inputs 0)
  obtain ⟨hbusy, hstarts⟩ := step_start hidle hstart
  have hrun := @run_succ' _ _ step inputs s
  obtain ⟨n, hdone⟩ := exists_done computes_wideMultiplier regular_mulWide hlow hhigh
    (fun k => inputs (k + 1)) hnext hbusy hstarts (by
      intro k hk
      rw [← hrun] at hk
      exact hgrant (k + 1) hk)
  rw [← hrun] at hdone
  exact ⟨n + 1, hdone⟩

/-- Every request granted, and the same word for each. -/
def granting : ℕ → Inputs := fun _ =>
  { rstN := true, abort := false, start := true, messageLength := 5, pubkeyRaw := 2,
    signatureRRaw := 2, signatureSRaw := 1, verifyMode := verifyModeAgaveZebra,
    msgRdReady := true, msgRdData := 0 }

theorem cannot_hang_granting : ∃ n, (run State.clock granting outOfReset (n + 1)).done = true :=
  (@cannot_hang 12 (by decide) (by decide)).2 granting outOfReset
    (@Reachable.reset wideMultiplier 12 zeroMultiplier) rfl rfl (fun _ => rfl) fun _ _ => rfl

end Ed25519VerifyEngine

end Kv260Sigv
