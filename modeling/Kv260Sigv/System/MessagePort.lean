import Kv260Sigv.Library.Clocked
import Kv260Sigv.Rtl.Sha512StreamEngine

/-!
# The shared message port

With two verify engines, their hash engines share the message memory.  Engine 0
wins; the loser waits in `ST_MSG_REQ`.  A grant lasts one cycle, but an engine
needs two: the word it takes in `ST_MSG_LATCH` is the one addressed in the cycle of
its `ST_MSG_WAIT`, the cycle after the grant, and nobody arbitrates that one.
-/

set_option autoImplicit false

namespace Kv260Sigv

open Sha512StreamEngine (Phase)

namespace Sha512StreamEngine

/-! ### The request states -/

/-- A phase that is not part of a read under way. -/
def Settled (t : Phase) : Prop := t ≠ .msgWait ∧ t ≠ .msgLatch

instance (t : Phase) : Decidable (Settled t) := inferInstanceAs (Decidable (_ ∧ _))

/-- A waiting engine still drives its request, and no compression resumes in the
middle of a read. -/
structure Requests (s : State) : Prop where
  waiting : s.state = .msgWait → s.msgRdEn = true
  resume : Settled s.resumeState

variable {i : Inputs} {s : State}

/-- A push goes on in its target, now or after the compression. -/
theorem pushByte_settled {n : State} {byte : BitVec 8} {target : Phase} (ht : Settled target)
    (hn : Settled n.resumeState) :
    Settled (pushByte s byte target n).state ∧ Settled (pushByte s byte target n).resumeState := by
  have hcompress : Settled .compress := by decide
  unfold pushByte
  dsimp only
  split
  · exact ⟨hcompress, ht⟩
  · exact ⟨ht, hn⟩

/-- What a cycle does to a request: it is raised, it is held for one more cycle, or
none is under way. -/
inductive RequestStep (i : Inputs) (s s' : State) : Prop
  | request (now : s.state = .msgReq) (raised : s'.msgRdEn = true)
      (next : s'.state = if i.msgRdReady then .msgWait else .msgReq)
      (resume : s'.resumeState = s.resumeState)
  | hold (now : s.state = .msgWait) (next : s'.state = .msgLatch)
      (addr : s'.msgRdAddr = s.msgRdAddr) (resume : s'.resumeState = s.resumeState)
  | other (now : s.state ≠ .msgWait) (next : Settled s'.state) (resume : Settled s'.resumeState)

/-- A branch that pushes a byte is no part of a read. -/
theorem RequestStep.push {n : State} {byte : BitVec 8} {target : Phase}
    (hnow : s.state ≠ .msgWait) (ht : Settled target) (hn : Settled n.resumeState) :
    RequestStep i s (pushByte s byte target n) := by
  have hpush : Settled (pushByte s byte target n).state ∧
      Settled (pushByte s byte target n).resumeState := pushByte_settled ht hn
  obtain ⟨hnext, hresume⟩ := hpush
  exact .other hnow hnext hresume

theorem settled_ite {c : Prop} [Decidable c] {t u : Phase} (ht : Settled t) (hu : Settled u) :
    Settled (if c then t else u) := by
  split
  · exact ht
  · exact hu

theorem step_request (hs : Requests s) : RequestStep i s (step i s) := by
  have hresume := hs.resume
  have hlength : Settled .length := by decide
  have hpadZero : Settled .padZero := by decide
  have hpad80 : Settled .pad80 := by decide
  have hmsgReq : Settled .msgReq := by decide
  have hmsgRead : Settled .msgRead := by decide
  have hidle : Settled .idle := by decide
  unfold step stepState
  split
  · next hnow =>
      refine .other (by rw [hnow]; decide) ?_ ?_
      · unfold load
        split_ifs <;> simp [Settled, hnow]
      · unfold load
        split_ifs <;> exact hresume
  · next hnow =>
      have hne : s.state ≠ .msgWait := by rw [hnow]; decide
      dsimp only
      split
      · exact .push hne (by decide) hresume
      · exact .push hne (by decide) hresume
  · next hnow =>
      have hne : s.state ≠ .msgWait := by rw [hnow]; decide
      dsimp only
      split
      · exact .push hne (settled_ite hmsgReq hpad80) hresume
      · exact .push hne (by decide) hresume
  · next hnow => exact .request hnow rfl rfl rfl
  · next hnow => exact .hold hnow rfl rfl rfl
  · next hnow =>
      exact .push (by rw [hnow]; decide) (settled_ite hpad80 hmsgRead) hresume
  · next hnow =>
      exact .push (by rw [hnow]; decide) (settled_ite hpad80 (settled_ite hmsgReq hmsgRead)) hresume
  · next hnow =>
      exact .push (by rw [hnow]; decide) (settled_ite hpadZero hlength) hresume
  · next hnow =>
      exact .push (by rw [hnow]; decide) (settled_ite hlength hpadZero) hresume
  · next hnow =>
      exact .push (by rw [hnow]; decide) (settled_ite hidle hlength) hresume
  · next hnow =>
      refine .other (by rw [hnow]; decide) ?_ ?_
      · dsimp only
        split_ifs
        · exact hidle
        · exact hresume
        · rw [hnow]
          decide
      · dsimp only
        split_ifs <;> exact hresume

theorem Requests.step (hs : Requests s) : Requests (step i s) := by
  generalize hnext : Sha512StreamEngine.step i s = s'
  have hstep := step_request (i := i) hs
  rw [hnext] at hstep
  cases hstep with
  | request now raised next resume => exact ⟨fun _ => raised, by rw [resume]; exact hs.resume⟩
  | hold now next addr resume =>
      refine ⟨?_, by rw [resume]; exact hs.resume⟩
      intro hwait
      rw [next] at hwait
      contradiction
  | other now next resume => exact ⟨fun hwait => absurd hwait next.1, resume⟩

/-- A word is latched in the cycle after `ST_MSG_WAIT`, and in no other. -/
theorem Requests.latch_iff (hs : Requests s) :
    (Sha512StreamEngine.step i s).state = .msgLatch ↔ s.state = .msgWait := by
  generalize hnext : Sha512StreamEngine.step i s = s'
  have hstep := step_request (i := i) hs
  rw [hnext] at hstep
  cases hstep with
  | request now raised next resume =>
      rw [now, next]
      split <;> decide
  | hold now next addr resume => simp [now, next]
  | other now next resume => exact ⟨fun h => absurd h next.2, fun h => absurd h now⟩

/-- The address stays while the engine waits. -/
theorem addr_of_wait (hwait : s.state = .msgWait) :
    (Sha512StreamEngine.step i s).msgRdAddr = s.msgRdAddr := by
  rw [Sha512StreamEngine.step, stepState, hwait]

theorem requests_reset (blockCore : Sha512CompressCore.State) : Requests (reset blockCore) :=
  ⟨fun h => Phase.noConfusion h, show Settled .idle by decide⟩

theorem Requests.visible (hs : Requests s) (rstN : Bool) : Requests (s.visible rstN) := by
  cases rstN with
  | false => exact requests_reset _
  | true => exact hs

theorem Requests.clock (hs : Requests s) (rstN : Bool) : Requests (s.clock rstN i) := by
  cases rstN with
  | false => exact requests_reset _
  | true => exact hs.step

end Sha512StreamEngine

/-! ### The port -/

/-- The hash engines of the two verify engines and the output register of the
message memory. -/
structure MessagePort where
  hash0 : Sha512StreamEngine.State
  hash1 : Sha512StreamEngine.State
  messageBramDout : BitVec 32

namespace MessagePort

/-- The contents of the message memory, word by word. -/
abbrev Memory := BitVec 10 → BitVec 32

/-- What a verify engine tells its hash engine. -/
structure Hash where
  start : Bool
  prefix0 : BitVec 256
  prefix1 : BitVec 256

/-- The inputs of a cycle; `rstN` is `engine_rst_n`, low while the core aborts. -/
structure Inputs where
  rstN : Bool
  messageLength : BitVec 16
  hash0 : Hash
  hash1 : Hash

/-- The registers as they show in a cycle. -/
def visible (i : Inputs) (p : MessagePort) : MessagePort :=
  { p with hash0 := p.hash0.visible i.rstN, hash1 := p.hash1.visible i.rstN }

/-- `engine0_grant`, `engine1_grant`. -/
def grant0 (p : MessagePort) : Bool := p.hash0.msgRdEn

@[inherit_doc grant0] def grant1 (p : MessagePort) : Bool := p.hash1.msgRdEn && !p.hash0.msgRdEn

/-- `muxed_msg_addr`. -/
def muxedMsgAddr (p : MessagePort) : BitVec 12 :=
  if grant0 p then p.hash0.msgRdAddr else p.hash1.msgRdAddr

/-- The word of a byte address. -/
def wordAddr (addr : BitVec 12) : BitVec 10 := addr.extractLsb' 2 10

/-- `message_bram_en`. -/
def messageBramEn (p : MessagePort) : Bool := grant0 p || grant1 p

/-- The inputs of a hash engine. -/
def hashInputs (i : Inputs) (h : Hash) (ready : Bool) (p : MessagePort) :
    Sha512StreamEngine.Inputs :=
  ⟨h.start, h.prefix0, h.prefix1, i.messageLength, ready, p.messageBramDout⟩

/-- One clock cycle. -/
def step (mem : Memory) (i : Inputs) (p : MessagePort) : MessagePort :=
  let v := visible i p
  { hash0 := p.hash0.clock i.rstN (hashInputs i i.hash0 (grant0 v) p)
    hash1 := p.hash1.clock i.rstN (hashInputs i i.hash1 (grant1 v) p)
    messageBramDout := if messageBramEn v then mem (wordAddr (muxedMsgAddr v))
      else p.messageBramDout }

/-- After `rst_n`; the memory output is whatever it was. -/
def reset (messageBramDout : BitVec 32) : MessagePort :=
  ⟨Sha512StreamEngine.reset Sha512CompressCore.reset, Sha512StreamEngine.reset Sha512CompressCore.reset, messageBramDout⟩

/-- Each hash engine that is in `ST_MSG_LATCH` takes the word it asked for. -/
def Captures (mem : Memory) (i : Inputs) (p : MessagePort) : Prop :=
  ((visible i p).hash0.state = .msgLatch → p.messageBramDout = mem (wordAddr p.hash0.msgRdAddr)) ∧
    ((visible i p).hash1.state = .msgLatch → p.messageBramDout = mem (wordAddr p.hash1.msgRdAddr))

/-- Engine 0 addresses the memory in the cycle engine 1 still needs it, with a
request for another word. -/
def Overtakes (mem : Memory) (i : Inputs) (p : MessagePort) : Prop :=
  (visible i p).hash1.state = .msgWait ∧ (visible i p).hash0.msgRdEn = true ∧
    mem (wordAddr (visible i p).hash0.msgRdAddr) ≠ mem (wordAddr (visible i p).hash1.msgRdAddr)

/-- Both hash engines keep to the request states. -/
structure Requests (p : MessagePort) : Prop where
  hash0 : Sha512StreamEngine.Requests p.hash0
  hash1 : Sha512StreamEngine.Requests p.hash1

variable {mem : Memory} {i i' : Inputs} {p : MessagePort}

theorem Requests.step (h : Requests p) : Requests (step mem i p) :=
  ⟨h.hash0.clock i.rstN, h.hash1.clock i.rstN⟩

theorem visible_high {s : Sha512StreamEngine.State} {rstN : Bool} {t : Phase} (ht : t ≠ .idle) :
    (s.visible rstN).state = t ↔ rstN = true ∧ s.state = t := by
  cases rstN with
  | false =>
      constructor
      · intro h
        exact absurd h.symm ht
      · intro h
        exact absurd h.1 Bool.false_ne_true
  | true => simp [Sha512StreamEngine.State.visible]

/-- An engine latches in a cycle when it waited in the one before and neither is
reset. -/
theorem latch_iff {s : Sha512StreamEngine.State} {j : Sha512StreamEngine.Inputs}
    {rstN rstN' : Bool} (h : Sha512StreamEngine.Requests s) :
    ((s.clock rstN j).visible rstN').state = .msgLatch ↔
      rstN' = true ∧ (s.visible rstN).state = .msgWait := by
  rw [visible_high (by decide), visible_high (by decide)]
  cases rstN with
  | false => simp [Sha512StreamEngine.State.clock, Sha512StreamEngine.reset]
  | true => simp [Sha512StreamEngine.State.clock, h.latch_iff]

/-- The address an engine waits with is the one it latches with. -/
theorem addr_eq {s : Sha512StreamEngine.State} {j : Sha512StreamEngine.Inputs} {rstN : Bool}
    (hwait : (s.visible rstN).state = .msgWait) :
    (s.clock rstN j).msgRdAddr = (s.visible rstN).msgRdAddr := by
  rw [visible_high (by decide)] at hwait
  obtain ⟨rfl, hwait⟩ := hwait
  exact Sha512StreamEngine.addr_of_wait hwait

/-- Engine 0 always takes its own word. -/
theorem captures0 (h : Requests p)
    (hlatch : (visible i' (step mem i p)).hash0.state = .msgLatch) :
    (step mem i p).messageBramDout = mem (wordAddr (step mem i p).hash0.msgRdAddr) := by
  have hwait := ((latch_iff h.hash0).mp hlatch).2
  have hgrant : grant0 (visible i p) = true := (h.hash0.visible i.rstN).waiting hwait
  have haddr : (step mem i p).hash0.msgRdAddr = (visible i p).hash0.msgRdAddr :=
    addr_eq hwait
  rw [haddr]
  show (if messageBramEn (visible i p) then mem (wordAddr (muxedMsgAddr (visible i p))) else _) = _
  rw [messageBramEn, hgrant, Bool.true_or, if_pos rfl, muxedMsgAddr, if_pos hgrant]

/-- Engine 1 takes the word of whoever drives the address in its waiting cycle. -/
theorem captures1_iff (h : Requests p) (hwait : (visible i p).hash1.state = .msgWait) :
    (step mem i p).messageBramDout = mem (wordAddr (step mem i p).hash1.msgRdAddr) ↔
      ¬ Overtakes mem i p := by
  have hrequest : (visible i p).hash1.msgRdEn = true := (h.hash1.visible i.rstN).waiting hwait
  have haddr : (step mem i p).hash1.msgRdAddr = (visible i p).hash1.msgRdAddr :=
    addr_eq hwait
  have hen : messageBramEn (visible i p) = true := by
    rw [messageBramEn, grant1, grant0, hrequest]
    cases (visible i p).hash0.msgRdEn <;> rfl
  have hdout : (step mem i p).messageBramDout = mem (wordAddr (muxedMsgAddr (visible i p))) :=
    if_pos hen
  rw [haddr, hdout, muxedMsgAddr, grant0, Overtakes]
  by_cases hgrant : (visible i p).hash0.msgRdEn = true
  · simp [hgrant, hwait]
  · simp [hgrant]

/-- One cycle: the next one captures wrongly exactly when engine 0 overtakes. -/
theorem captures_step (h : Requests p) :
    Captures mem i' (step mem i p) ↔ (Overtakes mem i p → i'.rstN = false) := by
  constructor
  · intro hcaptures hovertakes
    rw [← Bool.not_eq_true]
    intro hrst
    have hlatch : (visible i' (step mem i p)).hash1.state = .msgLatch :=
      (latch_iff h.hash1).mpr ⟨hrst, hovertakes.1⟩
    exact (captures1_iff h hovertakes.1).mp (hcaptures.2 hlatch) hovertakes
  · intro hovertakes
    refine ⟨captures0 h, ?_⟩
    intro hlatch
    obtain ⟨hrst, hwait⟩ := (latch_iff h.hash1).mp hlatch
    refine (captures1_iff h hwait).mpr ?_
    intro hover
    rw [hovertakes hover] at hrst
    contradiction

theorem requests_run (inputs : ℕ → Inputs) (dout : BitVec 32) :
    ∀ n, Requests (Clocked.run (step mem) inputs (reset dout) n) :=
  Clocked.run_invariant (fun _ _ h => h.step)
    ⟨Sha512StreamEngine.requests_reset _, Sha512StreamEngine.requests_reset _⟩

/-- Along any run, every word the hash engines capture is the one they asked for if
and only if engine 0 never addresses another word in the cycle engine 1 waits in
(unless that read is aborted). -/
theorem captures_iff (mem : Memory) (inputs : ℕ → Inputs) (dout : BitVec 32) :
    (∀ n, Captures mem (inputs n) (Clocked.run (step mem) inputs (reset dout) n)) ↔
      ∀ n, Overtakes mem (inputs n) (Clocked.run (step mem) inputs (reset dout) n) →
        (inputs (n + 1)).rstN = false := by
  constructor
  · intro hall n
    exact (captures_step (requests_run inputs dout n)).mp (hall (n + 1))
  · intro hnever n
    cases n with
    | zero =>
        have hidle : ∀ s : Sha512StreamEngine.State, s.state = .idle →
            ¬ (s.visible (inputs 0).rstN).state = .msgLatch := by
          intro s hs hlatch
          have hidle := ((visible_high (by decide)).mp hlatch).2
          rw [hs] at hidle
          contradiction
        exact ⟨fun h => absurd h (hidle _ rfl), fun h => absurd h (hidle _ rfl)⟩
    | succ n => exact (captures_step (requests_run inputs dout n)).mpr (hnever n)

/-- A message of two different words; engine 1 starts to hash in cycle 0 and engine 0
in cycle 8. -/
def lateEngine0 (n : ℕ) : Inputs :=
  ⟨true, 8, ⟨n = 8, 0, 0⟩, ⟨n = 0, 0, 0⟩⟩

/-- In cycle 75 engine 1 takes word 0 for word 1: not every run captures what the
engines asked for. -/
theorem captures_wrong :
    ¬ ∀ (mem : Memory) (inputs : ℕ → Inputs) (dout : BitVec 32) (n : ℕ),
      Captures mem (inputs n) (Clocked.run (step mem) inputs (reset dout) n) := by
  intro hall
  have hlatch : (visible (lateEngine0 75) (Clocked.run (step fun a => a.setWidth 32) lateEngine0
      (reset 0) 75)).hash1.state = .msgLatch := by
    decide +kernel
  have hword := (hall (fun a => a.setWidth 32) lateEngine0 0 75).2 hlatch
  revert hword
  decide +kernel

end MessagePort

end Kv260Sigv
