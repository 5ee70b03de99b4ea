import Kv260Sigv.Rtl.Sha512StreamBytes

/-!
# The stream engine computes SHA-512

The engine is put on a bench: a message memory that answers one cycle after a request,
and a grant that is given at the latest once the request is on the port.  While it feeds,
the buffer and the stream make up the blocks that are left; while it crunches, the buffer
is a whole block.  Each byte shortens the stream and each cycle of a compression or of a
read comes closer to its end, so every run ends, and it ends with the digest.
-/

set_option autoImplicit false

namespace Kv260Sigv

namespace Sha512StreamEngine

open Sha512CompressCore (Compressing Compressed unpack)

variable {w : ℕ}

/-! ### The bench -/

/-- The engine, and the output register of the message memory. -/
structure Bench (w : ℕ) where
  engine : State w
  msgRdData : BitVec 32

/-- The inputs of a cycle.  `msg_rd_ready` is high when `ready` is, and when the registered
request is; `idleData` comes out of the memory when nothing is read. -/
structure Bench.Inputs where
  start : Bool
  prefix0 : BitVec 256
  prefix1 : BitVec 256
  messageLength : BitVec 16
  ready : Bool
  idleData : BitVec 32

/-- The inputs of the engine. -/
def Bench.engineInputs (i : Bench.Inputs) (b : Bench w) : Sha512StreamEngine.Inputs :=
  ⟨i.start, i.prefix0, i.prefix1, i.messageLength, i.ready || b.engine.msgRdEn, b.msgRdData⟩

/-- One clock cycle. -/
def Bench.step (mem : BitVec (w - 2) → BitVec 32) (i : Bench.Inputs) (b : Bench w) : Bench w where
  engine := Sha512StreamEngine.step (engineInputs i b) b.engine
  msgRdData := if b.engine.msgRdEn then mem (wordAddr b.engine.msgRdAddr) else i.idleData

/-- The bytes of a prefix, the lowest first. -/
def littleEndian (x : BitVec 256) : List (BitVec 8) :=
  (List.range 32).map fun k => x.extractLsb' (8 * k) 8

/-- The first bytes of the message memory. -/
def messageBytes (mem : BitVec (w - 2) → BitVec 32) (length : ℕ) : List (BitVec 8) :=
  (List.range length).map fun k => memoryByte mem (BitVec.ofNat w k)

/-- What the engine has to hash. -/
def hashInput (mem : BitVec (w - 2) → BitVec 32) (prefix0 prefix1 : BitVec 256) (length : ℕ) :
    List (BitVec 8) :=
  littleEndian prefix0 ++ littleEndian prefix1 ++ messageBytes mem length

/-- The states of the engine after power-on, whatever happened on its inputs. -/
def Reachable (s : State w) : Prop :=
  ∃ (inputs : ℕ → Bool × Inputs) (n : ℕ),
    Clocked.run (fun i => State.clock i.1 i.2) inputs (reset Sha512CompressCore.reset) n = s

/-! ### Between two hashes -/

/-- Outside a compression the core is at rest, and a request is up only while one is made. -/
structure AtRest (s : State w) : Prop where
  core : s.state ≠ .compress →
    s.blockStart = false ∧ s.blockCore.busy = false ∧ s.blockCore.done = false
  starting : s.blockStart = true → s.blockCore.busy = false ∧ s.blockCore.done = false
  finished : s.blockCore.done = true → s.blockCore.busy = false
  request : s.msgRdEn = true → s.state = .msgReq ∨ s.state = .msgWait

/-- What every cycle does to the core and to the port. -/
structure Controls (s s' : State w) : Prop where
  core : s'.blockCore = (entry s).blockCore
  starts : s'.blockStart = true → s.state ≠ .compress ∧ s'.state = .compress
  request : s'.msgRdEn = true → s'.state = .msgReq ∨ s'.state = .msgWait
  waits : s.state = .compress → s.blockCore.done = false → s'.state = .compress

variable {i : Inputs} {s : State w}

/-- A cycle that starts no compression and makes no request. -/
theorem Controls.plain {n : State w} (hcore : n.blockCore = (entry s).blockCore)
    (hstart : n.blockStart = false) (hrequest : n.msgRdEn = false)
    (hwaits : s.state = .compress → s.blockCore.done = false → n.state = .compress) :
    Controls s n :=
  ⟨hcore, fun h => absurd (hstart.symm.trans h) Bool.false_ne_true,
    fun h => absurd (hrequest.symm.trans h) Bool.false_ne_true, hwaits⟩

theorem Controls.push {n : State w} {byte : BitVec 8} {target : Phase}
    (hcore : n.blockCore = (entry s).blockCore) (hstart : n.blockStart = false)
    (hrequest : n.msgRdEn = false) (hs : s.state ≠ .compress) :
    Controls s (pushByte s byte target n) := by
  unfold pushByte
  dsimp only
  split
  · exact ⟨hcore, fun _ => ⟨hs, rfl⟩, fun h => absurd (hrequest.symm.trans h) Bool.false_ne_true,
      fun h => absurd h hs⟩
  · exact .plain hcore hstart hrequest fun h => absurd h hs

theorem step_controls : Controls s (step i s) := by
  rw [step_eq, stepState]
  cases hphase : s.state <;> dsimp only
  case idle =>
    unfold load
    split_ifs
    all_goals exact .plain rfl rfl rfl fun h => by rw [hphase] at h; contradiction
  case msgReq =>
    refine ⟨rfl, fun h => absurd h Bool.false_ne_true, fun _ => ?_,
      fun h => by rw [hphase] at h; contradiction⟩
    cases i.msgRdReady
    · exact .inl rfl
    · exact .inr rfl
  case msgWait => exact .plain rfl rfl rfl fun h => by rw [hphase] at h; contradiction
  case compress =>
    split
    · next hdone =>
        have hwaits : s.blockCore.done ≠ false := by
          rw [hdone]
          decide
        split
        all_goals exact .plain rfl rfl rfl fun _ h => absurd h hwaits
    · exact .plain rfl rfl rfl fun _ _ => hphase
  case prefix0 =>
    split
    all_goals exact .push rfl rfl rfl (by rw [hphase]; decide)
  case prefix1 =>
    split
    all_goals exact .push rfl rfl rfl (by rw [hphase]; decide)
  all_goals exact .push rfl rfl rfl (by rw [hphase]; decide)

theorem AtRest.step (h : AtRest s) : AtRest (step i s) := by
  have hcycle := step_controls (i := i) (s := s)
  generalize Sha512StreamEngine.step i s = s' at hcycle
  -- a core that is not started by a cycle is idle after it
  have hidle : s.state ≠ .compress ∨ s.blockCore.done = true →
      s'.blockCore.busy = false ∧ s'.blockCore.done = false := by
    intro hor
    have hquiet : s.blockStart = false ∧ s.blockCore.busy = false := by
      rcases hor with hne | hdone
      · exact ⟨(h.core hne).1, (h.core hne).2.1⟩
      · refine ⟨?_, h.finished hdone⟩
        by_contra hstart
        rw [Bool.not_eq_false] at hstart
        exact Bool.false_ne_true ((h.starting hstart).2.symm.trans hdone)
    rw [hcycle.core, entry, Sha512CompressCore.step_idle hquiet.2 hquiet.1]
    exact ⟨hquiet.2, rfl⟩
  constructor
  · intro hne
    refine ⟨?_, hidle ?_⟩
    · by_contra hstart
      rw [Bool.not_eq_false] at hstart
      exact hne (hcycle.starts hstart).2
    · by_contra hnot
      rw [not_or, not_not, Bool.not_eq_true] at hnot
      exact hne (hcycle.waits hnot.1 hnot.2)
  · intro hstart
    exact hidle (.inl (hcycle.starts hstart).1)
  · rw [hcycle.core]
    exact Sha512CompressCore.busy_of_done
  · exact hcycle.request

theorem atRest_reset : AtRest (reset Sha512CompressCore.reset : State w) := by
  refine ⟨fun _ => ⟨rfl, rfl, rfl⟩, fun _ => ⟨rfl, rfl⟩, fun _ => rfl, fun h => ?_⟩
  exact absurd h Bool.false_ne_true

theorem Reachable.atRest (h : Reachable s) : AtRest s := by
  obtain ⟨inputs, n, rfl⟩ := h
  refine Clocked.run_invariant (fun i s hs => ?_) atRest_reset n
  cases hrst : i.1
  · rw [State.clock, if_neg Bool.false_ne_true]
    exact atRest_reset
  · rw [State.clock, if_pos rfl]
    exact hs.step

/-! ### One hash -/

/-- The bytes in the block buffer and the stream are the blocks that are left. -/
structure Holds (target : Sha512.Words) (pending rest : List (BitVec 8)) (s : State w) : Prop where
  buffer : s.blockBuffer.toNat = Sha512.value pending
  whole : pending.length + rest.length = 128 * s.blocksRemaining.toNat
  target : Sha512.absorb s.blocksRemaining.toNat (unpack s.hashState) (pending ++ rest) = target

/-- Between two compressions. -/
structure Feeding (prefix1 : BitVec 256) (mem : BitVec (w - 2) → BitVec 32)
    (target : Sha512.Words) (data : BitVec 32) (s : State w) : Prop where
  done : s.done = false
  error : s.error = false
  rest : AtRest s
  phase : s.state ≠ .idle ∧ s.state ≠ .compress
  supplied : Supplied mem data s s.state
  holds : ∃ pending, s.blockByteIndex.toNat = pending.length ∧
    Holds target pending (todo prefix1 mem s s.state) s

/-- How far the compression is. -/
def Crunches (s : State w) : Prop :=
  s.blockStart = true ∨
    s.blockStart = false ∧
      ((∃ t < 80, Compressing s.hashState s.blockBuffer t s.blockCore) ∨
        Compressed s.hashState s.blockBuffer s.blockCore)

/-- In a compression. -/
structure Crunching (prefix1 : BitVec 256) (mem : BitVec (w - 2) → BitVec 32)
    (target : Sha512.Words) (s : State w) : Prop where
  done : s.done = false
  error : s.error = false
  rest : AtRest s
  phase : s.state = .compress
  core : Crunches s
  resume : Target s.resumeState
  supplied : Supplied mem 0 s s.resumeState
  holds : ∃ pending, pending.length = 128 ∧
    Holds target pending (todo prefix1 mem s s.resumeState) s

/-- The cycles that are left of a compression or of a read. -/
def countdown (s : State w) : ℕ :=
  match s.state with
  | .compress =>
      if s.blockStart then 86
      else if s.blockCore.done then 5 else 85 - s.blockCore.roundIndex.toNat
  | .msgReq => if s.msgRdEn then 2 else 3
  | .msgWait => 1
  | _ => 0

/-- What the run still has to do. -/
def remaining (prefix1 : BitVec 256) (mem : BitVec (w - 2) → BitVec 32) (s : State w) : ℕ :=
  (todo prefix1 mem s (if s.state = .compress then s.resumeState else s.state)).length * 128 +
    countdown s

variable {prefix1 : BitVec 256} {mem : BitVec (w - 2) → BitVec 32} {target : Sha512.Words}
  {data : BitVec 32}

theorem countdown_lt (s : State w) : countdown s < 128 := by
  unfold countdown
  split
  · split_ifs <;> omega
  · split_ifs <;> omega
  · omega
  · omega

/-- A byte moves from the stream to the buffer. -/
theorem Holds.push {pending rest : List (BitVec 8)} {byte : BitVec 8} {n : State w}
    (h : Holds target pending (byte :: rest) s) (hlength : pending.length < 128)
    (hblocks : n.blocksRemaining = s.blocksRemaining) (hhash : n.hashState = s.hashState)
    (hbuffer : n.blockBuffer = s.blockBuffer.extractLsb' 0 1016 ++ byte) :
    Holds target (pending ++ [byte]) rest n := by
  refine ⟨?_, ?_, ?_⟩
  · have hfits : Sha512.value pending < 2 ^ 1016 :=
      calc Sha512.value pending < 256 ^ pending.length := Sha512.value_lt pending
        _ ≤ 256 ^ 127 := Nat.pow_le_pow_right (by decide) (by omega)
        _ = 2 ^ 1016 := by rw [show 256 = 2 ^ 8 from rfl, ← pow_mul]
    have hlow : (s.blockBuffer.extractLsb' 0 1016).toNat = Sha512.value pending := by
      simp only [BitVec.extractLsb'_toNat, Nat.shiftRight_zero, h.buffer, Nat.mod_eq_of_lt hfits]
    rw [hbuffer, BitVec.toNat_append, hlow, Sha512.value_append_singleton,
      ← Nat.shiftLeft_add_eq_or_of_lt byte.isLt, Nat.shiftLeft_eq]
  · have hwhole := h.whole
    rw [hblocks, List.length_append, List.length_singleton]
    rw [List.length_cons] at hwhole
    omega
  · rw [hblocks, hhash, List.append_assoc, List.singleton_append]
    exact h.target

/-- A pushed byte leaves the machine feeding, or it starts a compression. -/
theorem Feeding.push {i : Inputs} (hs : Feeding prefix1 mem target data s)
    (hpush : Pushes prefix1 mem i s) (data' : BitVec 32) :
    (Feeding prefix1 mem target data' (step i s) ∨ Crunching prefix1 mem target (step i s)) ∧
      remaining prefix1 mem (step i s) < remaining prefix1 mem s := by
  have hrest := hs.rest.step (i := i)
  obtain ⟨byte, next, n, hstep, htakes⟩ := hpush
  obtain ⟨pending, hindex, hholds⟩ := hs.holds
  have hlt := s.blockByteIndex.isLt
  rw [htakes.stream] at hholds
  have hleft : remaining prefix1 mem s =
      ((todo prefix1 mem n next).length + 1) * 128 + countdown s := by
    rw [remaining, if_neg hs.phase.2, htakes.stream, List.length_cons]
  have hsame := sameSources_pushByte s n byte next
  have hstream := hsame.todo_eq prefix1 mem next
  have hcount := countdown_lt (step i s)
  rw [hstep] at hrest hcount ⊢
  by_cases hfull : s.blockByteIndex = 127
  · have hpush : pushByte s byte next n = { n with
        blockBuffer := s.blockBuffer.extractLsb' 0 1016 ++ byte
        blockStart := true
        resumeState := next
        state := .compress } := by
      rw [pushByte, if_pos hfull]
    rw [hfull, show (127 : BitVec 7).toNat = 127 from rfl] at hindex
    rw [hpush] at hrest hcount hsame hstream ⊢
    refine ⟨.inr ⟨htakes.same.done, htakes.same.error.trans hs.error, hrest, rfl, .inl rfl,
      htakes.target, hsame.supplied htakes.target htakes.supplied, pending ++ [byte], ?_, ?_⟩, ?_⟩
    · rw [List.length_append, ← hindex, List.length_singleton]
    · show Holds target _ (todo prefix1 mem _ next) _
      rw [hstream]
      exact hholds.push (by omega) htakes.same.blocksRemaining htakes.same.hashState rfl
    · rw [hleft, remaining, if_pos rfl, hstream]
      omega
  · have hpush : pushByte s byte next n = { n with
        blockBuffer := s.blockBuffer.extractLsb' 0 1016 ++ byte
        blockByteIndex := s.blockByteIndex + 1
        state := next } := by
      rw [pushByte, if_neg hfull]
    have hbelow : pending.length + 1 < 128 := by
      have hne : s.blockByteIndex.toNat ≠ 127 := fun h => hfull (BitVec.eq_of_toNat_eq h)
      omega
    rw [hpush] at hrest hcount hsame hstream ⊢
    have hnext : Holds target (pending ++ [byte]) (todo prefix1 mem n next)
        { n with
          blockBuffer := s.blockBuffer.extractLsb' 0 1016 ++ byte
          blockByteIndex := s.blockByteIndex + 1
          state := next } :=
      hholds.push (by omega) htakes.same.blocksRemaining htakes.same.hashState rfl
    -- a block that is not full is not the end of the stream
    have hidle : next ≠ .idle := by
      rintro rfl
      have hwhole := hnext.whole
      rw [List.length_append, List.length_singleton, show todo prefix1 mem n .idle = [] from rfl,
        List.length_nil] at hwhole
      omega
    refine ⟨.inl ⟨htakes.same.done, htakes.same.error.trans hs.error, hrest,
      ⟨hidle, htakes.target.1⟩, hsame.supplied htakes.target htakes.supplied, pending ++ [byte],
      ?_, ?_⟩, ?_⟩
    · show (s.blockByteIndex + 1).toNat = _
      rw [BitVec.toNat_add, hindex, show (1 : BitVec 7).toNat = 1 from rfl, List.length_append,
        List.length_singleton]
      exact Nat.mod_eq_of_lt hbelow
    · show Holds target _ (todo prefix1 mem _ next) _
      rw [hstream]
      exact hnext
    · rw [hleft, remaining, if_neg htakes.target.1, hstream]
      omega

/-- A cycle of a read leaves the block as it is. -/
theorem Feeding.keep (hs : Feeding prefix1 mem target data s) {n : State w} (next : Phase)
    {data' : BitVec 32} (hrest : AtRest n) (hdone : n.done = false) (herror : n.error = s.error)
    (hphase : n.state = next) (hnext : next ≠ .idle ∧ next ≠ .compress)
    (hsource : Source mem data' n next) (hsame : SameSources s n)
    (hstream : todo prefix1 mem s s.state = todo prefix1 mem s next)
    (hindex : n.blockByteIndex = s.blockByteIndex) (hbuffer : n.blockBuffer = s.blockBuffer)
    (hblocks : n.blocksRemaining = s.blocksRemaining) (hhash : n.hashState = s.hashState) :
    Feeding prefix1 mem target data' n ∧
      remaining prefix1 mem n + countdown s = remaining prefix1 mem s + countdown n := by
  subst hphase
  obtain ⟨pending, hpending, hholds⟩ := hs.holds
  refine ⟨⟨hdone, herror.trans hs.error, hrest, hnext, ⟨hsource, fun _ => ?_⟩, pending, ?_, ?_⟩, ?_⟩
  · rw [hsame.lengthBytesLeft]
    exact hs.supplied.length hs.phase.1
  · rw [hindex, hpending]
  · rw [hsame.todo_eq, ← hstream]
    exact ⟨by rw [hbuffer, hholds.buffer], by rw [hblocks, hholds.whole],
      by rw [hblocks, hhash, hholds.target]⟩
  · rw [remaining, remaining, if_neg hnext.2, if_neg hs.phase.2, hsame.todo_eq, ← hstream]
    exact Nat.add_right_comm _ _ _

/-- A cycle of a read that comes closer to the word. -/
theorem Feeding.read (hs : Feeding prefix1 mem target data s) {n : State w} (next : Phase)
    {data' : BitVec 32} (hrest : AtRest n) (hdone : n.done = false) (herror : n.error = s.error)
    (hphase : n.state = next) (hnext : next ≠ .idle ∧ next ≠ .compress)
    (hsource : Source mem data' n next) (hsame : SameSources s n)
    (hstream : todo prefix1 mem s s.state = todo prefix1 mem s next)
    (hindex : n.blockByteIndex = s.blockByteIndex) (hbuffer : n.blockBuffer = s.blockBuffer)
    (hblocks : n.blocksRemaining = s.blocksRemaining) (hhash : n.hashState = s.hashState)
    (hcount : countdown n < countdown s) :
    Feeding prefix1 mem target data' n ∧ remaining prefix1 mem n < remaining prefix1 mem s := by
  obtain ⟨hnextFeeding, hcost⟩ := hs.keep next hrest hdone herror hphase hnext hsource hsame
    hstream hindex hbuffer hblocks hhash
  exact ⟨hnextFeeding, by omega⟩

/-- A request is held until it is granted, which it is at the latest in its second cycle. -/
theorem Feeding.request {i : Bench.Inputs} {b : Bench w}
    (hs : Feeding prefix1 mem target b.msgRdData b.engine) (hphase : b.engine.state = .msgReq) :
    Feeding prefix1 mem target (b.step mem i).msgRdData (b.step mem i).engine ∧
      remaining prefix1 mem (b.step mem i).engine < remaining prefix1 mem b.engine := by
  have hrest := hs.rest.step (i := b.engineInputs i)
  have hsupplied := hs.supplied
  rw [hphase] at hsupplied
  obtain ⟨⟨hleft, haddr⟩, hlength⟩ := hsupplied
  have hstep : Sha512StreamEngine.step (b.engineInputs i) b.engine =
      { entry b.engine with
        msgRdEn := true
        msgRdAddr := b.engine.messageAddr
        state := if i.ready || b.engine.msgRdEn then .msgWait else .msgReq } := by
    rw [step_eq, stepState, hphase]
    rfl
  have hcount : countdown b.engine = if b.engine.msgRdEn then 2 else 3 := by
    rw [countdown, hphase]
  rw [Bench.step]
  rw [hstep] at hrest ⊢
  dsimp only at hrest ⊢
  by_cases hready : (i.ready || b.engine.msgRdEn) = true
  · rw [if_pos hready] at hrest ⊢
    refine hs.read .msgWait hrest rfl rfl rfl (by decide) ⟨hleft, haddr, rfl, rfl⟩
      ⟨rfl, rfl, rfl, rfl, rfl, rfl, rfl, rfl, rfl⟩ (by rw [hphase]; rfl) rfl rfl rfl rfl ?_
    rw [hcount]
    show 1 < _
    split <;> decide
  · have hlow : b.engine.msgRdEn ≠ true := fun h => hready (by rw [h, Bool.or_true])
    rw [if_neg hready] at hrest ⊢
    refine hs.read .msgReq hrest rfl rfl rfl (by decide) ⟨hleft, haddr⟩
      ⟨rfl, rfl, rfl, rfl, rfl, rfl, rfl, rfl, rfl⟩ (by rw [hphase]) rfl rfl rfl rfl ?_
    rw [hcount, if_neg hlow]
    show (2 : ℕ) < 3
    decide

/-- The memory answers while the engine waits. -/
theorem Feeding.wait {i : Bench.Inputs} {b : Bench w}
    (hs : Feeding prefix1 mem target b.msgRdData b.engine) (hphase : b.engine.state = .msgWait) :
    Feeding prefix1 mem target (b.step mem i).msgRdData (b.step mem i).engine ∧
      remaining prefix1 mem (b.step mem i).engine < remaining prefix1 mem b.engine := by
  have hrest := hs.rest.step (i := b.engineInputs i)
  have hsupplied := hs.supplied
  rw [hphase] at hsupplied
  obtain ⟨⟨hleft, haddr, hen, haddr'⟩, hlength⟩ := hsupplied
  have hstep : Sha512StreamEngine.step (b.engineInputs i) b.engine =
      { entry b.engine with state := .msgLatch } := by
    rw [step_eq, stepState, hphase]
  rw [Bench.step]
  rw [hstep] at hrest ⊢
  refine hs.read .msgLatch hrest rfl rfl rfl (by decide) ⟨hleft, haddr, ?_⟩
    ⟨rfl, rfl, rfl, rfl, rfl, rfl, rfl, rfl, rfl⟩ (by rw [hphase]; rfl) rfl rfl rfl rfl ?_
  · rw [if_pos hen, haddr']
    rfl
  · rw [show countdown b.engine = 1 by rw [countdown, hphase]]
    exact Nat.one_pos

/-- One cycle while the engine feeds. -/
theorem Feeding.step {i : Bench.Inputs} {b : Bench w} (hw : 2 ≤ w) (hheld : i.prefix1 = prefix1)
    (hs : Feeding prefix1 mem target b.msgRdData b.engine) :
    (Feeding prefix1 mem target (b.step mem i).msgRdData (b.step mem i).engine ∨
      Crunching prefix1 mem target (b.step mem i).engine) ∧
      remaining prefix1 mem (b.step mem i).engine < remaining prefix1 mem b.engine := by
  by_cases hreq : b.engine.state = .msgReq
  · exact (hs.request hreq).imp_left .inl
  by_cases hwait : b.engine.state = .msgWait
  · exact (hs.wait hwait).imp_left .inl
  · exact hs.push (step_takes hw ⟨hs.phase.1, hs.phase.2, hreq, hwait⟩ hs.supplied hheld) _

/-- A cycle of a compression whose result is not there yet. -/
theorem Crunches.entry (hs : Crunches s) (hrest : AtRest s) (hphase : s.state = .compress)
    (hdone : s.blockCore.done = false) :
    Crunches (entry s) ∧ countdown (Sha512StreamEngine.entry s) < countdown s := by
  have hafter : countdown (Sha512StreamEngine.entry s) =
      if (Sha512StreamEngine.entry s).blockCore.done then 5
      else 85 - (Sha512StreamEngine.entry s).blockCore.roundIndex.toNat := by
    rw [countdown, show (Sha512StreamEngine.entry s).state = .compress from hphase]
    rfl
  have hbefore : countdown s =
      if s.blockStart then 86 else 85 - s.blockCore.roundIndex.toNat := by
    rw [countdown, hphase, hdone, if_neg Bool.false_ne_true]
  rcases hs with hstart | ⟨hstart, ⟨t, ht, hcore⟩ | hcore⟩
  · have hnext : Compressing s.hashState s.blockBuffer 0 (Sha512StreamEngine.entry s).blockCore :=
      Sha512CompressCore.compressing_of_start (i := ⟨s.blockStart, s.hashState, s.blockBuffer⟩)
        (hrest.starting hstart).1 hstart
    refine ⟨.inr ⟨rfl, .inl ⟨0, by decide, hnext⟩⟩, ?_⟩
    rw [hafter, hbefore, hnext.done, hnext.index, if_neg Bool.false_ne_true, if_pos hstart]
    decide
  · rw [hbefore, hstart, if_neg Bool.false_ne_true, hcore.index]
    by_cases hlast : t = 79
    · subst hlast
      have hnext : Compressed s.hashState s.blockBuffer (Sha512StreamEngine.entry s).blockCore :=
        hcore.last rfl
      refine ⟨.inr ⟨rfl, .inr hnext⟩, ?_⟩
      rw [hafter, hnext.done, if_pos rfl]
      decide
    · have hnext : Compressing s.hashState s.blockBuffer (t + 1)
          (Sha512StreamEngine.entry s).blockCore := hcore.step (by omega)
      refine ⟨.inr ⟨rfl, .inl ⟨t + 1, by omega, hnext⟩⟩, ?_⟩
      rw [hafter, hnext.done, hnext.index, if_neg Bool.false_ne_true]
      omega
  · exact absurd (hdone.symm.trans hcore.done) Bool.false_ne_true

/-- The digest is on the output. -/
structure Finished (target : Sha512.Words) (s : State w) : Prop where
  done : s.done = true
  error : s.error = false
  digestOut : s.digestOut = target.toBits

/-- The result of a compression is the chaining value after the block. -/
theorem Crunching.absorbed (hs : Crunching prefix1 mem target s) (hdone : s.blockCore.done = true) :
    ∃ n, s.blocksRemaining.toNat = n + 1 ∧
      (todo prefix1 mem s s.resumeState).length = 128 * n ∧
      Sha512.absorb n (unpack s.blockCore.hOut) (todo prefix1 mem s s.resumeState) = target ∧
      s.blockCore.hOut = (unpack s.blockCore.hOut).toBits := by
  have hcore : Compressed s.hashState s.blockBuffer s.blockCore := by
    rcases hs.core with hstart | ⟨-, ⟨t, -, hcore⟩ | hcore⟩
    · exact absurd ((hs.rest.starting hstart).2.symm.trans hdone) Bool.false_ne_true
    · exact absurd (hcore.done.symm.trans hdone) Bool.false_ne_true
    · exact hcore
  have hout : unpack s.blockCore.hOut = Sha512.compress (unpack s.hashState) s.blockBuffer := by
    rw [hcore.hOut, Sha512CompressCore.unpack_toBits]
  obtain ⟨pending, hlength, hholds⟩ := hs.holds
  have hwhole := hholds.whole
  have htarget := hholds.target
  obtain ⟨n, hn⟩ : ∃ n, s.blocksRemaining.toNat = n + 1 :=
    Nat.exists_eq_succ_of_ne_zero (by omega)
  have hblock : BitVec.ofNat 1024 (Sha512.value pending) = s.blockBuffer := by
    rw [← hholds.buffer, BitVec.ofNat_toNat, BitVec.setWidth_eq]
  rw [hn, Sha512.absorb_block hlength, hblock, ← hout] at htarget
  exact ⟨n, hn, by omega, htarget, by rw [hout, hcore.hOut]⟩

theorem Crunching.remaining_eq (hs : Crunching prefix1 mem target s) :
    remaining prefix1 mem s = (todo prefix1 mem s s.resumeState).length * 128 + countdown s := by
  rw [remaining, if_pos hs.phase]

/-- The cycle after the last block. -/
theorem Crunching.finish {i : Inputs} (hs : Crunching prefix1 mem target s)
    (hdone : s.blockCore.done = true) (hlast : s.blocksRemaining = 1) :
    Finished target (step i s) := by
  obtain ⟨n, hn, hlength, htarget, hbits⟩ := hs.absorbed hdone
  have hzero : n = 0 := by
    rw [hlast, show (1 : BitVec 32).toNat = 1 from rfl] at hn
    omega
  subst hzero
  have hstep : step i s = { entry s with
      hashState := s.blockCore.hOut
      blockBuffer := 0
      blockByteIndex := 0
      digestOut := s.blockCore.hOut
      busy := false
      done := true
      error := false
      state := .idle } := by
    rw [step_eq, stepState, hs.phase]
    dsimp only
    rw [if_pos hdone, if_pos hlast]
  rw [hstep]
  refine ⟨rfl, rfl, ?_⟩
  rw [← htarget]
  exact hbits

/-- After any other block the machine feeds again, where it was interrupted. -/
theorem Crunching.resume_feeding {i : Inputs} (hs : Crunching prefix1 mem target s)
    (hdone : s.blockCore.done = true) (hlast : s.blocksRemaining ≠ 1) (data' : BitVec 32) :
    Feeding prefix1 mem target data' (Sha512StreamEngine.step i s) ∧
      remaining prefix1 mem (Sha512StreamEngine.step i s) < remaining prefix1 mem s := by
  have hrest := hs.rest.step (i := i)
  obtain ⟨n, hn, hlength, htarget, -⟩ := hs.absorbed hdone
  have hmore : s.resumeState ≠ .idle := by
    intro hidle
    rw [hidle, show todo prefix1 mem s .idle = [] from rfl, List.length_nil] at hlength
    apply hlast
    apply BitVec.eq_of_toNat_eq
    rw [hn, show (1 : BitVec 32).toNat = 1 from rfl]
    omega
  have hblocks : (s.blocksRemaining - 1).toNat = n := by
    have hsub := toNat_sub_one (x := s.blocksRemaining) (by omega)
    omega
  have hcount : countdown s = 5 := by
    have hstart : s.blockStart ≠ true := fun hstart =>
      Bool.false_ne_true ((hs.rest.starting hstart).2.symm.trans hdone)
    rw [countdown, hs.phase]
    dsimp only
    rw [if_neg hstart, if_pos hdone]
  have hstep : Sha512StreamEngine.step i s = { entry s with
      hashState := s.blockCore.hOut
      blockBuffer := 0
      blockByteIndex := 0
      blocksRemaining := s.blocksRemaining - 1
      state := s.resumeState } := by
    rw [step_eq, stepState, hs.phase]
    dsimp only
    rw [if_pos hdone, if_neg hlast]
  have hsame : SameSources s (Sha512StreamEngine.step i s) := by
    rw [hstep]
    exact ⟨rfl, rfl, rfl, rfl, rfl, rfl, rfl, rfl, rfl⟩
  have hphase : (Sha512StreamEngine.step i s).state = s.resumeState := by rw [hstep]
  have hstream := hsame.todo_eq prefix1 mem s.resumeState
  have hholds : Holds target [] (todo prefix1 mem s s.resumeState)
      (Sha512StreamEngine.step i s) := by
    rw [hstep]
    refine ⟨BitVec.toNat_zero, ?_, ?_⟩
    · dsimp only
      rw [hblocks, hlength]
      exact Nat.zero_add _
    · dsimp only
      rw [hblocks]
      exact htarget
  have hlow : countdown (Sha512StreamEngine.step i s) ≤ 3 := by
    unfold countdown
    rw [hphase]
    split
    · next heq => exact absurd heq hs.resume.1
    · split <;> decide
    · decide
    · decide
  refine ⟨⟨by rw [hstep]; rfl, by rw [hstep]; exact hs.error, hrest, ?_, ?_, [], ?_, ?_⟩, ?_⟩
  · rw [hphase]
    exact ⟨hmore, hs.resume.1⟩
  · rw [hphase]
    exact hsame.supplied hs.resume hs.supplied
  · rw [hstep]
    rfl
  · rw [hphase, hstream]
    exact hholds
  · rw [hs.remaining_eq, remaining, hphase, if_neg hs.resume.1, hstream, hcount]
    omega

/-- The other cycles of a compression. -/
theorem Crunching.wait {i : Inputs} (hs : Crunching prefix1 mem target s)
    (hdone : s.blockCore.done = false) :
    Crunching prefix1 mem target (Sha512StreamEngine.step i s) ∧
      remaining prefix1 mem (Sha512StreamEngine.step i s) < remaining prefix1 mem s := by
  have hrest := hs.rest.step (i := i)
  have hstep : Sha512StreamEngine.step i s = entry s := by
    rw [step_eq, stepState, hs.phase, hdone]
    rfl
  have hsame : SameSources s (entry s) := ⟨rfl, rfl, rfl, rfl, rfl, rfl, rfl, rfl, rfl⟩
  have hstream : todo prefix1 mem (entry s) (entry s).resumeState =
    todo prefix1 mem s s.resumeState := hsame.todo_eq _ _ _
  obtain ⟨hcore, hcount⟩ := hs.core.entry hs.rest hs.phase hdone
  obtain ⟨pending, hlength, hholds⟩ := hs.holds
  rw [hstep] at hrest ⊢
  have hnext : Crunching prefix1 mem target (entry s) := by
    refine ⟨rfl, hs.error, hrest, hs.phase, hcore, hs.resume,
      hsame.supplied hs.resume hs.supplied, pending, hlength, ?_⟩
    rw [hstream]
    exact ⟨hholds.buffer, hholds.whole, hholds.target⟩
  refine ⟨hnext, ?_⟩
  rw [hs.remaining_eq, hnext.remaining_eq, hstream]
  exact Nat.add_lt_add_left hcount _

/-- One cycle of a compression. -/
theorem Crunching.step {i : Inputs} (hs : Crunching prefix1 mem target s) (data' : BitVec 32) :
    Finished target (Sha512StreamEngine.step i s) ∨
      (Feeding prefix1 mem target data' (Sha512StreamEngine.step i s) ∨
        Crunching prefix1 mem target (Sha512StreamEngine.step i s)) ∧
        remaining prefix1 mem (Sha512StreamEngine.step i s) < remaining prefix1 mem s := by
  cases hdone : s.blockCore.done with
  | false => exact .inr ((hs.wait hdone).imp_left .inr)
  | true =>
      by_cases hlast : s.blocksRemaining = 1
      · exact .inl (hs.finish hdone hlast)
      · exact .inr ((hs.resume_feeding hdone hlast data').imp_left .inl)

/-! ### The padding -/

theorem rawTotalCalc_toNat (length : BitVec 16) :
    (rawTotalCalc length).toNat = 64 + length.toNat := by
  have hlt := length.isLt
  rw [rawTotalCalc, BitVec.toNat_add, BitVec.toNat_setWidth, show (64 : BitVec 32).toNat = 64 from rfl]
  omega

/-- The padded length. -/
theorem paddedTotalCalc_toNat (length : BitVec 16) :
    (paddedTotalCalc length).toNat =
      64 + length.toNat + 17 + Sha512.zeroBytes (64 + length.toNat) := by
  have hlt := length.isLt
  have hraw := rawTotalCalc_toNat length
  have hblocks : ((rawTotalCalc length).extractLsb' 7 25 ++ (0 : BitVec 7)).toNat =
      (64 + length.toNat) / 128 * 128 := by
    rw [BitVec.toNat_append, BitVec.extractLsb'_toNat, hraw, Nat.shiftRight_eq_div_pow,
      show (0 : BitVec 7).toNat = 0 from rfl, Nat.or_zero, Nat.shiftLeft_eq]
    omega
  have hlow : (rawTotalCalc length).extractLsb' 0 7 ≤ 111 ↔ (64 + length.toNat) % 128 ≤ 111 := by
    rw [BitVec.le_def, BitVec.extractLsb'_toNat, hraw]
    rfl
  unfold paddedTotalCalc Sha512.zeroBytes
  dsimp only
  by_cases hfits : (64 + length.toNat) % 128 ≤ 111
  · rw [if_pos (hlow.mpr hfits), BitVec.toNat_add, hblocks, show (128 : BitVec 32).toNat = 128 from rfl]
    omega
  · rw [if_neg fun h => hfits (hlow.mp h), BitVec.toNat_add, hblocks,
      show (256 : BitVec 32).toNat = 256 from rfl]
    omega

/-- The zeros cover the upper half of the length field too. -/
theorem zeroPad_toNat (length : BitVec 16) :
    (paddedTotalCalc length - rawTotalCalc length - 9).toNat =
      Sha512.zeroBytes (64 + length.toNat) + 8 := by
  have hlt := length.isLt
  rw [BitVec.toNat_sub, BitVec.toNat_sub, paddedTotalCalc_toNat, rawTotalCalc_toNat,
    show (9 : BitVec 32).toNat = 9 from rfl]
  unfold Sha512.zeroBytes
  omega

theorem lengthShift_toNat (length : BitVec 16) :
    (((64 : BitVec 64) + length.setWidth 64) <<< 3).toNat = 8 * (64 + length.toNat) := by
  have hlt := length.isLt
  rw [BitVec.toNat_shiftLeft, BitVec.toNat_add, BitVec.toNat_setWidth,
    show (64 : BitVec 64).toNat = 64 from rfl, Nat.shiftLeft_eq]
  omega

/-- A length below `2 ^ 64` has eight zero bytes in front. -/
theorem lengthBytes_eq (x : BitVec 64) :
    Sha512.lengthBytes x.toNat = List.replicate 8 0 ++ lengthTail 8 x := by
  have hlt := x.isLt
  rw [Sha512.lengthBytes, show List.range 16 = List.range 8 ++ (List.range 8).map (8 + ·) from rfl,
    List.map_append, List.map_map, lengthTail_eq le_rfl]
  congr 1
  · rw [show List.replicate 8 (0 : BitVec 8) = (List.range 8).map fun _ => 0 from rfl]
    apply List.map_congr_left
    intro k hk
    have hk := List.mem_range.mp hk
    have hbig : x.toNat < 256 ^ (15 - k) :=
      calc x.toNat < 256 ^ 8 := hlt
        _ ≤ 256 ^ (15 - k) := Nat.pow_le_pow_right (by decide) (by omega)
    rw [Nat.div_eq_of_lt hbig]
    rfl
  · apply List.map_congr_left
    intro k hk
    have hk := List.mem_range.mp hk
    apply BitVec.eq_of_toNat_eq
    rw [Function.comp_apply, BitVec.toNat_ofNat, BitVec.extractLsb'_toNat,
      Nat.shiftRight_eq_div_pow, show 56 - 8 * k = 8 * (7 - k) by omega, pow_mul,
      show 15 - (8 + k) = 7 - k by omega]
    rfl

theorem length_hashInput (mem : BitVec (w - 2) → BitVec 32) (prefix0 prefix1 : BitVec 256)
    (length : ℕ) : (hashInput mem prefix0 prefix1 length).length = 64 + length := by
  simp only [hashInput, littleEndian, messageBytes, List.length_append, List.length_map,
    List.length_range]

/-! ### A whole run -/

/-- The lengths that are too long. -/
theorem tooLong_iff (hw : w < 32) (length : BitVec 16) :
    length.setWidth 32 > maxMessageBytes w ↔ 2 ^ w < length.toNat := by
  have hlt := length.isLt
  have hmax : (maxMessageBytes w).toNat = 2 ^ w := by
    rw [maxMessageBytes, BitVec.natCast_eq_ofNat, BitVec.toNat_ofNat, Nat.one_shiftLeft]
    exact Nat.mod_eq_of_lt (Nat.pow_lt_pow_right (by decide) hw)
  rw [gt_iff_lt, BitVec.lt_def, hmax, BitVec.toNat_setWidth, Nat.mod_eq_of_lt (by omega)]

/-- A start with a length that fits. -/
theorem step_load (hw : w < 32) (hidle : s.state = .idle) (hstart : i.start = true)
    (hfits : i.messageLength.toNat ≤ 2 ^ w) :
    step i s = { entry s with
      totalPaddedBytes := paddedTotalCalc i.messageLength
      blocksRemaining := paddedTotalCalc i.messageLength >>> 7
      blockByteIndex := 0
      blockBuffer := 0
      hashState := sha512Iv
      prefixShift := i.prefix0
      prefixBytesLeft := 32
      messageBytesLeft := i.messageLength
      zeroPadBytesLeft := paddedTotalCalc i.messageLength - rawTotalCalc i.messageLength - 9
      lengthShift := (64 + i.messageLength.setWidth 64) <<< 3
      lengthBytesLeft := 8
      messageAddr := 0
      busy := true
      error := false
      msgWordBuf := 0
      msgByteSel := 0
      state := .prefix0 } := by
  rw [step_eq, stepState, hidle]
  dsimp only
  rw [if_pos hstart, load, if_neg fun h => Nat.not_lt_of_le hfits ((tooLong_iff hw _).mp h)]

/-- The stream that a start loads is the padded message. -/
theorem todo_load (mem : BitVec (w - 2) → BitVec 32) (hw : w < 32) (hidle : s.state = .idle) (hstart : i.start = true)
    (hfits : i.messageLength.toNat ≤ 2 ^ w) :
    todo i.prefix1 mem (step i s) .prefix0 =
      Sha512.pad (hashInput mem i.prefix0 i.prefix1 i.messageLength.toNat) := by
  rw [step_load hw hidle hstart hfits, Sha512.pad, length_hashInput]
  dsimp only [todo, messageAndPadding, zerosAndLength]
  rw [zeroPad_toNat, show (32 : BitVec 6).toNat = 32 from rfl, show (8 : BitVec 4).toNat = 8 from rfl,
    ← lengthShift_toNat, lengthBytes_eq, prefixBytes_eq, prefixBytes_eq, memoryBytes_eq,
    List.replicate_add]
  have hzero : ∀ k, (0 : BitVec w) + BitVec.ofNat w k = BitVec.ofNat w k :=
    fun k => BitVec.zero_add _
  simp only [hashInput, littleEndian, messageBytes, List.append_assoc, hzero]

/-- From the start on the engine feeds the padded message. -/
theorem feeding_of_load (hw : w < 32) (hrest : AtRest s) (hidle : s.state = .idle)
    (hstart : i.start = true) (hfits : i.messageLength.toNat ≤ 2 ^ w) (data' : BitVec 32) :
    ∃ target : Sha512.Words,
      target.toBits = Sha512.hash (hashInput mem i.prefix0 i.prefix1 i.messageLength.toNat) ∧
        Feeding i.prefix1 mem target data' (Sha512StreamEngine.step i s) := by
  have hrest := hrest.step (i := i)
  have hstream := todo_load mem hw hidle hstart hfits
  have hstep := step_load hw hidle hstart hfits
  have hlength := Sha512.length_pad (hashInput mem i.prefix0 i.prefix1 i.messageLength.toNat)
  have hwhole := Sha512.length_pad_mod (hashInput mem i.prefix0 i.prefix1 i.messageLength.toNat)
  rw [length_hashInput] at hlength
  have hblocks : (step i s).blocksRemaining.toNat =
      (Sha512.pad (hashInput mem i.prefix0 i.prefix1 i.messageLength.toNat)).length / 128 := by
    rw [hstep, hlength]
    dsimp only
    rw [BitVec.toNat_ushiftRight, paddedTotalCalc_toNat, Nat.shiftRight_eq_div_pow]
  refine ⟨_, rfl, ?_, ?_, hrest, ?_, ?_, [], ?_, ?_, ?_, ?_⟩
  · rw [hstep]
    rfl
  · rw [hstep]
  · rw [show (step i s).state = .prefix0 by rw [hstep]]
    decide
  · rw [hstep]
    exact ⟨⟨Nat.succ_pos 31, rfl⟩, fun _ => Nat.succ_pos 7⟩
  · rw [hstep]
    rfl
  · rw [hstep]
    exact BitVec.toNat_zero
  · rw [hblocks, show (step i s).state = .prefix0 by rw [hstep], hstream, List.length_nil]
    omega
  · rw [hblocks, show (step i s).state = .prefix0 by rw [hstep], hstream, List.nil_append,
      show (step i s).hashState = sha512Iv by rw [hstep],
      show unpack sha512Iv = Sha512.initial by decide]

/-! ### The digest -/

/-- The engine on its bench next shows `done` with this `error` and this digest. -/
def Bench.Concludes (mem : BitVec (w - 2) → BitVec 32) (inputs : ℕ → Bench.Inputs) (b : Bench w)
    (error : Bool) (digest : BitVec 512) : ℕ → Prop := fun n =>
  0 < n ∧ (∀ m, 0 < m → m < n → (Clocked.run (Bench.step mem) inputs b m).engine.done = false) ∧
    (Clocked.run (Bench.step mem) inputs b n).engine.done = true ∧
    (Clocked.run (Bench.step mem) inputs b n).engine.error = error ∧
    (Clocked.run (Bench.step mem) inputs b n).engine.digestOut = digest

/-- A hash that is too long. -/
theorem step_refuse (hw : w < 32) (hidle : s.state = .idle) (hstart : i.start = true)
    (hlong : 2 ^ w < i.messageLength.toNat) :
    step i s = { entry s with
      busy := false
      done := true
      error := true
      digestOut := 0
      state := .idle } := by
  rw [step_eq, stepState, hidle]
  dsimp only
  rw [if_pos hstart, load, if_pos ((tooLong_iff hw _).mpr hlong)]

/-- A run in the middle of a hash. -/
def Working (prefix1 : BitVec 256) (mem : BitVec (w - 2) → BitVec 32) (target : Sha512.Words)
    (b : Bench w) : Prop :=
  Feeding prefix1 mem target b.msgRdData b.engine ∨ Crunching prefix1 mem target b.engine

theorem Working.done {b : Bench w} (h : Working prefix1 mem target b) : b.engine.done = false := by
  rcases h with h | h
  · exact h.done
  · exact h.done

theorem Working.step {j : Bench.Inputs} {b : Bench w} (hw : 2 ≤ w) (hheld : j.prefix1 = prefix1)
    (h : Working prefix1 mem target b) :
    Finished target (b.step mem j).engine ∨
      Working prefix1 mem target (b.step mem j) ∧
        remaining prefix1 mem (b.step mem j).engine < remaining prefix1 mem b.engine := by
  rcases h with h | h
  · exact .inr (h.step hw hheld)
  · exact h.step _

/-- A hash that has begun ends with its digest. -/
theorem Working.concludes {inputs : ℕ → Bench.Inputs} {b : Bench w} (hw : 2 ≤ w)
    (hheld : ∀ k, (inputs k).prefix1 = prefix1)
    (h : Working prefix1 mem target (b.step mem (inputs 0))) :
    ∃ n, Bench.Concludes mem inputs b false target.toBits n := by
  have hend := @Clocked.run_until _ (Bench w) (Bench.step mem) (fun k => inputs (k + 1))
    (b.step mem (inputs 0)) ℕ _ _ (fun j => j.prefix1 = prefix1) (Working prefix1 mem target)
    (fun c => Finished target c.engine) (fun c => remaining prefix1 mem c.engine)
    (fun _ _ hok hinv => hinv.step hw hok) (fun k => hheld (k + 1)) h
  obtain ⟨n, hfinished, hworking⟩ := hend
  rw [← Clocked.run_succ'] at hfinished
  refine ⟨n + 2, Nat.succ_pos _, fun m hpos hlt => ?_, hfinished.done, hfinished.error,
    hfinished.digestOut⟩
  obtain ⟨m, rfl⟩ := Nat.exists_eq_succ_of_ne_zero (Nat.ne_of_gt hpos)
  rw [Clocked.run_succ']
  exact (hworking m (by omega)).done

/-- Every start ends: with the digest, or with an error before any word is read.  The width
leaves room for `message_addr[1:0]`, and for `1 << MESSAGE_ADDR_WIDTH` in 32 bits. -/
theorem digest_correct (hlow : 2 ≤ w) (hhigh : w < 32) (mem : BitVec (w - 2) → BitVec 32)
    (prefix1 : BitVec 256) (inputs : ℕ → Bench.Inputs) (b : Bench w)
    (hheld : ∀ k, (inputs k).prefix1 = prefix1) (hreach : Reachable b.engine)
    (hidle : b.engine.state = .idle) (hstart : (inputs 0).start = true) :
    ((inputs 0).messageLength.toNat ≤ 2 ^ w →
      ∃ n, Bench.Concludes mem inputs b false
        (Sha512.hash (hashInput mem (inputs 0).prefix0 prefix1 (inputs 0).messageLength.toNat)) n) ∧
    (2 ^ w < (inputs 0).messageLength.toNat →
      Bench.Concludes mem inputs b true 0 1 ∧
        ∀ m ≤ 1, (Clocked.run (Bench.step mem) inputs b m).engine.msgRdEn = false) := by
  have hrest := hreach.atRest
  constructor
  · intro hfits
    obtain ⟨target, htarget, hfeeding⟩ := @feeding_of_load w (b.engineInputs (inputs 0)) b.engine
      mem hhigh hrest hidle hstart hfits (b.step mem (inputs 0)).msgRdData
    rw [show (b.engineInputs (inputs 0)).prefix1 = prefix1 from hheld 0] at htarget hfeeding
    have hconcludes := Working.concludes hlow hheld (.inl hfeeding)
    rw [htarget] at hconcludes
    exact hconcludes
  · intro hlong
    have hstep := step_refuse (i := b.engineInputs (inputs 0)) hhigh hidle hstart hlong
    have hfirst : (Clocked.run (Bench.step mem) inputs b 1).engine = _ := hstep
    refine ⟨⟨Nat.one_pos, fun m hpos hlt => by omega, ?_, ?_, ?_⟩, ?_⟩
    · rw [hfirst]
    · rw [hfirst]
    · rw [hfirst]
    · intro m hm
      rcases Nat.le_one_iff_eq_zero_or_eq_one.mp hm with rfl | rfl
      · by_contra hreq
        rw [Bool.not_eq_false] at hreq
        rcases hrest.request hreq with h | h
        · exact absurd (hidle.symm.trans h) (by decide)
        · exact absurd (hidle.symm.trans h) (by decide)
      · rw [hfirst]
        rfl

/-- Three bytes after power-on on a device, and one byte too many on a small memory. -/
theorem digest_correct_small :
    (∃ n, Bench.Concludes (w := 12) (fun _ => 0x00636261) (fun _ => ⟨true, 1, 2, 3, false, 0⟩)
      ⟨reset Sha512CompressCore.reset, 0⟩ false
      (Sha512.hash (littleEndian 1 ++ littleEndian 2 ++ [0x61, 0x62, 0x63])) n) ∧
    Bench.Concludes (w := 4) (fun _ => 0) (fun _ => ⟨true, 1, 2, 17, true, 0⟩)
      ⟨reset Sha512CompressCore.reset, 0⟩ true 0 1 :=
  ⟨(digest_correct (w := 12) (by decide) (by decide) _ 2 _ _ (fun _ => rfl)
      ⟨fun _ => (false, ⟨false, 0, 0, 0, false, 0⟩), 0, rfl⟩ rfl rfl).1 (by decide),
    ((digest_correct (w := 4) (by decide) (by decide) _ 2 _ _ (fun _ => rfl)
      ⟨fun _ => (false, ⟨false, 0, 0, 0, false, 0⟩), 0, rfl⟩ rfl rfl).2 (by decide)).1⟩

end Sha512StreamEngine

end Kv260Sigv
