import Kv260Sigv.Rtl.Ed25519BasepointTable
import Kv260Sigv.Rtl.ScalarReduceModL
import Kv260Sigv.Rtl.ScalarWnaf4Recode
import Kv260Sigv.Rtl.Sha512StreamEngine

/-!
# `ed25519_verify_engine`

The controller of a verification and its four sub-engines: it decompresses key and
nonce, hashes, reduces, recodes both scalars, tabulates the odd multiples of the key,
runs the joint double-and-add and compares with the nonce.  Each sub-engine is started
by a pulse and answers with one.
-/

set_option autoImplicit false

namespace Kv260Sigv

namespace Ed25519VerifyEngine

/-- `ST_IDLE .. ST_DONE`. -/
inductive Phase where
  | idle
  | decAStart | decAWait | decRStart | decRWait
  | hashStart | hashWait
  | reduceStart | reduceWait
  | recodeSStart | recodeSWait | recodeKStart | recodeKWait
  | oddA2DblStart | oddA2DblWait | oddA3AddStart | oddA3AddWait
  | oddA5AddStart | oddA5AddWait | oddA7AddStart | oddA7AddWait
  | jointInit | jointDblStart | jointDblWait | jointAddAStart | jointAddAWait
  | jointAddBStart | jointAddBWait | jointNext
  | finalEqStart | finalEqWait | finalCofDblStart | finalCofDblWait
  | done
  deriving DecidableEq, Repr

/-- `PHASE_NONE .. PHASE_FINALIZE`. -/
inductive PerfPhase where
  | none | control | decode | hash | reduce | precompute | joint | finalize
  deriving DecidableEq, Repr

/-- `perf_total_cycles .. perf_finalize_cycles`. -/
structure PerfCycles where
  total : BitVec 32
  control : BitVec 32
  decode : BitVec 32
  hash : BitVec 32
  reduce : BitVec 32
  precompute : BitVec 32
  joint : BitVec 32
  finalize : BitVec 32

/-- The registers, those of the sub-engines among them. -/
structure State (M : Multiplier) (w : ℕ := 12) where
  state : Phase
  busy : Bool
  done : Bool
  verified : Bool
  perf : PerfCycles
  lastActivePhase : PerfPhase
  pubkeyReg : BitVec 256
  sigRReg : BitVec 256
  sScalar : BitVec 256
  kScalar : BitVec 256
  cofactorDoubleCount : BitVec 2
  baseWindowValue : BitVec 4
  a : ExtPoint
  a2 : ExtPoint
  a3 : ExtPoint
  a5 : ExtPoint
  a7 : ExtPoint
  r : ExtPoint
  work : ExtPoint
  acc : ExtPoint
  sWnafPacked : BitVec 1024
  kWnafPacked : BitVec 1024
  jointBitIndex : BitVec 8
  currentSDigit : BitVec 4
  currentKDigit : BitVec 4
  pointStartReg : Bool
  pointOpReg : BitVec 2
  pointEncodedReg : BitVec 256
  pointAReg : ExtPoint
  pointBReg : ExtPoint
  hashStartReg : Bool
  reduceStartReg : Bool
  recodeStartReg : Bool
  recodeScalarReg : BitVec 256
  regSelBase : ExtPoint
  regSelA : ExtPoint
  pointCore : Ed25519PointCore.State M
  hashEngine : Sha512StreamEngine.State w
  reduceEngine : ScalarReduceModL.State
  recodeEngine : ScalarWnaf4Recode.State

/-- The inputs of a cycle. -/
structure Inputs where
  rstN : Bool
  abort : Bool
  start : Bool
  messageLength : BitVec 16
  pubkeyRaw : BitVec 256
  signatureRRaw : BitVec 256
  signatureSRaw : BitVec 256
  verifyMode : BitVec 2
  msgRdReady : Bool
  msgRdData : BitVec 32

/-! ### Functions of the source -/

/-- `VERIFY_MODE_STRICT`. -/
def verifyModeStrict : BitVec 2 := 0

/-- `VERIFY_MODE_AGAVE_ZEBRA`. -/
def verifyModeAgaveZebra : BitVec 2 := 1

/-- `fe_neg_mod_p`. -/
def feNegModP (a : BitVec 255) : BitVec 255 := if a = 0 then 0 else BitVec.ofNat 255 fieldP - a

/-- `unpack_wnaf_digit`. -/
def unpackWnafDigit (packed : BitVec 1024) (bitIndex : BitVec 8) : BitVec 4 :=
  packed.extractLsb' (4 * bitIndex.toNat) 4

/-- `packed[{index, 2'b00} +: 4] <= digit`. -/
def packWnafDigit (packed : BitVec 1024) (index : BitVec 8) (digit : BitVec 4) : BitVec 1024 :=
  packed &&& ~~~((0xF : BitVec 1024) <<< (4 * index.toNat)) |||
    digit.setWidth 1024 <<< (4 * index.toNat)

/-- `digit_abs`. -/
def digitAbs (digit : BitVec 4) : BitVec 4 := if digit.getLsbD 3 then ~~~digit + 1 else digit

/-- `canonicalize_encoded_point`. -/
def canonicalizeEncodedPoint (encoded : BitVec 256) : BitVec 256 :=
  let yValue : BitVec 256 := (encoded.setWidth 255).setWidth 256
  let yValue :=
    if BitVec.ofNat 256 fieldP ≤ yValue then yValue - BitVec.ofNat 256 fieldP else yValue
  encoded.extractLsb' 255 1 ++ yValue.setWidth 255

/-- The encodings `point_encoding_is_small_order` lists. -/
def smallOrderEncodings : List (BitVec 256) :=
  [0x0000000000000000000000000000000000000000000000000000000000000001,
    0x7a03ac9277fdc74ec6cc392cfa53202a0f67100d760b3cba4fd84d3d706a17c7,
    0x8000000000000000000000000000000000000000000000000000000000000000,
    0x05fc536d880238b13933c6d305acdfd5f098eff289f4c345b027b2c28f95e826,
    0x7fffffffffffffffffffffffffffffffffffffffffffffffffffffffffffffec,
    0x85fc536d880238b13933c6d305acdfd5f098eff289f4c345b027b2c28f95e826,
    0x0000000000000000000000000000000000000000000000000000000000000000,
    0xfa03ac9277fdc74ec6cc392cfa53202a0f67100d760b3cba4fd84d3d706a17c7]

/-- `point_encoding_is_small_order`. -/
def pointEncodingIsSmallOrder (encoded : BitVec 256) : Bool :=
  smallOrderEncodings.contains (canonicalizeEncodedPoint encoded)

/-- `point_is_identity`. -/
def pointIsIdentity (p : ExtPoint) : Bool := p.x = 0 && p.t = 0 && p.y = p.z

/-- `phase_for_state`. -/
def phaseForState : Phase → PerfPhase
  | .decAStart | .decAWait | .decRStart | .decRWait => .decode
  | .hashStart | .hashWait => .hash
  | .reduceStart | .reduceWait
  | .recodeSStart | .recodeSWait | .recodeKStart | .recodeKWait => .reduce
  | .oddA2DblStart | .oddA2DblWait | .oddA3AddStart | .oddA3AddWait
  | .oddA5AddStart | .oddA5AddWait | .oddA7AddStart | .oddA7AddWait => .precompute
  | .jointInit | .jointDblStart | .jointDblWait | .jointAddAStart | .jointAddAWait
  | .jointAddBStart | .jointAddBWait | .jointNext => .joint
  | .finalEqStart | .finalEqWait | .finalCofDblStart | .finalCofDblWait => .finalize
  | .idle | .done => .none

/-! ### Wires -/

variable {M : Multiplier} {w : ℕ}

/-- `verify_mode_agave_zebra`. -/
def Inputs.agaveZebra (i : Inputs) : Bool := i.verifyMode = verifyModeAgaveZebra

/-- `engine_rst_n`. -/
def Inputs.engineRstN (i : Inputs) : Bool := i.rstN && !i.abort

/-- `counted_phase`. -/
def countedPhase (s : State M w) : PerfPhase :=
  if s.state = .done then
    if s.lastActivePhase = .none then .control else s.lastActivePhase
  else phaseForState s.state

/-- `point_done`. -/
def State.pointDone (s : State M w) : Bool := s.pointCore.regs.done

/-- `point_out_x .. point_out_t`. -/
def State.pointOut (s : State M w) : ExtPoint := s.pointCore.regs.out

/-- `next_s_digit`. -/
def State.nextSDigit (s : State M w) : BitVec 4 := unpackWnafDigit s.sWnafPacked s.jointBitIndex

/-- `next_k_digit`. -/
def State.nextKDigit (s : State M w) : BitVec 4 := unpackWnafDigit s.kWnafPacked s.jointBitIndex

/-- `basepoint_x .. basepoint_t`. -/
def State.basepoint (s : State M w) : ExtPoint := Ed25519BasepointTable.point s.baseWindowValue

/-- The inputs of `point_core`. -/
def State.pointInputs (s : State M w) : Ed25519PointCore.Inputs where
  start := s.pointStartReg
  op := s.pointOpReg
  encodedPoint := s.pointEncodedReg
  pointA := s.pointAReg
  pointB := s.pointBReg

/-- The inputs of `hash_engine`. -/
def State.hashInputs (i : Inputs) (s : State M w) : Sha512StreamEngine.Inputs where
  start := s.hashStartReg
  prefix0 := s.sigRReg
  prefix1 := s.pubkeyReg
  messageLength := i.messageLength
  msgRdReady := i.msgRdReady
  msgRdData := i.msgRdData

/-! ### One cycle -/

/-- `` `FE25519_ONE `` over `` `FE25519_ONE ``: the neutral element. -/
def onePoint : ExtPoint := ⟨0, 1, 1, 0⟩

/-- The point with `x` and `t` negated. -/
def negPoint (p : ExtPoint) : ExtPoint := { p with x := feNegModP p.x, t := feNegModP p.t }

/-- All counters at zero. -/
def PerfCycles.zero : PerfCycles := ⟨0, 0, 0, 0, 0, 0, 0, 0⟩

/-- A cycle is counted. -/
def PerfCycles.count (phase : PerfPhase) (p : PerfCycles) : PerfCycles :=
  let p := { p with total := p.total + 1 }
  match phase with
  | .control => { p with control := p.control + 1 }
  | .decode => { p with decode := p.decode + 1 }
  | .hash => { p with hash := p.hash + 1 }
  | .reduce => { p with reduce := p.reduce + 1 }
  | .precompute => { p with precompute := p.precompute + 1 }
  | .joint => { p with joint := p.joint + 1 }
  | .finalize => { p with finalize := p.finalize + 1 }
  | .none => p

/-- `ST_IDLE` with `start`. -/
def load (i : Inputs) (n : State M w) : State M w :=
  let n :=
    { n with
      busy := true
      verified := false
      perf := .zero
      lastActivePhase := .none
      baseWindowValue := 0
      sWnafPacked := 0
      kWnafPacked := 0
      jointBitIndex := 0
      currentSDigit := 0
      currentKDigit := 0
      pubkeyReg := i.pubkeyRaw
      sigRReg := i.signatureRRaw }
  if ed25519ScalarL ≤ i.signatureSRaw then { n with state := .done }
  else if !i.agaveZebra &&
      (pointEncodingIsSmallOrder i.pubkeyRaw || pointEncodingIsSmallOrder i.signatureRRaw) then
    { n with state := .done }
  else { n with sScalar := i.signatureSRaw, state := .decAStart }

/-- Start a decompression and wait in `next`. -/
def startDecompress (encoded : BitVec 256) (next : Phase) (n : State M w) : State M w :=
  { n with
    pointOpReg := Ed25519PointCore.opDecompress
    pointEncodedReg := encoded
    pointStartReg := true
    state := next }

/-- Start `op` on two points and wait in `next`. -/
def startPoint (op : BitVec 2) (p q : ExtPoint) (next : Phase) (n : State M w) : State M w :=
  { n with pointOpReg := op, pointAReg := p, pointBReg := q, pointStartReg := true, state := next }

/-- `reg_sel_a_x .. reg_sel_a_t`: the odd multiple of the key for a digit, negated
unless the digit is negative. -/
def selectA (s : State M w) (digit : BitVec 4) : ExtPoint :=
  let signed (p : ExtPoint) : ExtPoint := if digit.getLsbD 3 then p else negPoint p
  match (digitAbs digit).toNat with
  | 1 => signed s.a
  | 3 => signed s.a3
  | 5 => signed s.a5
  | 7 => signed s.a7
  | _ => onePoint

/-- `reg_sel_base_x .. reg_sel_base_t`. -/
def selectBase (s : State M w) (digit : BitVec 4) : ExtPoint :=
  if digit.getLsbD 3 then negPoint s.basepoint else s.basepoint

/-- The state machine; `n` has the registers every cycle writes. -/
def stepState (i : Inputs) (s n : State M w) : State M w :=
  match s.state with
  | .idle => if i.start then load i n else n
  | .decAStart => startDecompress s.pubkeyReg .decAWait n
  | .decAWait =>
      if s.pointDone then
        if !s.pointCore.regs.flag then { n with verified := false, state := .done }
        else { n with a := s.pointOut, state := .decRStart }
      else n
  | .decRStart => startDecompress s.sigRReg .decRWait n
  | .decRWait =>
      if s.pointDone then
        if !s.pointCore.regs.flag then { n with verified := false, state := .done }
        else { n with r := s.pointOut, state := .hashStart }
      else n
  | .hashStart => { n with hashStartReg := true, state := .hashWait }
  | .hashWait =>
      if s.hashEngine.done then
        if s.hashEngine.error then { n with verified := false, state := .done }
        else { n with state := .reduceStart }
      else n
  | .reduceStart => { n with reduceStartReg := true, state := .reduceWait }
  | .reduceWait =>
      if s.reduceEngine.done then
        { n with kScalar := s.reduceEngine.scalarOut, state := .recodeSStart }
      else n
  | .recodeSStart =>
      { n with recodeScalarReg := s.sScalar, recodeStartReg := true, state := .recodeSWait }
  | .recodeSWait =>
      let e := s.recodeEngine
      let n :=
        if e.digitValid then
          { n with sWnafPacked := packWnafDigit s.sWnafPacked e.digitIndex e.digit }
        else n
      if e.done then { n with state := .recodeKStart } else n
  | .recodeKStart =>
      { n with recodeScalarReg := s.kScalar, recodeStartReg := true, state := .recodeKWait }
  | .recodeKWait =>
      let e := s.recodeEngine
      let n :=
        if e.digitValid then
          { n with kWnafPacked := packWnafDigit s.kWnafPacked e.digitIndex e.digit }
        else n
      if e.done then { n with state := .oddA2DblStart } else n
  | .oddA2DblStart => startPoint Ed25519PointCore.opDouble s.a s.a .oddA2DblWait n
  | .oddA2DblWait => if s.pointDone then { n with a2 := s.pointOut, state := .oddA3AddStart } else n
  | .oddA3AddStart => startPoint Ed25519PointCore.opAdd s.a2 s.a .oddA3AddWait n
  | .oddA3AddWait => if s.pointDone then { n with a3 := s.pointOut, state := .oddA5AddStart } else n
  | .oddA5AddStart => startPoint Ed25519PointCore.opAdd s.a3 s.a2 .oddA5AddWait n
  | .oddA5AddWait => if s.pointDone then { n with a5 := s.pointOut, state := .oddA7AddStart } else n
  | .oddA7AddStart => startPoint Ed25519PointCore.opAdd s.a5 s.a2 .oddA7AddWait n
  | .oddA7AddWait => if s.pointDone then { n with a7 := s.pointOut, state := .jointInit } else n
  | .jointInit =>
      { n with
        acc := onePoint
        jointBitIndex := 255
        currentSDigit := 0
        currentKDigit := 0
        baseWindowValue := 0
        state := .jointDblStart }
  | .jointDblStart =>
      startPoint Ed25519PointCore.opDouble s.acc s.acc .jointDblWait
        { n with baseWindowValue := digitAbs s.nextSDigit }
  | .jointDblWait =>
      let n :=
        { n with
          regSelBase := selectBase s s.nextSDigit
          regSelA := selectA s s.nextKDigit }
      if s.pointDone then
        { n with
          acc := s.pointOut
          currentSDigit := s.nextSDigit
          currentKDigit := s.nextKDigit
          state :=
            if s.nextKDigit ≠ 0 then .jointAddAStart
            else if s.nextSDigit ≠ 0 then .jointAddBStart
            else .jointNext }
      else n
  | .jointAddAStart => startPoint Ed25519PointCore.opAdd s.acc s.regSelA .jointAddAWait n
  | .jointAddAWait =>
      if s.pointDone then
        { n with
          acc := s.pointOut
          state := if s.currentSDigit ≠ 0 then .jointAddBStart else .jointNext }
      else n
  | .jointAddBStart => startPoint Ed25519PointCore.opAdd s.acc s.regSelBase .jointAddBWait n
  | .jointAddBWait => if s.pointDone then { n with acc := s.pointOut, state := .jointNext } else n
  | .jointNext =>
      if s.jointBitIndex = 0 then { n with work := s.acc, state := .finalEqStart }
      else { n with jointBitIndex := s.jointBitIndex - 1, state := .jointDblStart }
  | .finalEqStart => startPoint Ed25519PointCore.opAdd s.work (negPoint s.r) .finalEqWait n
  | .finalEqWait =>
      if s.pointDone then
        if i.agaveZebra then
          { n with work := s.pointOut, cofactorDoubleCount := 0, state := .finalCofDblStart }
        else { n with verified := pointIsIdentity s.pointOut, state := .done }
      else n
  | .finalCofDblStart => startPoint Ed25519PointCore.opDouble s.work s.work .finalCofDblWait n
  | .finalCofDblWait =>
      if s.pointDone then
        let n := { n with work := s.pointOut }
        if s.cofactorDoubleCount = 2 then
          { n with verified := pointIsIdentity s.pointOut, state := .done }
        else
          { n with cofactorDoubleCount := s.cofactorDoubleCount + 1, state := .finalCofDblStart }
      else n
  | .done => { n with busy := false, done := true, state := .idle }

/-- The registers that every cycle writes, and the cycle of the sub-engines. -/
def rest (i : Inputs) (s : State M w) : State M w :=
  { s with
    done := false
    pointStartReg := false
    hashStartReg := false
    reduceStartReg := false
    recodeStartReg := false
    perf := if s.state ≠ .idle then s.perf.count (countedPhase s) else s.perf
    lastActivePhase :=
      if phaseForState s.state ≠ .none then phaseForState s.state else s.lastActivePhase
    pointCore := Ed25519PointCore.step s.pointInputs s.pointCore
    hashEngine := Sha512StreamEngine.step (s.hashInputs i) s.hashEngine
    reduceEngine :=
      ScalarReduceModL.step ⟨s.reduceStartReg, s.hashEngine.digestOut⟩ s.reduceEngine
    recodeEngine :=
      ScalarWnaf4Recode.step ⟨s.recodeStartReg, s.recodeScalarReg⟩ s.recodeEngine }

/-- One clock cycle with `engine_rst_n` high. -/
def step (i : Inputs) (s : State M w) : State M w := stepState i s (rest i s)

/-- The registers after a cycle with `engine_rst_n` low.  The reset is asynchronous but for
the product registers of the multiplier, which keep what they hold, and the compression
core, which samples it. -/
def reset (feCore : M.State) : State M w where
  state := .idle
  busy := false
  done := false
  verified := false
  perf := .zero
  lastActivePhase := .none
  pubkeyReg := 0
  sigRReg := 0
  sScalar := 0
  kScalar := 0
  cofactorDoubleCount := 0
  baseWindowValue := 0
  a := Ed25519PointCore.zeroPoint
  a2 := Ed25519PointCore.zeroPoint
  a3 := Ed25519PointCore.zeroPoint
  a5 := Ed25519PointCore.zeroPoint
  a7 := Ed25519PointCore.zeroPoint
  r := Ed25519PointCore.zeroPoint
  work := Ed25519PointCore.zeroPoint
  acc := onePoint
  sWnafPacked := 0
  kWnafPacked := 0
  jointBitIndex := 0
  currentSDigit := 0
  currentKDigit := 0
  pointStartReg := false
  pointOpReg := 0
  pointEncodedReg := 0
  pointAReg := onePoint
  pointBReg := onePoint
  hashStartReg := false
  reduceStartReg := false
  recodeStartReg := false
  recodeScalarReg := 0
  regSelBase := onePoint
  regSelA := onePoint
  pointCore := ⟨Ed25519PointCore.resetRegs, feCore⟩
  hashEngine := Sha512StreamEngine.reset Sha512CompressCore.reset
  reduceEngine := ScalarReduceModL.reset
  recodeEngine := ScalarWnaf4Recode.reset

/-- One clock cycle. -/
def State.clock (i : Inputs) (s : State M w) : State M w :=
  if i.engineRstN then step i s else reset (M.reset s.pointCore.feCore)

end Ed25519VerifyEngine

end Kv260Sigv
