import Kv260Sigv.Rtl.FieldHelpers
import Kv260Sigv.Rtl.Multiplier

/-!
# `ed25519_point_core`

Point addition, doubling and decompression on extended coordinates: a sequencer over
one multiplier and the combinational field helpers.  `Regs` are its own registers;
`State` has those of its multiplier next to them.
-/

set_option autoImplicit false

namespace Kv260Sigv

/-- `` `ED25519_D ``. -/
def ed25519D : BitVec 255 := 0x52036cee2b6ffe738cc740797779e89800700a4d4141d8ab75eb4dca135978a3

/-- `` `ED25519_D2 ``. -/
def ed25519D2 : BitVec 255 := 0x2406d9dc56dffce7198e80f2eef3d13000e0149a8283b156ebd69b9426b2f159

/-- `` `ED25519_SQRT_M1 ``. -/
def ed25519SqrtM1 : BitVec 255 :=
  0x2b8324804fc1df0b2b4d00993dfbd7a72f431806ad2fe478c4ee1b274a0ea0b0

/-- Four coordinates, `X : Y : Z : T`. -/
structure ExtPoint where
  x : BitVec 255
  y : BitVec 255
  z : BitVec 255
  t : BitVec 255
  deriving DecidableEq

namespace Ed25519PointCore

/-- `STEP_IDLE .. STEP_DEC_11_BRANCH`. -/
inductive Step where
  | idle
  | add0 | add1 | add1Aux | add1Mul | add2 | add3 | add3Aux | add3Mul | add4 | add5 | add6 | add7
  | add8 | add9 | add10 | add11 | add12 | add13 | add14 | add15
  | dbl0 | dbl1 | dbl2 | dbl3 | dbl4 | dbl4Aux | dbl4Mul | dbl5 | dbl6 | dbl7 | dbl8 | dbl9
  | dbl10 | dbl11 | dbl12 | dbl13 | dbl14 | dbl15
  | dec1 | dec2 | dec2Aux | dec2Mul | dec3 | dec4 | dec5 | dec6 | dec7 | dec8 | dec9 | dec10
  | dec11 | dec11Compare | dec11Branch | dec12 | dec13 | dec13Aux | dec13Mul | dec14
  | powDispatch | powWait
  | done
  deriving DecidableEq, Repr

/-- `POW_PHASE_INIT_0 .. POW_PHASE_FINAL`. -/
inductive PowPhase where
  | init0 | init1 | init2 | init3 | init4 | init5 | init6
  | phase10 | phase20 | phase40 | phase50 | phase100 | phase200 | phase250
  | final
  deriving DecidableEq, Repr

/-- `POW_STORE_VALUE .. POW_STORE_T2`. -/
inductive PowStore where
  | value
  | t1
  | t2
  deriving DecidableEq, Repr

/-- `OP_DECOMPRESS`. -/
def opDecompress : BitVec 2 := 0

/-- `OP_ADD`. -/
def opAdd : BitVec 2 := 1

/-- `OP_DOUBLE`. -/
def opDouble : BitVec 2 := 2

/-- The registers of the sequencer. -/
structure Regs where
  busy : Bool
  done : Bool
  flag : Bool
  out : ExtPoint
  step : Step
  powPhase : PowPhase
  powSqRemaining : BitVec 7
  powDispatchIsSquare : Bool
  powStoreSel : PowStore
  encodedSign : Bool
  p : ExtPoint
  q : ExtPoint
  addBAffine : Bool
  t0 : BitVec 255
  t1 : BitVec 255
  t2 : BitVec 255
  t3 : BitVec 255
  t4 : BitVec 255
  t5 : BitVec 255
  t6 : BitVec 255
  t7 : BitVec 255
  t8 : BitVec 255
  auxStage : BitVec 255
  auxPipeA : BitVec 255
  auxPipeB : BitVec 255
  auxPipeNegate : Bool
  decMatchPos : Bool
  decMatchNeg : Bool
  powInput : BitVec 255
  powValue : BitVec 255
  powT1 : BitVec 255
  powT2 : BitVec 255
  feStart : Bool
  feA : BitVec 255
  feB : BitVec 255

/-- The inputs of a cycle. -/
structure Inputs where
  start : Bool
  op : BitVec 2
  encodedPoint : BitVec 256
  pointA : ExtPoint
  pointB : ExtPoint

/-! ### Combinational logic -/

/-- `encoded_y_canonical`. -/
def encodedYCanonical (encodedPoint : BitVec 256) : BitVec 255 :=
  let encodedY : BitVec 255 := encodedPoint.setWidth 255
  if Fe25519AuxCore.needsReduce encodedY then (encodedY.setWidth 256 + (19 : BitVec 256)).setWidth 255
  else encodedY

/-- `aux_pipe_add_sum_ext`. -/
def auxPipeAddSumExt (r : Regs) : BitVec 256 := r.auxPipeA.setWidth 256 + r.auxPipeB.setWidth 256

/-- `aux_pipe_add_result`. -/
def auxPipeAddResult (r : Regs) : BitVec 255 :=
  if (auxPipeAddSumExt r).getLsbD 255 || Fe25519AuxCore.needsReduce (auxPipeAddSumExt r) then
    (r.auxPipeA.setWidth 256 + r.auxPipeB.setWidth 256 + (19 : BitVec 256)).setWidth 255
  else (auxPipeAddSumExt r).setWidth 255

/-- `aux_pipe_sub_diff_ext`. -/
def auxPipeSubDiffExt (r : Regs) : BitVec 256 := r.auxPipeA.setWidth 256 - r.auxPipeB.setWidth 256

/-- `aux_pipe_sub_result`. -/
def auxPipeSubResult (r : Regs) : BitVec 255 :=
  if (auxPipeSubDiffExt r).getLsbD 255 then
    (r.auxPipeA.setWidth 256 - r.auxPipeB.setWidth 256 - (19 : BitVec 256)).setWidth 255
  else (auxPipeSubDiffExt r).setWidth 255

/-- `aux_pipe_neg_result`. -/
def auxPipeNegResult (r : Regs) : BitVec 255 := if r.auxPipeA = 0 then 0 else ~~~r.auxPipeA - 18

/-- `aux_pipe_sign_result`. -/
def auxPipeSignResult (r : Regs) : BitVec 255 :=
  if r.auxPipeNegate then auxPipeNegResult r else r.auxPipeA

/-- The operands of `aux_core`; `feResult` is the output of the multiplier. -/
def auxMux (feResult : BitVec 255) (r : Regs) : Fe25519AuxCore.Op × BitVec 255 × BitVec 255 :=
  match r.step with
  | .add0 => (.subModP, r.p.y, r.p.x)
  | .add2 => (.addModP, r.p.y, r.p.x)
  | .add7 => (.subModP, r.t1, r.t0)
  | .add6 => if r.addBAffine then (.subModP, r.t1, r.t0) else (.zero, 0, 0)
  | .add8 => (.addModP, r.t3, r.t3)
  | .add9 => (.subModP, r.t8, r.t2)
  | .add10 => (.addModP, r.t8, r.t2)
  | .add11 => (.addModP, r.t1, r.t0)
  | .dbl3 => (.addModP, feResult, feResult)
  | .dbl6 => (.subModP, r.t3, r.t0)
  | .dbl7 => (.subModP, r.t4, r.t1)
  | .dbl8 => (.subModP, r.t1, r.t0)
  | .dbl9 => (.subModP, r.t4, r.t2)
  | .dbl10 => (.addModP, r.t0, r.t1)
  | .dbl11 => (.negModP, r.t6, 0)
  | .dec1 => (.subModP, feResult, 1)
  | .dec11 => (.negModP, r.t2, 0)
  | _ => (.zero, 0, 0)

/-- `aux_result`. -/
def auxResult (feResult : BitVec 255) (r : Regs) : BitVec 255 :=
  let mux := auxMux feResult r
  Fe25519AuxCore.result mux.1 mux.2.1 mux.2.2 0

/-! ### One cycle -/

/-- `` `FE25519_ZERO `` in all four coordinates. -/
def zeroPoint : ExtPoint := ⟨0, 0, 0, 0⟩

/-- Start the multiplier and go on in `next`. -/
def issue (a b : BitVec 255) (next : Step) (n : Regs) : Regs :=
  { n with feA := a, feB := b, feStart := true, step := next }

/-- `start` while not busy. -/
def load (i : Inputs) (n : Regs) : Regs :=
  let n :=
    { n with
      busy := true
      flag := false
      auxPipeNegate := false
      decMatchPos := false
      decMatchNeg := false
      out := zeroPoint
      encodedSign := i.encodedPoint.getLsbD 255
      p := i.pointA
      q := i.pointB
      addBAffine := i.op = opAdd && i.pointB.z = 1 }
  if i.op = opAdd then { n with step := .add0 }
  else if i.op = opDouble then { n with step := .dbl0 }
  else if i.op = opDecompress then
    issue (encodedYCanonical i.encodedPoint) (encodedYCanonical i.encodedPoint) .dec1
      { n with t0 := encodedYCanonical i.encodedPoint }
  else { n with step := .done }

/-- `STEP_POW_DISPATCH`: the next multiplication of the power, whether it is one of a row
of squarings, and where its result goes. -/
def powDispatch (r n : Regs) : Regs :=
  let go (a b : BitVec 255) (isSquare : Bool) (sel : PowStore) : Regs :=
    issue a b .powWait { n with powDispatchIsSquare := isSquare, powStoreSel := sel }
  match r.powPhase with
  | .init0 => go r.powInput r.powInput false .value
  | .init1 => go r.powValue r.powValue false .t1
  | .init2 => go r.powT1 r.powT1 false .t1
  | .init3 => go r.powInput r.powT1 false .t1
  | .init4 => go r.powValue r.powT1 false .value
  | .init5 => go r.powValue r.powValue false .value
  | .init6 => go r.powT1 r.powValue false .value
  | .phase10 =>
      if r.powSqRemaining ≠ 0 then
        if r.powSqRemaining = 5 then go r.powValue r.powValue true .t1
        else go r.powT1 r.powT1 true .t1
      else go r.powT1 r.powValue false .value
  | .phase20 =>
      if r.powSqRemaining ≠ 0 then
        if r.powSqRemaining = 10 then go r.powValue r.powValue true .t1
        else go r.powT1 r.powT1 true .t1
      else go r.powT1 r.powValue false .t1
  | .phase40 =>
      if r.powSqRemaining ≠ 0 then
        if r.powSqRemaining = 20 then go r.powT1 r.powT1 true .t2
        else go r.powT2 r.powT2 true .t2
      else go r.powT2 r.powT1 false .t1
  | .phase50 =>
      if r.powSqRemaining ≠ 0 then go r.powT1 r.powT1 true .t1
      else go r.powT1 r.powValue false .value
  | .phase100 =>
      if r.powSqRemaining ≠ 0 then
        if r.powSqRemaining = 50 then go r.powValue r.powValue true .t1
        else go r.powT1 r.powT1 true .t1
      else go r.powT1 r.powValue false .t1
  | .phase200 =>
      if r.powSqRemaining ≠ 0 then
        if r.powSqRemaining = 100 then go r.powT1 r.powT1 true .t2
        else go r.powT2 r.powT2 true .t2
      else go r.powT2 r.powT1 false .t1
  | .phase250 =>
      if r.powSqRemaining ≠ 0 then go r.powT1 r.powT1 true .t1
      else go r.powT1 r.powValue false .value
  | .final =>
      if r.powSqRemaining ≠ 0 then go r.powValue r.powValue true .value
      else go r.powValue r.powInput false .value

/-- The phase after a multiplication that is no squaring, with its count of squarings. -/
def nextPowPhase (r n : Regs) : Regs :=
  let next (phase : PowPhase) (remaining : BitVec 7) : Regs :=
    { n with powPhase := phase, powSqRemaining := remaining, step := .powDispatch }
  match r.powPhase with
  | .init0 => next .init1 r.powSqRemaining
  | .init1 => next .init2 r.powSqRemaining
  | .init2 => next .init3 r.powSqRemaining
  | .init3 => next .init4 r.powSqRemaining
  | .init4 => next .init5 r.powSqRemaining
  | .init5 => next .init6 r.powSqRemaining
  | .init6 => next .phase10 5
  | .phase10 => next .phase20 10
  | .phase20 => next .phase40 20
  | .phase40 => next .phase50 10
  | .phase50 => next .phase100 50
  | .phase100 => next .phase200 100
  | .phase200 => next .phase250 50
  | .phase250 => next .final 2
  | .final => { n with step := .dec8 }

/-- `STEP_POW_WAIT` once the product is there. -/
def powStore (feResult : BitVec 255) (r n : Regs) : Regs :=
  let n :=
    match r.powStoreSel with
    | .value => { n with powValue := feResult }
    | .t1 => { n with powT1 := feResult }
    | .t2 => { n with powT2 := feResult }
  if r.powDispatchIsSquare then
    { n with
      powSqRemaining := if r.powSqRemaining = 1 then 0 else r.powSqRemaining - 1
      step := .powDispatch }
  else nextPowPhase r n

/-- The sequencer while busy; `n` has the registers every cycle writes. -/
def stepBusy (feDone : Bool) (feResult : BitVec 255) (r n : Regs) : Regs :=
  let aux := auxResult feResult r
  match r.step with
  | .add0 => { n with t8 := aux, step := .add1 }
  | .add1 => { n with auxPipeA := r.q.y, auxPipeB := r.q.x, step := .add1Aux }
  | .add1Aux => { n with auxStage := auxPipeSubResult r, step := .add1Mul }
  | .add1Mul => issue r.t8 r.auxStage .add2 n
  | .add2 => if feDone then { n with t0 := feResult, t8 := aux, step := .add3 } else n
  | .add3 => { n with auxPipeA := r.q.y, auxPipeB := r.q.x, step := .add3Aux }
  | .add3Aux => { n with auxStage := auxPipeAddResult r, step := .add3Mul }
  | .add3Mul => issue r.t8 r.auxStage .add4 n
  | .add4 => if feDone then issue r.p.t r.q.t .add5 { n with t1 := feResult } else n
  | .add5 => if feDone then issue feResult ed25519D2 .add6 n else n
  | .add6 =>
      if feDone then
        let n := { n with t2 := feResult }
        if r.addBAffine then { n with t3 := r.p.z, t4 := aux, step := .add8 }
        else issue r.p.z r.q.z .add7 n
      else n
  | .add7 => if feDone then { n with t3 := feResult, t4 := aux, step := .add8 } else n
  | .add8 => { n with t8 := aux, step := .add9 }
  | .add9 => { n with t5 := aux, step := .add10 }
  | .add10 => { n with t6 := aux, step := .add11 }
  | .add11 => issue r.t4 r.t5 .add12 { n with t7 := aux }
  | .add12 => if feDone then issue r.t6 r.t7 .add13 { n with out := { n.out with x := feResult } } else n
  | .add13 => if feDone then issue r.t4 r.t7 .add14 { n with out := { n.out with y := feResult } } else n
  | .add14 => if feDone then issue r.t5 r.t6 .add15 { n with out := { n.out with t := feResult } } else n
  | .add15 =>
      if feDone then { n with out := { n.out with z := feResult }, flag := true, step := .done } else n
  | .dbl0 => issue r.p.x r.p.x .dbl1 n
  | .dbl1 => if feDone then issue r.p.y r.p.y .dbl2 { n with t0 := feResult } else n
  | .dbl2 => if feDone then issue r.p.z r.p.z .dbl3 { n with t1 := feResult } else n
  | .dbl3 => if feDone then { n with t2 := aux, step := .dbl4 } else n
  | .dbl4 => { n with auxPipeA := r.p.x, auxPipeB := r.p.y, step := .dbl4Aux }
  | .dbl4Aux => { n with auxStage := auxPipeAddResult r, step := .dbl4Mul }
  | .dbl4Mul => issue r.auxStage r.auxStage .dbl5 n
  | .dbl5 => if feDone then { n with t3 := feResult, step := .dbl6 } else n
  | .dbl6 => { n with t4 := aux, step := .dbl7 }
  | .dbl7 => { n with t3 := aux, step := .dbl8 }
  | .dbl8 => { n with t4 := aux, step := .dbl9 }
  | .dbl9 => { n with t5 := aux, step := .dbl10 }
  | .dbl10 => { n with t6 := aux, step := .dbl11 }
  | .dbl11 => issue r.t3 r.t5 .dbl12 { n with t7 := aux }
  | .dbl12 => if feDone then issue r.t4 r.t7 .dbl13 { n with out := { n.out with x := feResult } } else n
  | .dbl13 => if feDone then issue r.t3 r.t7 .dbl14 { n with out := { n.out with y := feResult } } else n
  | .dbl14 => if feDone then issue r.t5 r.t4 .dbl15 { n with out := { n.out with t := feResult } } else n
  | .dbl15 =>
      if feDone then { n with out := { n.out with z := feResult }, flag := true, step := .done } else n
  | .dec1 => if feDone then issue feResult ed25519D .dec2 { n with t1 := feResult, t2 := aux } else n
  | .dec2 =>
      if feDone then { n with auxPipeA := feResult, auxPipeB := 1, step := .dec2Aux } else n
  | .dec2Aux => { n with t3 := auxPipeAddResult r, auxStage := auxPipeAddResult r, step := .dec2Mul }
  | .dec2Mul => issue r.auxStage r.auxStage .dec3 n
  | .dec3 => if feDone then issue feResult r.t3 .dec4 { n with t4 := feResult } else n
  | .dec4 => if feDone then issue r.t4 r.t4 .dec5 { n with t5 := feResult } else n
  | .dec5 => if feDone then issue r.t2 r.t5 .dec6 { n with t6 := feResult } else n
  | .dec6 => if feDone then issue feResult r.t6 .dec7 { n with t7 := feResult } else n
  | .dec7 =>
      if feDone then
        { n with
          powInput := feResult
          powValue := 0
          powT1 := 0
          powT2 := 0
          powPhase := .init0
          powSqRemaining := 0
          step := .powDispatch }
      else n
  | .dec8 => issue r.t7 r.powValue .dec9 n
  | .dec9 => if feDone then issue feResult feResult .dec10 { n with t8 := feResult } else n
  | .dec10 => if feDone then issue r.t3 feResult .dec11 n else n
  | .dec11 => if feDone then { n with t3 := feResult, auxStage := aux, step := .dec11Compare } else n
  | .dec11Compare =>
      { n with
        decMatchPos := r.t3 = r.t2
        decMatchNeg := r.t3 = r.auxStage
        step := .dec11Branch }
  | .dec11Branch =>
      if r.decMatchPos then { n with flag := true, step := .dec13 }
      else if r.decMatchNeg then issue r.t8 ed25519SqrtM1 .dec12 n
      else { n with flag := false, out := zeroPoint, step := .done }
  | .dec12 => if feDone then { n with t8 := feResult, flag := true, step := .dec13 } else n
  | .dec13 =>
      { n with
        auxPipeNegate := r.t8.getLsbD 0 ≠ r.encodedSign
        auxPipeA := r.t8
        auxPipeB := 0
        step := .dec13Aux }
  | .dec13Aux => { n with t8 := auxPipeSignResult r, auxStage := auxPipeSignResult r, step := .dec13Mul }
  | .dec13Mul => issue r.auxStage r.t0 .dec14 n
  | .dec14 => if feDone then { n with out := ⟨r.t8, r.t0, 1, feResult⟩, step := .done } else n
  | .powDispatch => powDispatch r n
  | .powWait => if feDone then powStore feResult r n else n
  | .done => { n with busy := false, done := true, step := .idle }
  | .idle => { n with busy := false, step := .idle }

/-- The registers that every cycle writes. -/
def Regs.rest (r : Regs) : Regs := { r with done := false, feStart := false, feA := 0, feB := 0 }

/-- One clock cycle of the sequencer. -/
def Regs.clock (i : Inputs) (feDone : Bool) (feResult : BitVec 255) (r : Regs) : Regs :=
  if !r.busy then if i.start then load i r.rest else r.rest
  else stepBusy feDone feResult r r.rest

/-- The sequencer and its multiplier. -/
structure State (M : Multiplier) where
  regs : Regs
  feCore : M.State

/-- One clock cycle with `rst_n` high. -/
def step {M : Multiplier} (i : Inputs) (s : State M) : State M where
  regs := s.regs.clock i (M.done s.feCore) (M.result s.feCore)
  feCore := M.step ⟨s.regs.feStart, s.regs.feA, s.regs.feB⟩ s.feCore

/-- The registers after `rst_n`. -/
def resetRegs : Regs where
  busy := false
  done := false
  flag := false
  out := zeroPoint
  step := .idle
  powPhase := .init0
  powSqRemaining := 0
  powDispatchIsSquare := false
  powStoreSel := .value
  encodedSign := false
  p := zeroPoint
  q := zeroPoint
  addBAffine := false
  t0 := 0
  t1 := 0
  t2 := 0
  t3 := 0
  t4 := 0
  t5 := 0
  t6 := 0
  t7 := 0
  t8 := 0
  auxStage := 0
  auxPipeA := 0
  auxPipeB := 0
  auxPipeNegate := false
  decMatchPos := false
  decMatchNeg := false
  powInput := 0
  powValue := 0
  powT1 := 0
  powT2 := 0
  feStart := false
  feA := 0
  feB := 0

/-- The asynchronous reset. -/
def reset {M : Multiplier} (s : State M) : State M := ⟨resetRegs, M.reset s.feCore⟩

end Ed25519PointCore

end Kv260Sigv
