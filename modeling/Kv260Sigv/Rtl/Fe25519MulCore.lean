import Kv260Sigv.Rtl.Fe25519MulWideCore

/-!
# `fe25519_mul_core`

The 17x15-limb multiplier.  It forms the schoolbook product four terms a cycle,
normalizes the columns into a 510-bit product, folds twice by 19 and subtracts
`p` at most once.
-/

namespace Kv260Sigv

namespace Fe25519MulCore

/-- `ST_IDLE .. ST_FINISH`. -/
inductive Phase where
  | idle
  | mul
  | norm
  | fold1
  | fold2
  | reduce
  | finish
  deriving DecidableEq, Repr

/-- The registers. -/
structure State where
  state : Phase
  aLimb : RegFile 17 15
  bLimb : RegFile 17 15
  accum : RegFile 34 40
  mulI : BitVec 5
  mulJ : BitVec 5
  normIndex : BitVec 6
  productReg : BitVec 510
  fold1Reg : BitVec 260
  fold2Reg : BitVec 256
  fold2MinusPReg : BitVec 256
  fold2GePReg : Bool
  busy : Bool
  done : Bool
  result : BitVec 255

/-- `MUL_LANES`. -/
def mulLanes : ℕ := 4

/-- `mul_lane<l>_valid`; lane 0 always is. -/
def laneValid (l : ℕ) (mulJ : BitVec 5) : Bool :=
  match l with
  | 0 => true
  | 1 => 2 ≤ mulLanes && mulJ < 16
  | 2 => 3 ≤ mulLanes && mulJ ≤ 16 - 2
  | 3 => 4 ≤ mulLanes && mulJ ≤ 16 - 3
  | 4 => 5 ≤ mulLanes && mulJ ≤ 16 - 4
  | _ => false

/-- `mul_j_lane<l>_safe`. -/
def laneJ (s : State) (l : ℕ) : BitVec 5 :=
  if laneValid l s.mulJ then s.mulJ + BitVec.ofNat 5 l else 0

/-- `mul_accum_index<l>`. -/
def accumIndex (s : State) (l : ℕ) : BitVec 6 := s.mulI.setWidth 6 + (laneJ s l).setWidth 6

/-- `limb_product_ext<l>`. -/
def limbProductExt (s : State) (l : ℕ) : BitVec 40 :=
  ((s.aLimb.read s.mulI.toNat).setWidth 30 *
    (s.bLimb.read (laneJ s l).toNat).setWidth 30).setWidth 40

/-- The accumulator writes of lane `l`; all lanes read the old accumulators. -/
def accumulateLane (s : State) (accum : RegFile 34 40) (l : ℕ) : RegFile 34 40 :=
  if laneValid l s.mulJ then
    accum.write (accumIndex s l).toNat (s.accum.read (accumIndex s l).toNat + limbProductExt s l)
  else accum

/-- The accumulators after a multiplication cycle. -/
def accumulate (s : State) : RegFile 34 40 :=
  [0, 1, 2, 3, 4].foldl (accumulateLane s) s.accum

/-- `fold1_next`. -/
def fold1Next (s : State) : BitVec 260 :=
  (s.productReg.extractLsb' 0 255).setWidth 260 +
    Fe25519MulWideCore.times19 ((s.productReg.extractLsb' 255 255).setWidth 260)

/-- `combined_fold2_next`. -/
def combinedFold2Next (s : State) : BitVec 256 :=
  (s.fold1Reg.extractLsb' 0 255).setWidth 256 +
    Fe25519MulWideCore.times19 ((s.fold1Reg.extractLsb' 255 5).setWidth 256)

/-- `fold2_minus_p`. -/
def fold2MinusP (s : State) : BitVec 256 := s.fold2Reg - Fe25519MulWideCore.fieldPExt

/-- `reduced_result`. -/
def reducedResult (s : State) : BitVec 255 :=
  if s.fold2GePReg then s.fold2MinusPReg.setWidth 255 else s.fold2Reg.setWidth 255

/-- The state after `rst_n`. -/
def reset : State where
  state := .idle
  aLimb := .zero
  bLimb := .zero
  accum := .zero
  mulI := 0
  mulJ := 0
  normIndex := 0
  productReg := 0
  fold1Reg := 0
  fold2Reg := 0
  fold2MinusPReg := 0
  fold2GePReg := false
  busy := false
  done := false
  result := 0

/-- The `ST_IDLE` branch with `start` high. -/
def load (i : MulInputs) : State :=
  { reset with
    state := .mul
    aLimb := .ofFn fun k => i.a.extractLsb' (k * 15) 15
    bLimb := .ofFn fun k => i.b.extractLsb' (k * 15) 15
    busy := true }

/-- One clock cycle. -/
def step (i : MulInputs) (s : State) : State :=
  match s.state with
  | .idle => if i.start then load i else { s with done := false }
  | .mul =>
      let rowDone : Bool := 13 ≤ s.mulJ
      let lastRow : Bool := s.mulI = 16
      { s with
        accum := accumulate s
        mulJ := if rowDone then 0 else s.mulJ + 4
        mulI := if rowDone && !lastRow then s.mulI + 1 else s.mulI
        normIndex := if rowDone && lastRow then 0 else s.normIndex
        state := if rowDone && lastRow then .norm else .mul
        done := false }
  | .norm =>
      let entry := s.accum.read s.normIndex.toNat
      { s with
        productReg := s.productReg.writeSlice (s.normIndex.toNat * 15) (entry.setWidth 15)
        accum :=
          if s.normIndex = 33 then s.accum
          else s.accum.write (s.normIndex + 1).toNat
            (s.accum.read (s.normIndex + 1).toNat + entry >>> 15)
        normIndex := if s.normIndex = 33 then s.normIndex else s.normIndex + 1
        state := if s.normIndex = 33 then .fold1 else .norm
        done := false }
  | .fold1 => { s with fold1Reg := fold1Next s, state := .fold2, done := false }
  | .fold2 => { s with fold2Reg := combinedFold2Next s, state := .reduce, done := false }
  | .reduce =>
      { s with
        fold2MinusPReg := fold2MinusP s
        fold2GePReg := Fe25519MulWideCore.fieldPExt ≤ s.fold2Reg
        state := .finish
        done := false }
  | .finish => { s with result := reducedResult s, busy := false, done := true, state := .idle }

end Fe25519MulCore

end Kv260Sigv
