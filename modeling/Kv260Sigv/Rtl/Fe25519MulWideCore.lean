import Kv260Sigv.Library.Clocked
import Kv260Sigv.Library.Registers
import Mathlib.Data.Fintype.Basic

/-!
# `fe25519_mul_wide_core`

The 5x51-limb multiplier, register by register.  `step` is one rising edge of
`clk` with `rst_n` high; the product lanes are spelled with the lane number as a
parameter where the source repeats the line five times.
-/

namespace Kv260Sigv

/-- `` `ED25519_FIELD_P ``, the prime 2^255 - 19. -/
def fieldP : ℕ := 2 ^ 255 - 19

/-- The inputs every multiplier core samples. -/
structure MulInputs where
  start : Bool
  a : BitVec 255
  b : BitVec 255

namespace Fe25519MulWideCore

/-- `ST_IDLE .. ST_FINISH`. -/
inductive Phase where
  | idle
  | mul
  | mulFlush
  | fold
  | carry
  | pack
  | reduce
  | finish
  deriving DecidableEq, Repr

/-- The registers. -/
structure State where
  state : Phase
  aLimb : RegFile 5 51
  bLimb : RegFile 5 51
  coeff : RegFile 9 108
  red : RegFile 5 120
  diagIndex : BitVec 4
  productDiagIndex : BitVec 4
  productValid : Bool
  /-- `product0_reg .. product4_reg` -/
  productReg : RegFile 5 102
  carryIndex : BitVec 3
  carryPass : BitVec 2
  candidateReg : BitVec 255
  candidateMinusPReg : BitVec 256
  candidateGePReg : Bool
  busy : Bool
  done : Bool
  result : BitVec 255

/-- `LIMB_MASK`. -/
def limbMask : BitVec 120 := (1 <<< 51) - 1

/-- `lane<i>_valid`. -/
def laneValid (i : ℕ) (diagIndex : BitVec 4) : Bool :=
  match i with
  | 0 => diagIndex ≤ 4
  | 1 => 1 ≤ diagIndex && diagIndex ≤ 5
  | 2 => 2 ≤ diagIndex && diagIndex ≤ 6
  | 3 => 3 ≤ diagIndex && diagIndex ≤ 7
  | 4 => 4 ≤ diagIndex
  | _ => false

/-- `lane<i>_j`. -/
def laneJ (i : ℕ) (diagIndex : BitVec 4) : BitVec 3 :=
  diagIndex.setWidth 3 - BitVec.ofNat 3 i

/-- `lane<i>_j_safe`. -/
def laneJSafe (i : ℕ) (diagIndex : BitVec 4) : BitVec 3 :=
  if laneValid i diagIndex then laneJ i diagIndex else 0

/-- `product<i>`. -/
def product (s : State) (i : ℕ) : BitVec 102 :=
  if laneValid i s.diagIndex then
    (s.aLimb.read i).setWidth 102 * (s.bLimb.read (laneJSafe i s.diagIndex).toNat).setWidth 102
  else 0

/-- `diag_sum_registered`. -/
def diagSumRegistered (s : State) : BitVec 108 :=
  (s.productReg.read 0).setWidth 108 + (s.productReg.read 1).setWidth 108 + (s.productReg.read 2).setWidth 108 +
    (s.productReg.read 3).setWidth 108 + (s.productReg.read 4).setWidth 108

/-- `carry_value`. -/
def carryValue (s : State) : BitVec 120 := s.red.read s.carryIndex.toNat >>> 51

/-- Multiplication by 19 as the source writes it. -/
def times19 {w : ℕ} (x : BitVec w) : BitVec w := (x <<< 4) + (x <<< 1) + x

/-- `high_fold<i>`. -/
def highFold (s : State) (i : ℕ) : BitVec 120 := times19 ((s.coeff.read (i + 5)).setWidth 120)

/-- `normalized_candidate`. -/
def normalizedCandidate (s : State) : BitVec 255 :=
  (s.red.read 4).setWidth 51 ++ ((s.red.read 3).setWidth 51 ++ ((s.red.read 2).setWidth 51 ++
    ((s.red.read 1).setWidth 51 ++ (s.red.read 0).setWidth 51)))

/-- `candidate_ext`. -/
def candidateExt (s : State) : BitVec 256 := s.candidateReg.setWidth 256

/-- `field_p_ext`. -/
def fieldPExt : BitVec 256 := BitVec.ofNat 256 fieldP

/-- `candidate_minus_p`. -/
def candidateMinusP (s : State) : BitVec 256 := candidateExt s - fieldPExt

/-- `reduced_result`. -/
def reducedResult (s : State) : BitVec 255 :=
  if s.candidateGePReg then s.candidateMinusPReg.setWidth 255 else s.candidateReg

/-- The state after `rst_n`; the product registers are in a process without
reset and keep what they hold. -/
def reset (s : State) : State where
  state := .idle
  aLimb := .zero
  bLimb := .zero
  coeff := .zero
  red := .zero
  diagIndex := 0
  productDiagIndex := 0
  productValid := false
  productReg := s.productReg
  carryIndex := 0
  carryPass := 0
  candidateReg := 0
  candidateMinusPReg := 0
  candidateGePReg := false
  busy := false
  done := false
  result := 0

/-- The `ST_IDLE` branch with `start` high. -/
def load (i : MulInputs) (s : State) : State where
  state := .mul
  aLimb := .ofFn fun k => i.a.extractLsb' (k * 51) 51
  bLimb := .ofFn fun k => i.b.extractLsb' (k * 51) 51
  coeff := .zero
  red := .zero
  diagIndex := 0
  productDiagIndex := 0
  productValid := false
  productReg := s.productReg
  carryIndex := 0
  carryPass := 0
  candidateReg := 0
  candidateMinusPReg := 0
  candidateGePReg := false
  busy := true
  done := false
  result := 0

/-- `if (product_valid) coeff[product_diag_index] <= diag_sum_registered`. -/
def storeDiag (s : State) : RegFile 9 108 :=
  if s.productValid then s.coeff.write s.productDiagIndex.toNat (diagSumRegistered s)
  else s.coeff

/-- The `ST_CARRY` branch. -/
def carryStep (s : State) : State :=
  let masked := s.red.write s.carryIndex.toNat (s.red.read s.carryIndex.toNat &&& limbMask)
  if s.carryIndex = 4 then
    { s with
      red := masked.write 0 (s.red.read 0 + times19 (carryValue s))
      carryIndex := 0
      carryPass := if s.carryPass = 1 then s.carryPass else s.carryPass + 1
      state := if s.carryPass = 1 then .pack else .carry
      done := false }
  else
    { s with
      red := masked.write (s.carryIndex + 1).toNat
        (s.red.read (s.carryIndex + 1).toNat + carryValue s)
      carryIndex := s.carryIndex + 1
      done := false }

/-- One clock cycle. -/
def step (i : MulInputs) (s : State) : State :=
  match s.state with
  | .idle => if i.start then load i s else { s with done := false }
  | .mul =>
      { s with
        productReg := .ofFn (product s)
        coeff := storeDiag s
        productDiagIndex := s.diagIndex
        productValid := true
        state := if s.diagIndex = 8 then .mulFlush else .mul
        diagIndex := if s.diagIndex = 8 then s.diagIndex else s.diagIndex + 1
        done := false }
  | .mulFlush =>
      { s with coeff := storeDiag s, productValid := false, state := .fold, done := false }
  | .fold =>
      { s with
        red := .ofFn fun k => (s.coeff.read k).setWidth 120 + if k < 4 then highFold s k else 0
        carryIndex := 0
        carryPass := 0
        state := .carry
        done := false }
  | .carry => carryStep s
  | .pack => { s with candidateReg := normalizedCandidate s, state := .reduce, done := false }
  | .reduce =>
      { s with
        candidateMinusPReg := candidateMinusP s
        candidateGePReg := fieldPExt ≤ candidateExt s
        state := .finish
        done := false }
  | .finish => { s with result := reducedResult s, busy := false, done := true, state := .idle }

end Fe25519MulWideCore

end Kv260Sigv
