import Kv260Sigv.Library.Handshake

/-!
# `scalar_wnaf4_recode`

The signed digits of a scalar, the lowest first, one in each cycle.
-/

set_option autoImplicit false

namespace Kv260Sigv

namespace ScalarWnaf4Recode

/-- The registers. -/
structure State where
  busy : Bool
  done : Bool
  digitValid : Bool
  digitIndex : BitVec 8
  digit : BitVec 4
  scalarWork : BitVec 257
  bitIndex : BitVec 8

/-- The inputs of a cycle. -/
structure Inputs where
  start : Bool
  scalarIn : BitVec 256

/-- `digit_value`. -/
def digitValue (scalarWork : BitVec 257) : BitVec 4 :=
  if scalarWork.getLsbD 0 then
    match (scalarWork.setWidth 4).toNat with
    | 1 => 0x1
    | 3 => 0x3
    | 5 => 0x5
    | 7 => 0x7
    | 9 => 0x9
    | 11 => 0xB
    | 13 => 0xD
    | 15 => 0xF
    | _ => 0
  else 0

/-- `digit_abs_value`. -/
def digitAbsValue (scalarWork : BitVec 257) : BitVec 4 :=
  if scalarWork.getLsbD 0 then
    match (scalarWork.setWidth 4).toNat with
    | 1 => 1
    | 3 => 3
    | 5 => 5
    | 7 => 7
    | 9 => 7
    | 11 => 5
    | 13 => 3
    | 15 => 1
    | _ => 0
  else 0

/-- `adjusted_scalar`. -/
def adjustedScalar (scalarWork : BitVec 257) : BitVec 257 :=
  if scalarWork.getLsbD 0 then
    if (digitValue scalarWork).getLsbD 3 then
      scalarWork + (digitAbsValue scalarWork).setWidth 257
    else scalarWork - (digitAbsValue scalarWork).setWidth 257
  else scalarWork

/-- The registers after `rst_n`. -/
def reset : State where
  busy := false
  done := false
  digitValid := false
  digitIndex := 0
  digit := 0
  scalarWork := 0
  bitIndex := 0

/-- One clock cycle with `rst_n` high. -/
def step (i : Inputs) (s : State) : State :=
  let n := { s with done := false, digitValid := false }
  if !s.busy then
    if i.start then { n with busy := true, scalarWork := i.scalarIn.setWidth 257, bitIndex := 0 }
    else n
  else
    let n :=
      { n with
        digit := digitValue s.scalarWork
        digitIndex := s.bitIndex
        digitValid := true
        scalarWork := adjustedScalar s.scalarWork >>> 1 }
    if s.bitIndex = 255 then { n with busy := false, done := true }
    else { n with bitIndex := s.bitIndex + 1 }

/-! ### The recoder as a server -/

theorem counts : Handshake.Counts step Inputs.start State.done State.busy
    fun s => 255 - s.bitIndex.toNat where
  rest := by
    intro i s hidle
    unfold step
    rw [hidle]
    cases i.start <;> exact ⟨rfl, rfl⟩
  work := by
    intro i s hbusy
    unfold step
    rw [hbusy]
    by_cases hlast : s.bitIndex = 255
    · left
      simp only [hlast, Bool.not_true, Bool.false_eq_true, if_false, if_true, and_self]
    · right
      have hlower : 255 - (s.bitIndex + 1).toNat < 255 - s.bitIndex.toNat := by
        have hne : s.bitIndex.toNat ≠ 255 := fun heq => hlast (BitVec.eq_of_toNat_eq heq)
        have hlt : s.bitIndex.toNat < 256 := s.bitIndex.isLt
        rw [BitVec.toNat_add, show (1 : BitVec 8).toNat = 1 from rfl,
          Nat.mod_eq_of_lt (by omega)]
        omega
      simp only [hlast, Bool.not_true, Bool.false_eq_true, if_false, and_self, true_and]
      exact hlower

end ScalarWnaf4Recode

end Kv260Sigv
