import Kv260Sigv.Library.Handshake

/-!
# `scalar_reduce_mod_l`

The digest mod `L`, a bit a cycle: a bit is shifted into the remainder and `L` is
subtracted once when it fits.  The blocking temporaries of the process are local
definitions here, since no cycle reads what an earlier one left in them.
-/

set_option autoImplicit false

namespace Kv260Sigv

/-- `` `ED25519_SCALAR_L ``. -/
def ed25519ScalarL : BitVec 256 :=
  0x1000000000000000000000000000000014def9dea2f79cd65812631a5cf5d3ed

namespace ScalarReduceModL

/-- The registers. -/
structure State where
  busy : Bool
  done : Bool
  shiftReg : BitVec 512
  remainder : BitVec 256
  scalarOut : BitVec 256
  bitIndex : BitVec 9

/-- The inputs of a cycle. -/
structure Inputs where
  start : Bool
  wideIn : BitVec 512

/-- `L_EXT`. -/
def lExt : BitVec 257 := ed25519ScalarL.setWidth 257

/-- What the loop over `byte_index` puts into `shift_reg`: the bytes in the other order. -/
def reversedBytes (wideIn : BitVec 512) : BitVec 512 :=
  (List.range 64).foldl
    (fun shift k => shift ||| (wideIn.extractLsb' ((63 - k) * 8) 8).setWidth 512 <<< (k * 8)) 0

/-- `candidate_1bit`. -/
def candidate1bit (s : State) : BitVec 257 := s.remainder ++ s.shiftReg.extractLsb' 511 1

/-- `candidate_minus_l`. -/
def candidateMinusL (s : State) : BitVec 258 :=
  (candidate1bit s).setWidth 258 - lExt.setWidth 258

/-- `next_remainder`. -/
def nextRemainder (s : State) : BitVec 256 :=
  if !(candidateMinusL s).getLsbD 257 then (candidateMinusL s).setWidth 256
  else (candidate1bit s).setWidth 256

/-- The registers after `rst_n`. -/
def reset : State where
  busy := false
  done := false
  shiftReg := 0
  remainder := 0
  scalarOut := 0
  bitIndex := 0

/-- One clock cycle with `rst_n` high. -/
def step (i : Inputs) (s : State) : State :=
  let n := { s with done := false }
  if !s.busy then
    if i.start then
      { n with
        busy := true
        shiftReg := reversedBytes i.wideIn
        remainder := 0
        scalarOut := 0
        bitIndex := 511 }
    else n
  else
    let n := { n with remainder := nextRemainder s, shiftReg := s.shiftReg <<< 1 }
    if s.bitIndex = 0 then
      { n with busy := false, done := true, scalarOut := nextRemainder s }
    else { n with bitIndex := s.bitIndex - 1 }

/-! ### The reducer as a server -/

theorem counts : Handshake.Counts step Inputs.start State.done State.busy
    fun s => s.bitIndex.toNat where
  rest := by
    intro i s hidle
    unfold step
    rw [hidle]
    cases i.start <;> exact ⟨rfl, rfl⟩
  work := by
    intro i s hbusy
    unfold step
    rw [hbusy]
    by_cases hlast : s.bitIndex = 0
    · left
      simp only [hlast, Bool.not_true, Bool.false_eq_true, if_false, if_true, and_self]
    · right
      have hlower : (s.bitIndex - 1).toNat < s.bitIndex.toNat := by
        have hpos : s.bitIndex.toNat ≠ 0 := fun hzero => hlast (BitVec.eq_of_toNat_eq hzero)
        have hle : 1 ≤ s.bitIndex := BitVec.le_def.mpr (Nat.pos_of_ne_zero hpos)
        rw [BitVec.toNat_sub_of_le hle]
        exact Nat.sub_lt (Nat.pos_of_ne_zero hpos) Nat.one_pos
      simp only [hlast, Bool.not_true, Bool.false_eq_true, if_false, and_self, true_and]
      exact hlower

end ScalarReduceModL

end Kv260Sigv
