import Kv260Sigv.Rtl.Ed25519PointAdd
import Kv260Sigv.Rtl.Ed25519VerifyRecode
import Mathlib.Tactic.Module

/-!
# The controller in an abelian group

What the points of the controller stand for when its additions, doublings and negations are
those of a group (`Denotes`), with the key as `A` and the table as multiples of `B`.  A point
is used for `x • B - y • A` when it stands for that in every group (`Combines`).
-/

set_option autoImplicit false

namespace Kv260Sigv

namespace Ed25519VerifyEngine

open Ed25519PointCore (added doubled)

universe u

variable {M : Multiplier} {w : ℕ} {mul : BitVec 255 → BitVec 255 → BitVec 255}

/-- The size of a digit that is not zero. -/
def oddSizes : List ℕ := [1, 3, 5, 7]

/-- The operations of the controller and its point core as those of a group: `a` is the key, for
`A`, and the table has multiples of `B`. -/
inductive Denotes (mul : BitVec 255 → BitVec 255 → BitVec 255) {G : Type u} [AddCommGroup G]
    (A B : G) (a : ExtPoint) : ExtPoint → G → Prop
  | key : Denotes mul A B a a A
  | table (d : BitVec 4) (hd : d.toNat ∈ oddSizes) :
      Denotes mul A B a (Ed25519BasepointTable.point d) (d.toNat • B)
  | neutral : Denotes mul A B a onePoint 0
  | add {p q : ExtPoint} {g h : G} (hp : Denotes mul A B a p g) (hq : Denotes mul A B a q h) :
      Denotes mul A B a (added mul (decide (q.z = 1)) p q) (g + h)
  | double {p : ExtPoint} {g : G} (hp : Denotes mul A B a p g) :
      Denotes mul A B a (doubled mul p) (g + g)
  | neg {p : ExtPoint} {g : G} (hp : Denotes mul A B a p g) : Denotes mul A B a (negPoint p) (-g)

/-- In every group the point stands for `x • B - y • A`. -/
def Combines (mul : BitVec 255 → BitVec 255 → BitVec 255) (a p : ExtPoint) (x y : ℤ) : Prop :=
  ∀ (G : Type u) [AddCommGroup G] (A B : G), Denotes mul A B a p (x • B - y • A)

namespace Combines

variable {a p q : ExtPoint} {x y x' y' : ℤ}

theorem key : Combines.{u} mul a a 0 (-1) := by
  intro G _ A B
  have hvalue : (0 : ℤ) • B - (-1 : ℤ) • A = A := by module
  rw [hvalue]
  exact .key

theorem table (d : BitVec 4) (hd : d.toNat ∈ oddSizes) :
    Combines.{u} mul a (Ed25519BasepointTable.point d) d.toNat 0 := by
  intro G _ A B
  have hvalue : (d.toNat : ℤ) • B - (0 : ℤ) • A = d.toNat • B := by
    rw [zero_smul, sub_zero, natCast_zsmul]
  rw [hvalue]
  exact .table d hd

theorem neutral : Combines.{u} mul a onePoint 0 0 := by
  intro G _ A B
  have hvalue : (0 : ℤ) • B - (0 : ℤ) • A = 0 := by module
  rw [hvalue]
  exact .neutral

theorem add (hp : Combines.{u} mul a p x y) (hq : Combines.{u} mul a q x' y') :
    Combines.{u} mul a (added mul (decide (q.z = 1)) p q) (x + x') (y + y') := by
  intro G _ A B
  have hvalue : (x + x') • B - (y + y') • A = (x • B - y • A) + (x' • B - y' • A) := by module
  rw [hvalue]
  exact (hp G A B).add (hq G A B)

theorem double (hp : Combines.{u} mul a p x y) :
    Combines.{u} mul a (doubled mul p) (2 * x) (2 * y) := by
  intro G _ A B
  have hvalue : (2 * x) • B - (2 * y) • A = (x • B - y • A) + (x • B - y • A) := by module
  rw [hvalue]
  exact (hp G A B).double

theorem neg (hp : Combines.{u} mul a p x y) : Combines.{u} mul a (negPoint p) (-x) (-y) := by
  intro G _ A B
  have hvalue : (-x) • B - (-y) • A = -(x • B - y • A) := by module
  rw [hvalue]
  exact (hp G A B).neg

end Combines

/-! ### Digits -/

theorem digit_cases (d : BitVec 4) : (digitAbs d).toNat = d.toInt.natAbs ∧
    d.getLsbD 3 = decide (d.toInt < 0) ∧ (d = 0 ↔ d.toInt = 0) := by
  revert d
  decide

/-- A digit that is not zero is odd and small. -/
theorem natAbs_digits {n : ℤ} {i : ℕ} (hne : Wnaf.digits 4 n i ≠ 0) :
    (Wnaf.digits 4 n i).natAbs ∈ oddSizes := by
  have hodd := (Wnaf.digit_eq_zero_or_odd (w := 4) (by decide) (Wnaf.rest 4 n i)).resolve_left hne
  have hsmall := Wnaf.abs_digit_lt (w := 4) (by decide) (Wnaf.rest 4 n i)
  rw [← Wnaf.digits] at hodd hsmall
  rw [abs_lt] at hsmall
  generalize Wnaf.digits 4 n i = d at hodd hsmall
  simp only [oddSizes, List.mem_cons, List.not_mem_nil, or_false]
  omega

/-- The odd multiples of the key, by size. -/
def State.oddMultiple (s : State M w) (size : ℕ) : ExtPoint :=
  match size with
  | 1 => s.a
  | 3 => s.a3
  | 5 => s.a5
  | _ => s.a7

/-- For the key the sign is the other way round. -/
theorem selectA_eq (s : State M w) {d : BitVec 4} (hd : d.toInt.natAbs ∈ oddSizes) :
    selectA s d =
      if d.toInt < 0 then s.oddMultiple d.toInt.natAbs
      else negPoint (s.oddMultiple d.toInt.natAbs) := by
  obtain ⟨habs, hsign, -⟩ := digit_cases d
  rw [selectA, habs, hsign]
  simp only [oddSizes, List.mem_cons, List.not_mem_nil, or_false] at hd
  rcases hd with hsize | hsize | hsize | hsize <;> rw [hsize] <;>
    simp only [State.oddMultiple, decide_eq_true_eq]

theorem selectBase_eq (s : State M w) (d : BitVec 4) :
    selectBase s d = if d.toInt < 0 then negPoint s.basepoint else s.basepoint := by
  rw [selectBase, (digit_cases d).2.1]
  simp only [decide_eq_true_eq]

variable {a : ExtPoint} {s : State M w} {d : BitVec 4}

/-- What the operand for the key adds. -/
theorem Combines.selectA (hodd : ∀ n ∈ oddSizes, Combines.{u} mul a (s.oddMultiple n) 0 (-n))
    (hd : d.toInt.natAbs ∈ oddSizes) : Combines.{u} mul a (selectA s d) 0 d.toInt := by
  have hmultiple := hodd _ hd
  rw [selectA_eq s hd]
  split
  · rwa [show (-(d.toInt.natAbs : ℤ)) = d.toInt by omega] at hmultiple
  · have hneg := hmultiple.neg
    rwa [neg_zero, neg_neg, show (d.toInt.natAbs : ℤ) = d.toInt by omega] at hneg

/-- What the operand from the table adds. -/
theorem Combines.selectBase (hwindow : s.baseWindowValue = digitAbs d)
    (hd : d.toInt.natAbs ∈ oddSizes) : Combines.{u} mul a (selectBase s d) d.toInt 0 := by
  have habs := (digit_cases d).1
  have htable : Combines.{u} mul a s.basepoint d.toInt.natAbs 0 := by
    rw [State.basepoint, hwindow, ← habs]
    exact Combines.table (digitAbs d) (by rwa [habs])
  rw [selectBase_eq]
  split
  · have hneg := htable.neg
    rwa [neg_zero, show (-(d.toInt.natAbs : ℤ)) = d.toInt by omega] at hneg
  · rwa [show (d.toInt.natAbs : ℤ) = d.toInt by omega] at htable

end Ed25519VerifyEngine

end Kv260Sigv
