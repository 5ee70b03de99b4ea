import Kv260Sigv.Library.QuotientRoot
import Kv260Sigv.Rtl.Ed25519PointPower

/-!
# Decompression in the point core

`STEP_DEC_1 .. STEP_DEC_14`: the root of `(y² - 1) / (d y² + 1)` with the parity of the
encoding, if there is one.
-/

set_option autoImplicit false

namespace Kv260Sigv

namespace Ed25519PointCore

open Clocked

variable {M : Multiplier} {mul : BitVec 255 → BitVec 255 → BitVec 255}

/-! ### The steps -/

/-- The registers before the power, for the second coordinate `y`. -/
def beforePower (mul : BitVec 255 → BitVec 255 → BitVec 255) (y : BitVec 255) (r : Regs) : Regs :=
  let yy := mul y y
  let u := Fe25519AuxCore.subModP yy 1
  let v := Fe25519AuxCore.addModP (mul yy ed25519D) 1
  let v2 := mul v v
  let v3 := mul v2 v
  let v4 := mul v2 v2
  { r.rest with
    step := .powDispatch
    t0 := y
    t1 := yy
    t2 := u
    t3 := v
    t4 := v2
    t5 := v3
    t6 := v4
    t7 := mul u v3
    auxPipeA := mul yy ed25519D
    auxPipeB := 1
    auxStage := v
    powInput := mul (mul u v3) v4
    powValue := 0
    powT1 := 0
    powT2 := 0
    powPhase := .init0
    powSqRemaining := 0 }

/-- The steps `STEP_DEC_1 .. STEP_DEC_7`. -/
theorem leadsTo_beforePower {i : Inputs} (hop : i.op = opDecompress) (n : Regs) :
    (load i n).LeadsTo mul (beforePower mul (encodedYCanonical i.encodedPoint) (load i n)) := by
  have hload : load i n = issue (encodedYCanonical i.encodedPoint)
      (encodedYCanonical i.encodedPoint) .dec1
        { load i n with t0 := encodedYCanonical i.encodedPoint } := by
    simp [load, hop, opDecompress, opDouble, opAdd, issue]
  refine ⟨9, fun k => ?_⟩
  rw [hload, Nat.add_comm]
  simp only [Regs.finish, Regs.advance, stepBusy, Step.waits, issue, auxResult, auxMux, Regs.rest,
    Fe25519AuxCore.result, auxPipeAddResult_eq, reduceCtorEq, if_true, ite_cond_eq_false,
    Bool.false_eq_true, beforePower]

/-- The root with the parity asked for. -/
def signed (sign : Bool) (x : BitVec 255) : BitVec 255 :=
  if x.getLsbD 0 ≠ sign then Fe25519AuxCore.negModP x else x

/-- A root found: the outputs. -/
def rooted (mul : BitVec 255 → BitVec 255 → BitVec 255) (sign : Bool) (x y : BitVec 255) :
    ExtPoint :=
  ⟨signed sign x, y, 1, mul (signed sign x) y⟩

theorem auxPipeSignResult_eq (r : Regs) :
    auxPipeSignResult r =
      if r.auxPipeNegate then Fe25519AuxCore.negModP r.auxPipeA else r.auxPipeA := rfl

/-- The registers with the candidate and its two tests. -/
def tested (mul : BitVec 255 → BitVec 255 → BitVec 255) (r : Regs) : Regs :=
  let root := mul r.t7 r.powValue
  let check := mul r.t3 (mul root root)
  { r.rest with
    step := .dec11Branch
    t3 := check
    t8 := root
    auxStage := Fe25519AuxCore.negModP r.t2
    decMatchPos := check = r.t2
    decMatchNeg := check = Fe25519AuxCore.negModP r.t2 }

/-- The steps `STEP_DEC_8 .. STEP_DEC_11_COMPARE`. -/
theorem leadsTo_tested {r : Regs} (hstep : r.step = .dec8) : r.LeadsTo mul (tested mul r) := by
  have hr : r = { r with step := .dec8 } := by rw [← hstep]
  refine ⟨5, fun k => ?_⟩
  rw [hr, Nat.add_comm]
  simp only [Regs.finish, Regs.advance, stepBusy, Step.waits, issue, auxResult, auxMux, Regs.rest,
    Fe25519AuxCore.result, reduceCtorEq, if_true, ite_cond_eq_false, Bool.false_eq_true, tested]

/-- The steps `STEP_DEC_13 .. STEP_DEC_14`. -/
theorem finish_root {r : Regs} (hstep : r.step = .dec13) :
    (r.finish mul 5).step = .done ∧ (r.finish mul 5).flag = r.flag ∧
      (r.finish mul 5).out = rooted mul r.encodedSign r.t8 r.t0 := by
  have hr : r = { r with step := .dec13 } := by rw [← hstep]
  rw [hr]
  simp only [Regs.finish, Regs.advance, stepBusy, Step.waits, issue, Regs.rest,
    auxPipeSignResult_eq, reduceCtorEq, if_true, ite_cond_eq_false, Bool.false_eq_true, rooted,
    signed, decide_eq_true_eq, and_self]

theorem advance_branch {r : Regs} (hstep : r.step = .dec11Branch) :
    r.advance mul =
      if r.decMatchPos then { r.rest with flag := true, step := .dec13 }
      else if r.decMatchNeg then issue r.t8 ed25519SqrtM1 .dec12 r.rest
      else { r.rest with flag := false, out := zeroPoint, step := .done } := by
  rw [Regs.advance, hstep]
  simp only [Step.waits, Bool.false_eq_true, if_false, stepBusy, hstep]

theorem advance_twist {r : Regs} (hstep : r.step = .dec12) :
    r.advance mul = { r.rest with t8 := mul r.feA r.feB, flag := true, step := .dec13 } := by
  rw [Regs.advance, hstep]
  simp only [Step.waits, if_true, stepBusy, Regs.rest_step, hstep]

/-- What the steps `STEP_DEC_8 .. STEP_DEC_14` leave in `flag` and at the outputs. -/
def afterPower (mul : BitVec 255 → BitVec 255 → BitVec 255) (r : Regs) : Bool × ExtPoint :=
  let root := mul r.t7 r.powValue
  let check := mul r.t3 (mul root root)
  if check = r.t2 then (true, rooted mul r.encodedSign root r.t0)
  else if check = Fe25519AuxCore.negModP r.t2 then
    (true, rooted mul r.encodedSign (mul root ed25519SqrtM1) r.t0)
  else (false, zeroPoint)

theorem leadsTo_rooted {r r' : Regs} (hleads : r.LeadsTo mul r') (hstep : r'.step = .dec13) :
    ∃ r'' : Regs, r.LeadsTo mul r'' ∧ r''.step = .done ∧
      (r''.flag, r''.out) = (r'.flag, rooted mul r'.encodedSign r'.t8 r'.t0) := by
  obtain ⟨hdone, hflag, hout⟩ := @finish_root mul r' hstep
  exact ⟨_, hleads.trans (r'.leadsTo_finish 5), hdone, by rw [hflag, hout]⟩

theorem leadsTo_afterPower {r : Regs} (hstep : r.step = .dec8) :
    ∃ r' : Regs, r.LeadsTo mul r' ∧ r'.step = .done ∧ (r'.flag, r'.out) = afterPower mul r := by
  have hleads := (@leadsTo_tested mul r hstep).trans
    (@Regs.leadsTo_advance mul (tested mul r) Step.noConfusion)
  rw [advance_branch rfl] at hleads
  by_cases hpos : (tested mul r).decMatchPos = true
  · -- a root
    rw [if_pos hpos] at hleads
    obtain ⟨r', hleads', hdone, hout⟩ := leadsTo_rooted hleads rfl
    refine ⟨r', hleads', hdone, hout.trans ?_⟩
    exact (if_pos (of_decide_eq_true hpos)).symm
  · rw [if_neg hpos] at hleads
    have hpos' := fun h => hpos (decide_eq_true h)
    by_cases hneg : (tested mul r).decMatchNeg = true
    · -- a root of the opposite
      rw [if_pos hneg] at hleads
      have htwist := hleads.trans (@Regs.leadsTo_advance mul
        (issue (tested mul r).t8 ed25519SqrtM1 .dec12 (tested mul r).rest) Step.noConfusion)
      rw [advance_twist rfl] at htwist
      obtain ⟨r', hleads', hdone, hout⟩ := leadsTo_rooted htwist rfl
      refine ⟨r', hleads', hdone, hout.trans ?_⟩
      exact ((if_neg hpos').trans (if_pos (of_decide_eq_true hneg))).symm
    · -- no root
      rw [if_neg hneg] at hleads
      have hneg' := fun h => hneg (decide_eq_true h)
      exact ⟨_, hleads, rfl, ((if_neg hpos').trans (if_neg hneg')).symm⟩

/-! ### The encoding -/

/-- The `y` of an encoding. -/
theorem toNat_encodedYCanonical (e : BitVec 256) :
    (encodedYCanonical e).toNat = e.toNat % 2 ^ 255 % fieldP := by
  have hp : fieldP = 2 ^ 255 - 19 := rfl
  have hy : (e.setWidth 255).toNat = e.toNat % 2 ^ 255 := BitVec.toNat_setWidth _ _
  rw [encodedYCanonical]
  split
  · next h =>
      rw [Fe25519AuxCore.needsReduce_iff, hy] at h
      rw [BitVec.toNat_setWidth, BitVec.toNat_add, BitVec.toNat_setWidth, hy]
      show (_ + 19) % 2 ^ 256 % 2 ^ 255 = _
      rw [hp]
      omega
  · next h =>
      rw [Fe25519AuxCore.needsReduce_iff, hy] at h
      rw [hy, hp]
      omega

/-- The standard encoding: `y` with the parity of `x` above it. -/
def encodePoint (x y : BitVec 255) : BitVec 256 := y.cons (x.getLsbD 0)

theorem getLsbD_encodePoint (x y : BitVec 255) :
    (encodePoint x y).getLsbD 255 = x.getLsbD 0 := by
  rw [encodePoint, BitVec.getLsbD_cons, if_pos rfl]

theorem encodedYCanonical_encodePoint (x : BitVec 255) {y : BitVec 255} (hy : Canonical y) :
    encodedYCanonical (encodePoint x y) = y := by
  have hlow : (encodePoint x y).toNat % 2 ^ 255 = y.toNat := by
    rw [← BitVec.toNat_setWidth, encodePoint, BitVec.setWidth_cons]
  apply BitVec.eq_of_toNat_eq
  rw [toNat_encodedYCanonical, hlow, Nat.mod_eq_of_lt hy]

/-! ### The parity -/

theorem getLsbD_zero_eq (x : BitVec 255) : x.getLsbD 0 = decide (x.toNat % 2 = 1) := by
  rw [BitVec.getLsbD, Nat.testBit_zero]

/-- The opposite has the other parity, as `p` is odd. -/
theorem getLsbD_negModP {x : BitVec 255} (hx : Canonical x) (hne : x ≠ 0) :
    (Fe25519AuxCore.negModP x).getLsbD 0 = !x.getLsbD 0 := by
  have hodd : fieldP % 2 = 1 := by decide
  have hpos : x.toNat ≠ 0 := fun h => hne (BitVec.eq_of_toNat_eq h)
  have hlt : x.toNat < fieldP := hx
  have hflip : (fieldP - x.toNat) % fieldP % 2 = 1 ↔ ¬ x.toNat % 2 = 1 := by
    rw [Nat.mod_eq_of_lt (show fieldP - x.toNat < fieldP by omega)]
    omega
  rw [getLsbD_zero_eq, getLsbD_zero_eq, Fe25519AuxCore.toNat_negModP hx, ← decide_not]
  exact decide_eq_decide.mpr hflip

theorem canonical_signed {x : BitVec 255} (sign : Bool) (hx : Canonical x) :
    Canonical (signed sign x) := by
  rw [signed]
  split
  · exact Fe25519AuxCore.canonical_negModP hx
  · exact hx

theorem toField_signed_sq {x : BitVec 255} (sign : Bool) (hx : Canonical x) :
    toField (signed sign x) * toField (signed sign x) = toField x * toField x := by
  rw [signed]
  split
  · rw [Fe25519AuxCore.toField_negModP hx, neg_mul_neg]
  · rfl

theorem getLsbD_signed {x : BitVec 255} (sign : Bool) (hx : Canonical x) (hne : x ≠ 0) :
    (signed sign x).getLsbD 0 = sign := by
  rw [signed]
  split
  · next h =>
      rw [getLsbD_negModP hx hne]
      cases hsign : sign <;> cases hlow : x.getLsbD 0 <;> simp_all
  · next h => exact not_not.mp h

/-- Two roots with one parity are equal. -/
theorem eq_of_sq_eq {x x' : BitVec 255} (hx : Canonical x) (hx' : Canonical x')
    (hsq : toField x * toField x = toField x' * toField x')
    (hlow : x ≠ 0 → x.getLsbD 0 = x'.getLsbD 0) : x = x' := by
  rcases mul_self_eq_mul_self_iff.mp hsq with h | h
  · exact hx.ext hx' h
  · rw [← Fe25519AuxCore.toField_negModP hx'] at h
    have hneg := hx.ext (Fe25519AuxCore.canonical_negModP hx') h
    rcases eq_or_ne x' 0 with rfl | hne
    · rw [hneg]
      rfl
    · -- the parities of the two differ
      have hne' : x ≠ 0 := by
        intro hzero
        rw [hzero, toField_zero, Fe25519AuxCore.toField_negModP hx', eq_comm, neg_eq_zero,
          ← toField_zero] at h
        exact hne (hx'.ext (by decide) h)
      have hflip := getLsbD_negModP hx' hne
      rw [← hneg, hlow hne'] at hflip
      exact ((Bool.eq_not_self _).mp hflip).elim

/-! ### The root -/

/-- `(p - 5) / 8`. -/
def rootExponent : ℕ := 2 ^ 252 - 3

theorem pow_eq_one_of_ne_zero (x : ZMod fieldP) (hx : x ≠ 0) : x ^ (8 * rootExponent + 4) = 1 := by
  rw [show 8 * rootExponent + 4 = fieldP - 1 by decide]
  exact ZMod.pow_card_sub_one_eq_one hx

/-- The registers the power is computed from, and the power. -/
structure PowerDone (y : BitVec 255) (sign : Bool) (r : Regs) : Prop where
  t0 : r.t0 = y
  t2 : r.t2 = Fe25519AuxCore.subModP (mulModP y y) 1
  t3 : r.t3 = Fe25519AuxCore.addModP (mulModP (mulModP y y) ed25519D) 1
  t7 : toField r.t7 = toField r.t2 * toField r.t3 ^ 3
  power : toField r.powValue = (toField r.t2 * toField r.t3 ^ 7) ^ rootExponent
  sign : r.encodedSign = sign

section root

variable {y : BitVec 255} {sign : Bool} {r : Regs}

theorem PowerDone.canonical_t2 (h : PowerDone y sign r) : Canonical r.t2 := by
  rw [h.t2]
  exact Fe25519AuxCore.canonical_subModP (canonical_mulModP _ _) canonical_one

theorem PowerDone.toField_t2 (h : PowerDone y sign r) :
    toField r.t2 = toField y * toField y - 1 := by
  rw [h.t2, Fe25519AuxCore.toField_subModP (canonical_mulModP _ _) canonical_one,
    toField_mulModP, toField_one]

theorem PowerDone.toField_t3 (h : PowerDone y sign r) :
    toField r.t3 = curve.d * (toField y * toField y) + 1 := by
  rw [h.t3, Fe25519AuxCore.toField_addModP (canonical_mulModP _ _) canonical_one,
    toField_mulModP, toField_mulModP, toField_one, mul_comm]
  rfl

theorem PowerDone.toField_root (h : PowerDone y sign r) :
    toField (mulModP r.t7 r.powValue) =
      QuotientRoot.candidate rootExponent (toField r.t2) (toField r.t3) := by
  rw [toField_mulModP, h.t7, h.power, QuotientRoot.candidate]

/-- The points with this `y`. -/
theorem PowerDone.on_iff (h : PowerDone y sign r) (x : ZMod fieldP) :
    curve.On x (toField y) ↔ x * x * toField r.t3 = toField r.t2 := by
  rw [Edwards.Curve.on_iff, h.toField_t2, h.toField_t3]

/-- The registers of the two tests. -/
theorem PowerDone.check_iff (h : PowerDone y sign r) {b : BitVec 255} (hb : Canonical b) :
    mulModP r.t3 (mulModP (mulModP r.t7 r.powValue) (mulModP r.t7 r.powValue)) = b ↔
      toField r.t3 * (QuotientRoot.candidate rootExponent (toField r.t2) (toField r.t3) *
        QuotientRoot.candidate rootExponent (toField r.t2) (toField r.t3)) = toField b := by
  rw [← (canonical_mulModP _ _).eq_iff hb, toField_mulModP, toField_mulModP, h.toField_root]

/-- What a decompression of `y` with this sign has to give. -/
structure Decompressed (y : BitVec 255) (sign flag : Bool) (out : ExtPoint) : Prop where
  flag_iff : flag = true ↔ ∃ x, curve.On x (toField y)
  zero : flag = false → out = zeroPoint
  y_eq : flag = true → out.y = y
  z_eq : flag = true → out.z = 1
  t_eq : flag = true → out.t = mulModP out.x y
  canonical : flag = true → Canonical out.x
  on : flag = true → curve.On (toField out.x) (toField y)
  parity : flag = true → out.x ≠ 0 → out.x.getLsbD 0 = sign

/-- A root, whichever of the two, gives the point. -/
theorem decompressed_rooted {root : BitVec 255} (hcanonical : Canonical root)
    (hon : curve.On (toField root) (toField y)) :
    Decompressed y sign true (rooted mulModP sign root y) where
  flag_iff := iff_of_true rfl ⟨_, hon⟩
  zero := fun h => by cases h
  y_eq := fun _ => rfl
  z_eq := fun _ => rfl
  t_eq := fun _ => rfl
  canonical := fun _ => canonical_signed sign hcanonical
  on := by
    intro _
    rw [Edwards.Curve.on_iff] at hon ⊢
    show toField (signed sign root) * toField (signed sign root) * _ = _
    rw [toField_signed_sq sign hcanonical, hon]
  parity := by
    intro _ hne
    refine getLsbD_signed sign hcanonical ?_
    rintro rfl
    refine hne ?_
    show signed sign 0 = 0
    rw [signed]
    split <;> rfl

/-- The last steps decide whether there is a point, and give it. -/
theorem PowerDone.decompressed (h : PowerDone y sign r) :
    Decompressed y sign (afterPower mulModP r).1 (afterPower mulModP r).2 := by
  have hv : toField r.t3 ≠ 0 := by
    rw [h.toField_t3]
    exact curve.denominator_ne_zero _
  have hroots := @QuotientRoot.exists_root_iff _ _ _ _ (toField r.t2) _ pow_eq_one_of_ne_zero
    toField_ed25519SqrtM1 hv
  have hpos := h.check_iff h.canonical_t2
  have hneg := h.check_iff (Fe25519AuxCore.canonical_negModP h.canonical_t2)
  rw [Fe25519AuxCore.toField_negModP h.canonical_t2] at hneg
  rw [← hpos, ← hneg] at hroots
  rw [afterPower, h.sign, h.t0]
  split
  · next heq =>
      -- the candidate is a root
      refine decompressed_rooted (canonical_mulModP _ _) ?_
      rw [h.on_iff, h.toField_root]
      linear_combination hpos.mp heq
  · next hne =>
      split
      · next heq =>
          -- the candidate is a root of the opposite
          refine decompressed_rooted (canonical_mulModP _ _) ?_
          rw [h.on_iff, toField_mulModP, h.toField_root]
          linear_combination
            QuotientRoot.candidate rootExponent (toField r.t2) (toField r.t3) *
              QuotientRoot.candidate rootExponent (toField r.t2) (toField r.t3) * toField r.t3 *
                toField_ed25519SqrtM1 - hneg.mp heq
      · next hne' =>
          refine ⟨?_, fun _ => rfl, ?_, ?_, ?_, ?_, ?_, ?_⟩
          · refine iff_of_false Bool.false_ne_true ?_
            rintro ⟨x, hx⟩
            exact (hroots.mp ⟨x, (h.on_iff x).mp hx⟩).elim hne hne'
          all_goals
            intro hflag
            cases hflag

end root

/-! ### The core -/

theorem holds_beforePower (y : BitVec 255) (r : Regs) :
    (beforePower mul y r).Holds (Chain.start 0) where
  step := rfl
  phase := fun _ h => Option.some.inj h
  remaining := rfl
  value := rfl
  t1 := rfl
  t2 := rfl

theorem load_sign {i : Inputs} (hop : i.op = opDecompress) (n : Regs) :
    (load i n).encodedSign = i.encodedPoint.getLsbD 255 := by
  simp [load, hop, opDecompress, opDouble, opAdd, issue]

/-- The power of a decompression is there after `STEP_POW_DISPATCH` and `STEP_POW_WAIT`. -/
theorem powerDone_of_aside {y : BitVec 255} {r r' : Regs}
    (haside : (beforePower mulModP y r).Aside r')
    (hpower : toField r'.powValue =
      toField (beforePower mulModP y r).powInput ^ (2 ^ 252 - 3)) :
    PowerDone y r.encodedSign r' where
  t0 := haside.t0
  t2 := haside.t2
  t3 := haside.t3
  t7 := by
    rw [haside.t7, haside.t2, haside.t3]
    simp only [beforePower, toField_mulModP]
    ring
  power := by
    rw [hpower, haside.t2, haside.t3, rootExponent]
    simp only [beforePower, toField_mulModP]
    congr 1
    ring
  sign := haside.sign

theorem ends_decompress (h : M.Computes mulModP) (after : ℕ → Inputs) {s : State M} {i : Inputs}
    (hs : s.Sound mulModP) (hidle : s.regs.step = .idle) (hstart : i.start = true)
    (hop : i.op = opDecompress) :
    ∃ flag out, Ends after (step i s) flag out ∧
      Decompressed (encodedYCanonical i.encodedPoint) (i.encodedPoint.getLsbD 255) flag out := by
  obtain ⟨hload, hrunning⟩ := at_load h hs hidle hstart
  obtain ⟨r₁, hpower, hstep, hvalue, haside⟩ := leadsTo_power
    (@holds_beforePower mulModP (encodedYCanonical i.encodedPoint) (load i s.regs.rest))
  have hdone := powerDone_of_aside haside hvalue
  rw [load_sign hop] at hdone
  obtain ⟨r₂, hlast, hend, hout⟩ := @leadsTo_afterPower mulModP r₁ hstep
  obtain ⟨n, hfinish⟩ := (((leadsTo_beforePower hop s.regs.rest).trans hpower).trans
    hlast).exists_finish hend
  have hdecompressed := hdone.decompressed
  rw [← hout] at hdecompressed
  refine ⟨r₂.flag, r₂.out, ?_, hdecompressed⟩
  rw [← hfinish] at hend ⊢
  exact ends_of_finish h n hload hrunning hend

/-- The root is zero exactly where `y² = 1`. -/
theorem Decompressed.x_eq_zero_iff {y : BitVec 255} {sign : Bool} {out : ExtPoint}
    (h : Decompressed y sign true out) : out.x = 0 ↔ mulModP y y = 1 := by
  have hon := h.on rfl
  rw [Edwards.Curve.on_iff] at hon
  rw [← (h.canonical rfl).eq_iff canonical_zero, ← (canonical_mulModP y y).eq_iff canonical_one,
    toField_mulModP, toField_zero, toField_one]
  constructor
  · intro hx
    rw [hx] at hon
    linear_combination -hon
  · intro hy
    have hzero := hon.trans (sub_eq_zero.mpr hy)
    exact mul_self_eq_zero.mp
      ((mul_eq_zero.mp hzero).resolve_right (curve.denominator_ne_zero _))

/-- The encoding of a point decompresses to it. -/
theorem Decompressed.eq_of_on {x y : BitVec 255} {flag : Bool} {out : ExtPoint}
    (hx : Canonical x) (hon : curve.On (toField x) (toField y))
    (h : Decompressed y (x.getLsbD 0) flag out) :
    flag = true ∧ out = ⟨x, y, 1, mulModP x y⟩ := by
  have hflag : flag = true := h.flag_iff.mpr ⟨_, hon⟩
  subst hflag
  have hsq : toField out.x * toField out.x = toField x * toField x := by
    have hout := h.on rfl
    rw [Edwards.Curve.on_iff] at hon hout
    exact mul_right_cancel₀ (curve.denominator_ne_zero _) (hout.trans hon.symm)
  have hroot := eq_of_sq_eq (h.canonical rfl) hx hsq (h.parity rfl)
  have hy := h.y_eq rfl
  have hz := h.z_eq rfl
  have ht := h.t_eq rfl
  obtain ⟨x', y', z', t'⟩ := out
  simp only at hroot hy hz ht
  rw [ht, hroot, hy, hz]
  exact ⟨rfl, rfl⟩

/-- With an exact multiplier `OP_DECOMPRESS` finds the point of every encoding that has
one and rejects the others, in every cycle the core is idle in; the encoding of a point
gives the point. -/
theorem decompress_correct (h : M.Exact) (before after : ℕ → Inputs) (s₀ : State M) (n : ℕ)
    (hidle : (run step before (reset s₀) n).regs.busy = false) {i : Inputs}
    (hstart : i.start = true) (hop : i.op = opDecompress) :
    ∃ (y : BitVec 255) (flag : Bool) (out : ExtPoint),
      y.toNat = i.encodedPoint.toNat % 2 ^ 255 % fieldP ∧
      Ends after (step i (run step before (reset s₀) n)) flag out ∧
      (flag = true ↔ ∃ x, curve.On x (toField y)) ∧
      (flag = true → out.y = y ∧ out.z = 1 ∧ out.t = mulModP out.x y ∧ Canonical out.x ∧
        curve.On (toField out.x) (toField y) ∧
        if mulModP y y = 1 then out.x = 0
        else out.x.getLsbD 0 = i.encodedPoint.getLsbD 255) ∧
      (flag = false → out = zeroPoint) ∧
      ∀ x y' : BitVec 255, Canonical x → Canonical y' → curve.On (toField x) (toField y') →
        i.encodedPoint = encodePoint x y' → flag = true ∧ out = ⟨x, y', 1, mulModP x y'⟩ := by
  have hsound := sound_run h.computes regular_mulModP before s₀ n
  obtain ⟨flag, out, hends, hdec⟩ :=
    ends_decompress h.computes after hsound (hsound.step_eq_idle hidle) hstart hop
  refine ⟨_, flag, out, toNat_encodedYCanonical _, hends, hdec.flag_iff, ?_, hdec.zero, ?_⟩
  · intro hflag
    refine ⟨hdec.y_eq hflag, hdec.z_eq hflag, hdec.t_eq hflag, hdec.canonical hflag,
      hdec.on hflag, ?_⟩
    subst hflag
    split
    · next hy => exact hdec.x_eq_zero_iff.mpr hy
    · next hy => exact hdec.parity rfl fun hx => hy (hdec.x_eq_zero_iff.mp hx)
  · intro x y' hx hy hon hencoded
    rw [hencoded, encodedYCanonical_encodePoint x hy, getLsbD_encodePoint] at hdec
    exact hdec.eq_of_on hx hon

/-- The encoding of the neutral element. -/
theorem decompress_correct_neutral :
    let i : Inputs := ⟨true, opDecompress, 1, zeroPoint, zeroPoint⟩
    Ends (fun _ => i) (step i (reset (⟨resetRegs, none⟩ : State promptMultiplier))) true
      ⟨0, 1, 1, 0⟩ := by
  intro i
  have hon : curve.On (toField 0) (toField 1) := by
    rw [toField_zero, toField_one, Edwards.Curve.On]
    ring
  obtain ⟨y, flag, out, -, hends, -, -, -, hpoint⟩ :=
    decompress_correct exact_promptMultiplier (fun _ => i) (fun _ => i) ⟨resetRegs, none⟩ 0 rfl
      (rfl : i.start = true) rfl
  obtain ⟨hflag, hout⟩ := hpoint 0 1 canonical_zero canonical_one hon (by decide)
  rw [hflag, hout, show mulModP 0 1 = 0 by decide] at hends
  exact hends

end Ed25519PointCore

end Kv260Sigv
