import Kv260Sigv.Rtl.Ed25519Field
import Kv260Sigv.Rtl.Ed25519PointRun

/-!
# The power in the point core

`STEP_POW_DISPATCH` and `STEP_POW_WAIT` drive a chain of multiplications through fifteen
phases.  Which registers a multiplication reads and where its product goes depends on the
phase and the count of squarings alone, so the chain can be run on values of any kind
(`Chain`): on registers it is what the sequencer does, and on exponents it counts.
-/

set_option autoImplicit false

namespace Kv260Sigv

namespace Ed25519PointCore

variable {M : Multiplier} {mul : BitVec 255 → BitVec 255 → BitVec 255}

/-! ### The chain -/

/-- `pow_input`, `pow_value`, `pow_t1` and `pow_t2`. -/
inductive PowReg where
  | input
  | value
  | t1
  | t2
  deriving DecidableEq, Repr

/-- A multiplication of the chain. -/
structure PowProduct where
  a : PowReg
  b : PowReg
  isSquare : Bool
  store : PowStore

/-- The multiplication of a phase with so many squarings left. -/
def powProduct (phase : PowPhase) (remaining : BitVec 7) : PowProduct :=
  match phase with
  | .init0 => ⟨.input, .input, false, .value⟩
  | .init1 => ⟨.value, .value, false, .t1⟩
  | .init2 => ⟨.t1, .t1, false, .t1⟩
  | .init3 => ⟨.input, .t1, false, .t1⟩
  | .init4 => ⟨.value, .t1, false, .value⟩
  | .init5 => ⟨.value, .value, false, .value⟩
  | .init6 => ⟨.t1, .value, false, .value⟩
  | .phase10 =>
      if remaining = 0 then ⟨.t1, .value, false, .value⟩
      else if remaining = 5 then ⟨.value, .value, true, .t1⟩ else ⟨.t1, .t1, true, .t1⟩
  | .phase20 =>
      if remaining = 0 then ⟨.t1, .value, false, .t1⟩
      else if remaining = 10 then ⟨.value, .value, true, .t1⟩ else ⟨.t1, .t1, true, .t1⟩
  | .phase40 =>
      if remaining = 0 then ⟨.t2, .t1, false, .t1⟩
      else if remaining = 20 then ⟨.t1, .t1, true, .t2⟩ else ⟨.t2, .t2, true, .t2⟩
  | .phase50 =>
      if remaining = 0 then ⟨.t1, .value, false, .value⟩ else ⟨.t1, .t1, true, .t1⟩
  | .phase100 =>
      if remaining = 0 then ⟨.t1, .value, false, .t1⟩
      else if remaining = 50 then ⟨.value, .value, true, .t1⟩ else ⟨.t1, .t1, true, .t1⟩
  | .phase200 =>
      if remaining = 0 then ⟨.t2, .t1, false, .t1⟩
      else if remaining = 100 then ⟨.t1, .t1, true, .t2⟩ else ⟨.t2, .t2, true, .t2⟩
  | .phase250 =>
      if remaining = 0 then ⟨.t1, .value, false, .value⟩ else ⟨.t1, .t1, true, .t1⟩
  | .final =>
      if remaining = 0 then ⟨.value, .input, false, .value⟩ else ⟨.value, .value, true, .value⟩

/-- The phase after this one and its count of squarings. -/
def phaseAfter (phase : PowPhase) (remaining : BitVec 7) : Option PowPhase × BitVec 7 :=
  match phase with
  | .init0 => (some .init1, remaining)
  | .init1 => (some .init2, remaining)
  | .init2 => (some .init3, remaining)
  | .init3 => (some .init4, remaining)
  | .init4 => (some .init5, remaining)
  | .init5 => (some .init6, remaining)
  | .init6 => (some .phase10, 5)
  | .phase10 => (some .phase20, 10)
  | .phase20 => (some .phase40, 20)
  | .phase40 => (some .phase50, 10)
  | .phase50 => (some .phase100, 50)
  | .phase100 => (some .phase200, 100)
  | .phase200 => (some .phase250, 50)
  | .phase250 => (some .final, 2)
  | .final => (none, remaining)

/-- The registers of the chain, with values of any kind; without a phase it has ended. -/
structure Chain (G : Type) where
  phase : Option PowPhase
  remaining : BitVec 7
  value : G
  t1 : G
  t2 : G

namespace Chain

variable {G H : Type}

/-- What a register holds. -/
def read (input : G) (c : Chain G) : PowReg → G
  | .input => input
  | .value => c.value
  | .t1 => c.t1
  | .t2 => c.t2

/-- A product goes to its register. -/
def write (g : G) (c : Chain G) : PowStore → Chain G
  | .value => { c with value := g }
  | .t1 => { c with t1 := g }
  | .t2 => { c with t2 := g }

/-- One multiplication. -/
def multiply (mul : G → G → G) (input : G) (c : Chain G) : Chain G :=
  match c.phase with
  | none => c
  | some phase =>
      let product := powProduct phase c.remaining
      let c' := c.write (mul (c.read input product.a) (c.read input product.b)) product.store
      if product.isSquare then
        { c' with remaining := if c.remaining = 1 then 0 else c.remaining - 1 }
      else
        let after := phaseAfter phase c.remaining
        { c' with phase := after.1, remaining := after.2 }

theorem multiply_of_phase (mul : G → G → G) (input : G) {c : Chain G} {phase : PowPhase}
    (hphase : c.phase = some phase) {product : PowProduct}
    (hproduct : powProduct phase c.remaining = product) {c' : Chain G}
    (hc : c.write (mul (c.read input product.a) (c.read input product.b)) product.store = c') :
    c.multiply mul input =
      if product.isSquare then
        { c' with remaining := if c.remaining = 1 then 0 else c.remaining - 1 }
      else
        { c' with
          phase := (phaseAfter phase c.remaining).1
          remaining := (phaseAfter phase c.remaining).2 } := by
  subst hproduct hc
  rw [multiply, hphase]

/-- The first phase, with `g` in all registers. -/
def start (g : G) : Chain G := ⟨some .init0, 0, g, g, g⟩

/-- The same chain on other values. -/
def map (f : G → H) (c : Chain G) : Chain H := ⟨c.phase, c.remaining, f c.value, f c.t1, f c.t2⟩

@[simp] theorem map_phase (f : G → H) (c : Chain G) : (c.map f).phase = c.phase := rfl

@[simp] theorem map_value (f : G → H) (c : Chain G) : (c.map f).value = f c.value := rfl

theorem read_map (f : G → H) (input : G) (c : Chain G) (reg : PowReg) :
    (c.map f).read (f input) reg = f (c.read input reg) := by
  cases reg <;> rfl

theorem write_map (f : G → H) (g : G) (c : Chain G) (store : PowStore) :
    (c.map f).write (f g) store = (c.write g store).map f := by
  cases store <;> rfl

/-- A map that respects the products respects the chain. -/
theorem multiply_map {f : G → H} {mul : G → G → G} {mul' : H → H → H}
    (hf : ∀ a b, f (mul a b) = mul' (f a) (f b)) (input : G) (c : Chain G) :
    (c.map f).multiply mul' (f input) = (c.multiply mul input).map f := by
  unfold multiply
  simp only [read_map, ← hf, write_map]
  cases hphase : c.phase with
  | none => simp only [map, hphase]
  | some phase =>
      simp only [map, hphase]
      split <;> rfl

theorem iterate_map {f : G → H} {mul : G → G → G} {mul' : H → H → H}
    (hf : ∀ a b, f (mul a b) = mul' (f a) (f b)) (input : G) (c : Chain G) (n : ℕ) :
    (multiply mul' (f input))^[n] (c.map f) = ((multiply mul input)^[n] c).map f := by
  induction n generalizing c with
  | zero => rfl
  | succ n ih => rw [Function.iterate_succ_apply, multiply_map hf, ih, Function.iterate_succ_apply]

/-! ### The exponents -/

/-- A sum of exponents; `none` is the exponent of zero. -/
def addExponents : Option ℕ → Option ℕ → Option ℕ
  | some a, some b => some (a + b)
  | _, _ => none

/-- The power with such an exponent. -/
def power {F : Type} [MonoidWithZero F] (w : F) : Option ℕ → F
  | some e => w ^ e
  | none => 0

theorem power_some {F : Type} [MonoidWithZero F] (w : F) (e : ℕ) : power w (some e) = w ^ e := rfl

theorem power_addExponents {F : Type} [MonoidWithZero F] (w : F) (a b : Option ℕ) :
    power w (addExponents a b) = power w a * power w b := by
  cases a with
  | none => exact (zero_mul _).symm
  | some a =>
      cases b with
      | none => exact (mul_zero _).symm
      | some b => exact pow_add w a b

/-- The number of multiplications. -/
def length : ℕ := 262

/-- The chain counts up to `(p - 5) / 8`. -/
theorem iterate_exponents :
    ((multiply addExponents (some 1))^[length] (start none)).phase = none ∧
      ((multiply addExponents (some 1))^[length] (start none)).value = some (2 ^ 252 - 3) := by
  decide +kernel

/-- In a field the chain computes the power. -/
theorem iterate_value {F : Type} [MonoidWithZero F] (w : F) :
    ((multiply (· * ·) w)^[length] (start 0)).phase = none ∧
      ((multiply (· * ·) w)^[length] (start 0)).value = w ^ (2 ^ 252 - 3) := by
  have hstart : (start 0 : Chain F) = (start none).map (power w) := rfl
  have hrun := iterate_map (power_addExponents w) (some 1) (start none) length
  rw [show power w (some 1) = w from pow_one w] at hrun
  obtain ⟨hphase, hvalue⟩ := iterate_exponents
  rw [hstart, hrun, map_phase]
  refine ⟨hphase, ?_⟩
  rw [map_value, hvalue, power_some]

end Chain

/-! ### The sequencer -/

/-- The register the sequencer reads. -/
def Regs.powReg (r : Regs) : PowReg → BitVec 255
  | .input => r.powInput
  | .value => r.powValue
  | .t1 => r.powT1
  | .t2 => r.powT2

theorem powDispatch_eq (r n : Regs) :
    powDispatch r n =
      let product := powProduct r.powPhase r.powSqRemaining
      issue (r.powReg product.a) (r.powReg product.b) .powWait
        { n with powDispatchIsSquare := product.isSquare, powStoreSel := product.store } := by
  unfold powDispatch powProduct
  cases r.powPhase <;> simp only [ne_eq, ite_not] <;> (try split) <;> (try split) <;> rfl

theorem nextPowPhase_eq (r n : Regs) :
    nextPowPhase r n =
      match phaseAfter r.powPhase r.powSqRemaining with
      | (some phase, remaining) =>
          { n with powPhase := phase, powSqRemaining := remaining, step := .powDispatch }
      | (none, _) => { n with step := .dec8 } := by
  unfold nextPowPhase phaseAfter
  cases r.powPhase <;> rfl

/-- What the sequencer does with the other registers while the power is computed. -/
structure Regs.Aside (r r' : Regs) : Prop where
  t0 : r'.t0 = r.t0
  t2 : r'.t2 = r.t2
  t3 : r'.t3 = r.t3
  t7 : r'.t7 = r.t7
  input : r'.powInput = r.powInput
  sign : r'.encodedSign = r.encodedSign

theorem Regs.Aside.trans {r r' r'' : Regs} (h : r.Aside r') (h' : r'.Aside r'') : r.Aside r'' :=
  ⟨h'.t0.trans h.t0, h'.t2.trans h.t2, h'.t3.trans h.t3, h'.t7.trans h.t7,
    h'.input.trans h.input, h'.sign.trans h.sign⟩

/-- The sequencer holds the chain, before a multiplication or after the last. -/
structure Regs.Holds (r : Regs) (c : Chain (BitVec 255)) : Prop where
  step : r.step = if c.phase.isSome then .powDispatch else .dec8
  phase : ∀ phase, c.phase = some phase → r.powPhase = phase
  remaining : r.powSqRemaining = c.remaining
  value : r.powValue = c.value
  t1 : r.powT1 = c.t1
  t2 : r.powT2 = c.t2

theorem Regs.Holds.powReg {r : Regs} {c : Chain (BitVec 255)} (h : r.Holds c) (reg : PowReg) :
    r.powReg reg = c.read r.powInput reg := by
  cases reg with
  | input => rfl
  | value => exact h.value
  | t1 => exact h.t1
  | t2 => exact h.t2

theorem advance_powDispatch {r : Regs} (hstep : r.step = .powDispatch) :
    r.advance mul = powDispatch r r.rest := by
  rw [Regs.advance, hstep]
  simp only [Step.waits, Bool.false_eq_true, if_false, stepBusy, hstep]

theorem advance_powWait {r : Regs} (hstep : r.step = .powWait) :
    r.advance mul = powStore (mul r.feA r.feB) r r.rest := by
  rw [Regs.advance, hstep]
  simp only [Step.waits, if_true, stepBusy, Regs.rest_step, hstep]
  rfl

/-- The sequencer holds the chain and waits for its product. -/
structure Regs.Awaits (r : Regs) (c : Chain (BitVec 255)) (phase : PowPhase) : Prop where
  step : r.step = .powWait
  powPhase : r.powPhase = phase
  remaining : r.powSqRemaining = c.remaining
  value : r.powValue = c.value
  t1 : r.powT1 = c.t1
  t2 : r.powT2 = c.t2
  isSquare : r.powDispatchIsSquare = (powProduct phase c.remaining).isSquare
  store : r.powStoreSel = (powProduct phase c.remaining).store
  feA : r.feA = c.read r.powInput (powProduct phase c.remaining).a
  feB : r.feB = c.read r.powInput (powProduct phase c.remaining).b

theorem Regs.Holds.dispatch {r : Regs} {c : Chain (BitVec 255)} (h : r.Holds c)
    {phase : PowPhase} (hphase : c.phase = some phase) :
    (r.advance mul).Awaits c phase ∧ r.Aside (r.advance mul) := by
  have hstep : r.step = .powDispatch := by
    rw [h.step, hphase]
    rfl
  have hproduct : powProduct r.powPhase r.powSqRemaining = powProduct phase c.remaining := by
    rw [h.phase phase hphase, h.remaining]
  rw [advance_powDispatch hstep, powDispatch_eq, hproduct]
  exact ⟨⟨rfl, h.phase phase hphase, h.remaining, h.value, h.t1, h.t2, rfl, rfl,
    h.powReg _, h.powReg _⟩, rfl, rfl, rfl, rfl, rfl, rfl⟩

/-- A product goes to its register. -/
def Regs.powWrite (v : BitVec 255) (n : Regs) : PowStore → Regs
  | .value => { n with powValue := v }
  | .t1 => { n with powT1 := v }
  | .t2 => { n with powT2 := v }

theorem powStore_eq (v : BitVec 255) (r n : Regs) :
    powStore v r n =
      if r.powDispatchIsSquare then
        { n.powWrite v r.powStoreSel with
          powSqRemaining := if r.powSqRemaining = 1 then 0 else r.powSqRemaining - 1
          step := .powDispatch }
      else nextPowPhase r (n.powWrite v r.powStoreSel) := rfl

/-- The values and the registers aside do not depend on the control registers. -/
structure Regs.Carries (r : Regs) (c : Chain (BitVec 255)) (r' : Regs) : Prop where
  value : r'.powValue = c.value
  t1 : r'.powT1 = c.t1
  t2 : r'.powT2 = c.t2
  aside : r.Aside r'

theorem Regs.Awaits.carries {r : Regs} {c : Chain (BitVec 255)} {phase : PowPhase}
    (h : r.Awaits c phase) (v : BitVec 255) (store : PowStore) :
    r.Carries (c.write v store) (r.rest.powWrite v store) := by
  cases store with
  | value => exact ⟨rfl, h.t1, h.t2, rfl, rfl, rfl, rfl, rfl, rfl⟩
  | t1 => exact ⟨h.value, rfl, h.t2, rfl, rfl, rfl, rfl, rfl, rfl⟩
  | t2 => exact ⟨h.value, h.t1, rfl, rfl, rfl, rfl, rfl, rfl, rfl⟩

theorem write_phase (v : BitVec 255) (c : Chain (BitVec 255)) (store : PowStore) :
    (c.write v store).phase = c.phase := by
  cases store <;> rfl

theorem powWrite_powPhase (v : BitVec 255) (n : Regs) (store : PowStore) :
    (n.powWrite v store).powPhase = n.powPhase := by
  cases store <;> rfl

theorem powWrite_powSqRemaining (v : BitVec 255) (n : Regs) (store : PowStore) :
    (n.powWrite v store).powSqRemaining = n.powSqRemaining := by
  cases store <;> rfl

/-- The end leaves the count. -/
theorem phaseAfter_none {phase : PowPhase} {remaining remaining' : BitVec 7}
    (h : phaseAfter phase remaining = (none, remaining')) : remaining' = remaining := by
  cases phase <;> cases h
  rfl

theorem Regs.Awaits.product {r : Regs} {c : Chain (BitVec 255)} {phase : PowPhase}
    (h : r.Awaits c phase) (hphase : c.phase = some phase) :
    (r.advance mul).Holds (c.multiply mul r.powInput) ∧ r.Aside (r.advance mul) := by
  rw [advance_powWait h.step, powStore_eq, h.isSquare, h.store, h.feA, h.feB,
    Chain.multiply_of_phase mul r.powInput hphase rfl rfl]
  generalize powProduct phase c.remaining = product
  generalize mul (c.read r.powInput product.a) (c.read r.powInput product.b) = v
  obtain ⟨hvalue, ht1, ht2, ht0, ht2', ht3, ht7, hinput, hsign⟩ := h.carries v product.store
  split
  · -- one squaring less is left
    refine ⟨⟨?_, ?_, ?_, hvalue, ht1, ht2⟩, ht0, ht2', ht3, ht7, hinput, hsign⟩
    · simp only [write_phase, hphase]
      rfl
    · intro phase' hphase'
      simp only [write_phase, hphase] at hphase'
      exact (powWrite_powPhase _ _ _).trans (h.powPhase.trans (Option.some.inj hphase'))
    · exact congrArg (fun k : BitVec 7 => if k = 1 then 0 else k - 1) h.remaining
  · rw [nextPowPhase_eq, h.powPhase, h.remaining]
    -- the next phase, or the end
    generalize hafter : phaseAfter phase c.remaining = after
    obtain ⟨next | next, remaining⟩ := after
    · refine ⟨⟨rfl, ?_, ?_, hvalue, ht1, ht2⟩, ht0, ht2', ht3, ht7, hinput, hsign⟩
      · intro phase' hphase'
        cases hphase'
      · rw [phaseAfter_none hafter]
        exact (powWrite_powSqRemaining _ _ _).trans h.remaining
    · refine ⟨⟨rfl, ?_, rfl, hvalue, ht1, ht2⟩, ht0, ht2', ht3, ht7, hinput, hsign⟩
      intro phase' hphase'
      exact Option.some.inj hphase'

/-- The sequencer runs the chain. -/
theorem Regs.Holds.leadsTo {r : Regs} {c : Chain (BitVec 255)} (h : r.Holds c) (n : ℕ) :
    ∃ r' : Regs, r.LeadsTo mul r' ∧ r'.Holds ((Chain.multiply mul r.powInput)^[n] c) ∧
      r.Aside r' := by
  induction n with
  | zero => exact ⟨r, .refl r, h, rfl, rfl, rfl, rfl, rfl, rfl⟩
  | succ n ih =>
      obtain ⟨r', hleads, hholds, haside⟩ := ih
      rw [Function.iterate_succ_apply']
      generalize (Chain.multiply mul r.powInput)^[n] c = c' at hholds
      cases hphase : c'.phase with
      | none =>
          -- nothing is left to multiply
          rw [show c'.multiply mul r.powInput = c' by rw [Chain.multiply, hphase]]
          exact ⟨r', hleads, hholds, haside⟩
      | some phase =>
          obtain ⟨hawaits, hdispatch⟩ := @Regs.Holds.dispatch mul _ _ hholds _ hphase
          obtain ⟨hholds', hproduct⟩ := @Regs.Awaits.product mul _ _ _ hawaits hphase
          have hstep : r'.step ≠ .done := by
            rw [hholds.step, hphase]
            exact Step.noConfusion
          have hstep' : (r'.advance mul).step ≠ .done := by
            rw [hawaits.step]
            exact Step.noConfusion
          rw [hdispatch.input, haside.input] at hholds'
          exact ⟨_, (hleads.trans (leadsTo_advance hstep)).trans (leadsTo_advance hstep'),
            hholds', (haside.trans hdispatch).trans hproduct⟩

/-- With an exact multiplier the power is the one with exponent `(p - 5) / 8`. -/
theorem leadsTo_power {r : Regs} (h : r.Holds (Chain.start 0)) :
    ∃ r' : Regs, r.LeadsTo mulModP r' ∧ r'.step = .dec8 ∧
      toField r'.powValue = toField r.powInput ^ (2 ^ 252 - 3) ∧ r.Aside r' := by
  obtain ⟨r', hleads, hholds, haside⟩ := @Regs.Holds.leadsTo mulModP _ _ h Chain.length
  have hmap := Chain.iterate_map toField_mulModP r.powInput (Chain.start 0) Chain.length
  rw [show (Chain.start (0 : BitVec 255)).map toField = Chain.start 0 by
    rw [Chain.map, Chain.start, toField_zero]; rfl] at hmap
  obtain ⟨hphase, hvalue⟩ := Chain.iterate_value (toField r.powInput)
  rw [hmap, Chain.map_phase] at hphase
  rw [hmap, Chain.map_value] at hvalue
  refine ⟨r', hleads, ?_, ?_, haside⟩
  · rw [hholds.step, hphase]
    rfl
  · rw [hholds.value, hvalue]

end Ed25519PointCore

end Kv260Sigv
