import Kv260Sigv.Library.Handshake
import Kv260Sigv.Rtl.FieldHelpers
import Kv260Sigv.Rtl.Fe25519MulWideResult

/-!
# Multipliers

What `ed25519_point_core` knows of its multiplier: the ports, the reset and what it
means to be idle.  A multiplier `Computes` a product when it answers every start with it,
a finite time later; an `Exact` one computes the product mod `p`.  What
`fe25519_mul_wide_core` computes is not that on all operands, but it is `Regular`:
commutative, canonical and zero at zero.
-/

set_option autoImplicit false

namespace Kv260Sigv

/-- A multiplier with the ports of `fe25519_mul_wide_core`. -/
structure Multiplier where
  State : Type
  /-- One clock cycle with `rst_n` high. -/
  step : MulInputs → State → State
  /-- The asynchronous reset. -/
  reset : State → State
  done : State → Bool
  result : State → BitVec 255
  Idle : State → Prop

/-- The product mod `p`. -/
def mulModP (a b : BitVec 255) : BitVec 255 := BitVec.ofNat 255 (a.toNat * b.toNat % fieldP)

/-- Every transaction is exact. -/
structure Multiplier.Exact (M : Multiplier) : Prop where
  idle_reset : ∀ s, M.Idle (M.reset s) ∧ M.done (M.reset s) = false
  rest : ∀ i s, M.Idle s → i.start = false → M.Idle (M.step i s) ∧ M.done (M.step i s) = false
  multiply : ∀ (inputs : ℕ → MulInputs) (s : M.State), M.Idle s → (inputs 0).start = true →
    ∃ n, (∀ m < n, M.done (Clocked.run M.step inputs s (m + 1)) = false) ∧
      M.done (Clocked.run M.step inputs s (n + 1)) = true ∧
      M.Idle (Clocked.run M.step inputs s (n + 1)) ∧
      M.result (Clocked.run M.step inputs s (n + 1)) = mulModP (inputs 0).a (inputs 0).b

/-- `fe25519_mul_wide_core`. -/
def wideMultiplier : Multiplier where
  State := Fe25519MulWideCore.State
  step := Fe25519MulWideCore.step
  reset := Fe25519MulWideCore.reset
  done := Fe25519MulWideCore.State.done
  result := Fe25519MulWideCore.State.result
  Idle := fun s => s.state = .idle

/-- A multiplier that takes one cycle. -/
def promptMultiplier : Multiplier where
  State := Option (BitVec 255)
  step := fun i _ => if i.start then some (mulModP i.a i.b) else none
  reset := fun _ => none
  done := Option.isSome
  result := fun s => s.getD 0
  Idle := fun _ => True

theorem exact_promptMultiplier : promptMultiplier.Exact := by
  refine ⟨fun s => ⟨trivial, rfl⟩, fun i s _ hstart => ⟨trivial, ?_⟩, ?_⟩
  · simp [promptMultiplier, hstart]
  · intro inputs s _ hstart
    refine ⟨0, fun m hm => absurd hm (Nat.not_lt_zero m), ?_, trivial, ?_⟩
    · simp [promptMultiplier, Clocked.run, hstart]
    · simp [promptMultiplier, Clocked.run, hstart]

/-! ### What a multiplier computes -/

/-- Every transaction answers with the product `mul`. -/
structure Multiplier.Computes (M : Multiplier) (mul : BitVec 255 → BitVec 255 → BitVec 255) :
    Prop where
  idle_reset : ∀ s, M.Idle (M.reset s) ∧ M.done (M.reset s) = false
  rest : ∀ i s, M.Idle s → i.start = false → M.Idle (M.step i s) ∧ M.done (M.step i s) = false
  multiply : ∀ (inputs : ℕ → MulInputs) (s : M.State), M.Idle s → (inputs 0).start = true →
    ∃ n, (∀ m < n, M.done (Clocked.run M.step inputs s (m + 1)) = false) ∧
      M.done (Clocked.run M.step inputs s (n + 1)) = true ∧
      M.Idle (Clocked.run M.step inputs s (n + 1)) ∧
      M.result (Clocked.run M.step inputs s (n + 1)) = mul (inputs 0).a (inputs 0).b

theorem Multiplier.Exact.computes {M : Multiplier} (h : M.Exact) : M.Computes mulModP :=
  ⟨h.idle_reset, h.rest, h.multiply⟩

/-- What the product has in common with the one mod `p`. -/
structure Regular (mul : BitVec 255 → BitVec 255 → BitVec 255) : Prop where
  comm : ∀ a b, mul a b = mul b a
  zero_mul : ∀ b, mul 0 b = 0
  canonical : ∀ a b, Canonical (mul a b)

theorem regular_mulModP : Regular mulModP where
  comm a b := by rw [mulModP, mulModP, Nat.mul_comm]
  zero_mul b := by
    rw [mulModP, show (0 : BitVec 255).toNat = 0 from rfl, Nat.zero_mul, Nat.zero_mod]
    rfl
  canonical a b := by
    have hpos : 0 < fieldP := by decide
    have hp : fieldP < 2 ^ 255 := by decide
    rw [Canonical, mulModP, BitVec.toNat_ofNat, Nat.mod_eq_of_lt]
    · exact Nat.mod_lt _ hpos
    · exact Nat.lt_trans (Nat.mod_lt _ hpos) hp

/-- A transaction that is on its way. -/
def Multiplier.InFlight (M : Multiplier) (s : M.State) : Prop :=
  ∃ (inputs : ℕ → MulInputs) (s₀ : M.State) (n : ℕ), M.Idle s₀ ∧ (inputs 0).start = true ∧
    (∀ m ≤ n, M.done (Clocked.run M.step inputs s₀ (m + 1)) = false) ∧
    s = Clocked.run M.step inputs s₀ (n + 1)

/-- A multiplier as a server. -/
def Multiplier.server (M : Multiplier) (mul : BitVec 255 → BitVec 255 → BitVec 255) :
    Handshake.Server MulInputs M.State where
  step := M.step
  start := MulInputs.start
  done := M.done
  Idle := M.Idle
  Busy := M.InFlight
  Answer := fun s => ∃ a b, M.result s = mul a b

theorem Multiplier.Computes.engaged {M : Multiplier}
    {mul : BitVec 255 → BitVec 255 → BitVec 255} (h : M.Computes mul)
    {inputs : ℕ → MulInputs} {s₀ : M.State} {n : ℕ} (hidle : M.Idle s₀)
    (hstart : (inputs 0).start = true)
    (hsilent : ∀ m < n, M.done (Clocked.run M.step inputs s₀ (m + 1)) = false) :
    (M.server mul).Engaged (Clocked.run M.step inputs s₀ (n + 1)) := by
  obtain ⟨k, hbefore, hdone, hrest, hresult⟩ := h.multiply inputs s₀ hidle hstart
  rcases Nat.lt_trichotomy n k with hlt | rfl | hgt
  · refine .working ⟨inputs, s₀, n, hidle, hstart, ?_, rfl⟩ (hbefore n hlt)
    intro m hm
    exact hbefore m (by omega)
  · exact .answered hrest hdone ⟨_, _, hresult⟩
  · have hnot := hsilent k hgt
    rw [hdone] at hnot
    cases hnot

theorem Multiplier.Computes.sound {M : Multiplier}
    {mul : BitVec 255 → BitVec 255 → BitVec 255} (h : M.Computes mul) :
    (M.server mul).Sound where
  rest := fun {i s} hidle hstart => h.rest i s hidle hstart
  accept := by
    intro i s hidle hstart
    have hengaged : (M.server mul).Engaged (Clocked.run M.step (fun _ => i) s (0 + 1)) :=
      h.engaged hidle hstart fun m hm => absurd hm (Nat.not_lt_zero m)
    exact hengaged
  work := by
    rintro i s ⟨inputs, s₀, n, hidle, hstart, hsilent, rfl⟩ _
    -- the same inputs up to here, then `i`
    let inputs' : ℕ → MulInputs := fun k => if k ≤ n then inputs k else i
    have hagree : ∀ m ≤ n + 1,
        Clocked.run M.step inputs' s₀ m = Clocked.run M.step inputs s₀ m := by
      intro m
      induction m with
      | zero => intro _; rfl
      | succ m ih =>
          intro hm
          rw [Clocked.run_succ, Clocked.run_succ, ih (by omega)]
          simp only [inputs', if_pos (show m ≤ n by omega)]
    have hstart' : (inputs' 0).start = true := by
      simp only [inputs', Nat.zero_le, if_true]
      exact hstart
    have hengaged : (M.server mul).Engaged (Clocked.run M.step inputs' s₀ (n + 1 + 1)) := by
      refine h.engaged hidle hstart' ?_
      intro m hm
      rw [hagree (m + 1) (by omega)]
      exact hsilent m (by omega)
    rw [Clocked.run_succ, hagree (n + 1) le_rfl] at hengaged
    simp only [inputs', if_neg (show ¬ n + 1 ≤ n by omega)] at hengaged
    exact hengaged

/-! ### `fe25519_mul_wide_core` -/

/-- What `fe25519_mul_wide_core` computes. -/
def mulWide (a b : BitVec 255) : BitVec 255 :=
  BitVec.ofNat 255 (Fe25519MulWideCore.settle (Fe25519MulWideCore.folded a.toNat b.toNat))

theorem computes_wideMultiplier : wideMultiplier.Computes mulWide where
  idle_reset s := ⟨rfl, rfl⟩
  rest i s hidle hstart := by
    have hstep : Fe25519MulWideCore.step i s = { s with done := false } := by
      simp only [Fe25519MulWideCore.step, show s.state = .idle from hidle, hstart]
      rfl
    refine ⟨?_, ?_⟩
    · show (Fe25519MulWideCore.step i s).state = .idle
      rw [hstep]
      exact hidle
    · show (Fe25519MulWideCore.step i s).done = false
      rw [hstep]
  multiply inputs s hidle hstart := by
    obtain ⟨hend, hbefore⟩ := Fe25519MulWideCore.mul_run hidle inputs hstart
    refine ⟨24, fun m hm => hbefore (m + 1) (Nat.succ_pos m) (by omega), hend.done, hend.state, ?_⟩
    apply BitVec.eq_of_toNat_eq
    show _ = (BitVec.ofNat 255 _).toNat
    rw [← hend.result, BitVec.ofNat_toNat, BitVec.setWidth_eq]
    rfl

theorem regular_mulWide : Regular mulWide where
  comm a b := by rw [mulWide, mulWide, Fe25519MulWideCore.folded_comm]
  zero_mul b := by
    rw [mulWide, show (0 : BitVec 255).toNat = 0 from rfl, Fe25519MulWideCore.folded_zero_left]
    decide
  canonical a b := by
    have hlt := Fe25519MulWideCore.settle_lt (Fe25519MulWideCore.folded a.toNat b.toNat)
    have hp : fieldP < 2 ^ 255 := by decide
    rw [Canonical, mulWide, BitVec.toNat_ofNat, Nat.mod_eq_of_lt (Nat.lt_trans hlt hp)]
    exact hlt

end Kv260Sigv
