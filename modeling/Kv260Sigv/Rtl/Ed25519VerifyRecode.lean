import Kv260Sigv.Rtl.Ed25519VerifyRun
import Kv260Sigv.Rtl.ScalarWnaf4RecodeResult

/-!
# The digits of both scalars

In `ST_RECODE_S_WAIT` and `ST_RECODE_K_WAIT` each digit is written to its nibble in the cycle
after the recoder has put it out, the last one in the cycle that leaves the state.  So both
packed registers hold all digits of their scalar when the odd multiples are computed.
-/

set_option autoImplicit false

namespace Kv260Sigv

namespace Ed25519VerifyEngine

open Clocked

variable {M : Multiplier} {w : ℕ}

/-! ### Nibbles -/

theorem getLsbD_fifteen (b : ℕ) : (0xF : BitVec 1024).getLsbD b = decide (b < 4) := by
  have htest : Nat.testBit 0xF b = decide (b < 4) := Nat.testBit_two_pow_sub_one 4 b
  show (BitVec.ofNat 1024 0xF).getLsbD b = _
  rw [BitVec.getLsbD_ofNat, htest]
  by_cases hb : b < 4
  · rw [decide_eq_true hb, decide_eq_true (by omega : b < 1024)]
    rfl
  · rw [decide_eq_false hb, Bool.and_false]

theorem getLsbD_packWnafDigit (packed : BitVec 1024) (i : BitVec 8) (digit : BitVec 4) {b : ℕ}
    (hb : b < 1024) :
    (packWnafDigit packed i digit).getLsbD b =
      if 4 * i.toNat ≤ b ∧ b < 4 * i.toNat + 4 then digit.getLsbD (b - 4 * i.toNat)
      else packed.getLsbD b := by
  simp only [packWnafDigit, BitVec.getLsbD_or, BitVec.getLsbD_and, BitVec.getLsbD_not,
    BitVec.getLsbD_shiftLeft, BitVec.getLsbD_setWidth, getLsbD_fifteen, hb, decide_true,
    Bool.true_and]
  by_cases hlow : b < 4 * i.toNat
  · rw [if_neg (by omega)]
    simp [hlow]
  · by_cases hhigh : b < 4 * i.toNat + 4
    · rw [if_pos ⟨by omega, hhigh⟩]
      have hnibble : b - 4 * i.toNat < 4 := by omega
      have hwidth : b - 4 * i.toNat < 1024 := by omega
      simp [hlow, hnibble, hwidth]
    · rw [if_neg (by omega)]
      have hnibble : ¬ b - 4 * i.toNat < 4 := by omega
      have hzero : digit.getLsbD (b - 4 * i.toNat) = false := BitVec.getLsbD_of_ge _ _ (by omega)
      simp [hlow, hnibble, hzero]

theorem unpack_pack (packed : BitVec 1024) (i : BitVec 8) (digit : BitVec 4) :
    unpackWnafDigit (packWnafDigit packed i digit) i = digit := by
  have hi : i.toNat < 256 := i.isLt
  apply BitVec.eq_of_getLsbD_eq
  intro b hb
  rw [unpackWnafDigit, BitVec.getLsbD_extractLsb', getLsbD_packWnafDigit _ _ _ (by omega),
    if_pos ⟨by omega, by omega⟩, decide_eq_true hb, Bool.true_and, Nat.add_sub_cancel_left]

theorem unpack_pack_of_ne (packed : BitVec 1024) {i j : BitVec 8} (hne : j ≠ i) (digit : BitVec 4) :
    unpackWnafDigit (packWnafDigit packed i digit) j = unpackWnafDigit packed j := by
  have hj : j.toNat < 256 := j.isLt
  have hne' : j.toNat ≠ i.toNat := fun h => hne (BitVec.eq_of_toNat_eq h)
  apply BitVec.eq_of_getLsbD_eq
  intro b hb
  rw [unpackWnafDigit, unpackWnafDigit, BitVec.getLsbD_extractLsb', BitVec.getLsbD_extractLsb',
    getLsbD_packWnafDigit _ _ _ (by omega), if_neg (by omega)]

/-! ### Packed digits -/

/-- The nibbles below `n` are the digits of the scalar. -/
def Packs (scalar : ℤ) (packed : BitVec 1024) (n : ℕ) : Prop :=
  ∀ i : BitVec 8, i.toNat < n →
    (unpackWnafDigit packed i).toInt = Wnaf.digits 4 scalar i.toNat

/-- What a packed register holds after the cycle. -/
def written (e : ScalarWnaf4Recode.State) (packed : BitVec 1024) : BitVec 1024 :=
  if e.digitValid then packWnafDigit packed e.digitIndex e.digit else packed

variable {scalar : ℤ} {packed : BitVec 1024} {e : ScalarWnaf4Recode.State} {n : ℕ}

theorem Packs.write (h : Packs scalar packed n)
    (he : ScalarWnaf4Recode.Emits (Wnaf.digits 4 scalar n) n e) :
    Packs scalar (written e packed) (n + 1) := by
  intro i hi
  rw [written, if_pos he.valid]
  by_cases heq : i = e.digitIndex
  · rw [heq, unpack_pack, he.digit, he.index]
  · have hne : i.toNat ≠ n := by
      rw [← he.index]
      exact fun h => heq (BitVec.eq_of_toNat_eq h)
    rw [unpack_pack_of_ne _ heq]
    exact h i (by omega)

/-- With all digits below `n` written or about to be. -/
structure Recodes (scalar : ℤ) (packed : BitVec 1024) (n : ℕ) (e : ScalarWnaf4Recode.State) :
    Prop where
  packs : Packs scalar (written e packed) n
  recoding : n < 256 → ScalarWnaf4Recode.Recoding scalar n e
  done : e.done = decide (n = 256)
  rest : n = 256 → e.busy = false

theorem recodes_start (j : ScalarWnaf4Recode.Inputs) (hidle : e.busy = false)
    (hstart : j.start = true) (packed : BitVec 1024) :
    Recodes j.scalarIn.toNat packed 0 (ScalarWnaf4Recode.step j e) := by
  obtain ⟨hrecoding, -, hdone⟩ := ScalarWnaf4Recode.recoding_start j hidle hstart
  refine ⟨fun i hi => absurd hi (Nat.not_lt_zero _), fun _ => hrecoding, hdone, ?_⟩
  intro h
  cases h

/-- One digit. -/
theorem Recodes.step (h : Recodes scalar packed n e) (hle : scalar ≤ 2 ^ 255) (hn : n < 256)
    (j : ScalarWnaf4Recode.Inputs) :
    Recodes scalar (written e packed) (n + 1) (ScalarWnaf4Recode.step j e) := by
  obtain ⟨hemits, hnext⟩ := (h.recoding hn).step hle (by omega) j
  refine ⟨h.packs.write hemits, fun hlt => hnext (by omega), ?_, ?_⟩
  · rw [hemits.done]
    exact decide_eq_decide.mpr (by omega)
  · intro hlast
    obtain rfl : n = 255 := by omega
    exact (h.recoding hn).rest_of_last j

/-! ### The controller -/

theorem step_recodeEngine (i : Inputs) (s : State M w) : (step i s).recodeEngine =
    ScalarWnaf4Recode.step ⟨s.recodeStartReg, s.recodeScalarReg⟩ s.recodeEngine :=
  stepState_recodeEngine i s (rest i s)

/-- A state that starts the recoder on a scalar and one that writes the digits to a register;
both keep `F`. -/
structure Recording (start wait next : Phase) (scalarReg : State M w → BitVec 256)
    (register : State M w → BitVec 1024) (F : State M w → Prop) : Prop where
  ask : ∀ i s, s.state = start → (step i s).state = wait ∧ (step i s).recodeStartReg = true ∧
    (step i s).recodeScalarReg = scalarReg s ∧ (F s → F (step i s))
  write : ∀ i s, s.state = wait →
    (step i s).state = (if s.recodeEngine.done then next else wait) ∧
      (step i s).recodeStartReg = false ∧
      register (step i s) = written s.recodeEngine (register s) ∧ (F s → F (step i s))

theorem recording_s (a : ExtPoint) (kScalar : BitVec 256) :
    Recording (M := M) (w := w) .recodeSStart .recodeSWait .recodeKStart State.sScalar
      State.sWnafPacked fun s => s.a = a ∧ s.kScalar = kScalar where
  ask := by
    intro i s hstate
    simp only [step, stepState, hstate]
    exact ⟨trivial, trivial, trivial, fun h => h⟩
  write := by
    intro i s hstate
    simp only [step, stepState, hstate, written]
    cases s.recodeEngine.digitValid <;> cases s.recodeEngine.done <;>
      refine ⟨?_, rfl, rfl, fun h => h⟩ <;> first | rfl | exact hstate

theorem recording_k (a : ExtPoint) (sScalar : ℤ) :
    Recording (M := M) (w := w) .recodeKStart .recodeKWait .oddA2DblStart State.kScalar
      State.kWnafPacked fun s => s.a = a ∧ Packs sScalar s.sWnafPacked 256 where
  ask := by
    intro i s hstate
    simp only [step, stepState, hstate]
    exact ⟨trivial, trivial, trivial, fun h => h⟩
  write := by
    intro i s hstate
    simp only [step, stepState, hstate, written]
    cases s.recodeEngine.digitValid <;> cases s.recodeEngine.done <;>
      refine ⟨?_, rfl, rfl, fun h => h⟩ <;> first | rfl | exact hstate

section recording

variable {start wait next : Phase} {scalarReg : State M w → BitVec 256}
  {register : State M w → BitVec 1024} {F D : State M w → Prop}

/-- Before the recoder is started. -/
structure Scheduled (start : Phase) (scalarReg : State M w → BitVec 256)
    (F : State M w → Prop) (scalar : BitVec 256) (s : State M w) : Prop where
  state : s.state = start
  start : s.recodeStartReg = false
  scalar : scalarReg s = scalar
  idle : s.recodeEngine.busy = false
  keeps : F s

/-- With the start. -/
structure Ordered (wait : Phase) (F : State M w → Prop) (scalar : BitVec 256) (s : State M w) :
    Prop where
  state : s.state = wait
  start : s.recodeStartReg = true
  scalar : s.recodeScalarReg = scalar
  idle : s.recodeEngine.busy = false
  silent : s.recodeEngine.done = false
  keeps : F s

/-- With `n` digits written or about to be. -/
structure Writing (wait : Phase) (register : State M w → BitVec 1024) (F : State M w → Prop)
    (scalar : ℤ) (n : ℕ) (s : State M w) : Prop where
  state : s.state = wait
  start : s.recodeStartReg = false
  recodes : Recodes scalar (register s) n s.recodeEngine
  keeps : F s

/-- With all digits of the scalar. -/
structure Recorded (next : Phase) (register : State M w → BitVec 1024) (F : State M w → Prop)
    (scalar : ℤ) (s : State M w) : Prop where
  state : s.state = next
  start : s.recodeStartReg = false
  packs : Packs scalar (register s) 256
  idle : s.recodeEngine.busy = false
  keeps : F s

/-- A whole recoding. -/
theorem Recording.reaches (h : Recording start wait next scalarReg register F)
    {scalar : BitVec 256} (hscalar : scalar.toNat ≤ 2 ^ 255)
    (hD : ∀ s : State M w, s.state = wait → D s) :
    Reaches step D (Scheduled start scalarReg F scalar)
      (Recorded next register F scalar.toNat) := by
  have hask : Leads step D 1 (Scheduled start scalarReg F scalar) (Ordered wait F scalar) := by
    refine Leads.single ?_
    intro i s hs
    obtain ⟨hwait, hstart, hscalarReg, hkeep⟩ := h.ask i s hs.state
    obtain ⟨hidle, hsilent⟩ := ScalarWnaf4Recode.counts.rest
      ⟨s.recodeStartReg, s.recodeScalarReg⟩ s.recodeEngine hs.idle
    refine ⟨hwait, hstart, hscalarReg.trans hs.scalar, ?_, ?_, hkeep hs.keeps⟩ <;>
      rw [step_recodeEngine]
    · exact hidle.trans hs.start
    · exact hsilent
  have htake : Leads step D 1 (Ordered wait F scalar)
      (Writing wait register F scalar.toNat 0) := by
    refine Leads.single ?_
    intro i s hs
    obtain ⟨hstate, hstart, -, hkeep⟩ := h.write i s hs.state
    rw [hs.silent, if_neg Bool.false_ne_true] at hstate
    refine ⟨hstate, hstart, ?_, hkeep hs.keeps⟩
    rw [step_recodeEngine, hs.start, hs.scalar]
    exact recodes_start ⟨true, scalar⟩ hs.idle rfl _
  have hloop : Leads step D 256 (Writing wait register F scalar.toNat 0)
      (Writing wait register F scalar.toNat 256) := by
    refine Leads.loop 256 ?_ fun n _ s hs => hD s hs.state
    intro n hn i s hs
    obtain ⟨hstate, hstart, hwritten, hkeep⟩ := h.write i s hs.state
    rw [hs.recodes.done, decide_eq_false (by omega), if_neg Bool.false_ne_true] at hstate
    refine ⟨hstate, hstart, ?_, hkeep hs.keeps⟩
    rw [step_recodeEngine, hwritten]
    exact hs.recodes.step (by exact_mod_cast hscalar) hn _
  have hlast : Leads step D 1 (Writing wait register F scalar.toNat 256)
      (Recorded next register F scalar.toNat) := by
    refine Leads.single ?_
    intro i s hs
    obtain ⟨hstate, hstart, hwritten, hkeep⟩ := h.write i s hs.state
    rw [hs.recodes.done, decide_eq_true rfl, if_pos rfl] at hstate
    refine ⟨hstate, hstart, ?_, ?_, hkeep hs.keeps⟩
    · rw [hwritten]
      exact hs.recodes.packs
    · rw [step_recodeEngine]
      exact (ScalarWnaf4Recode.counts.rest _ _ (hs.recodes.rest rfl)).1.trans hs.start
  have hbegin := hask.reaches.trans (fun s hs => hD s hs.state) htake.reaches
  have hend := hloop.reaches.trans (fun s hs => hD s hs.state) hlast.reaches
  exact hbegin.trans (fun s hs => hD s hs.state) hend

end recording

end Ed25519VerifyEngine

end Kv260Sigv
