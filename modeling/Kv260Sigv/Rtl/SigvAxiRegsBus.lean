import Kv260Sigv.Library.Ledger
import Kv260Sigv.Rtl.SigvAxiRegsIrq

/-!
# The bus of the register block

The five channels as ledgers of what passes them.  An address or a word that arrives alone
is held until the other one comes; a response is held until it is taken.  Since a channel
takes nothing while what it would overwrite is still held, nothing is lost or doubled, and
the `k`-th address meets the `k`-th word.
-/

set_option autoImplicit false

namespace Kv260Sigv

namespace SigvAxiRegs

open Clocked

/-! ### The channels -/

/-- A cycle of the register block. -/
abbrev Cycle := CoreStatus × Inputs

/-- An address and a word never wait at the same time, and neither waits behind a
response. -/
structure Waiting (s : State) : Prop where
  single : s.awSeen = false ∨ s.wSeen = false
  free : s.bvalid = true → s.awSeen = false ∧ s.wSeen = false

/-! ### One cycle -/

section step

variable (hwBuildMode : BitVec 32) (x : Cycle) {s : State}

/-- An address and a word have met. -/
theorem step_met {w : Write} (h : written x.2 s = some w) :
    (step hwBuildMode x.1 x.2 s).awSeen = false ∧ (step hwBuildMode x.1 x.2 s).wSeen = false ∧
      (step hwBuildMode x.1 x.2 s).bvalid = true := by
  rw [step, h]
  exact ⟨rfl, rfl, rfl⟩

theorem Waiting.next (h : Waiting s) : Waiting (step hwBuildMode x.1 x.2 s) := by
  cases hw : written x.2 s with
  | some w =>
      obtain ⟨haw, hdata, -⟩ := step_met hwBuildMode x hw
      exact ⟨.inl haw, fun _ => ⟨haw, hdata⟩⟩
  | none =>
      rw [step, hw]
      obtain ⟨hsingle, hfree⟩ := h
      unfold written at hw
      constructor
      · cases haw : s.awSeen <;> cases hdata : s.wSeen <;> cases hb : s.bvalid <;>
          cases ha : x.2.awvalid <;> simp_all [awHandshake, wHandshake]
      · intro hb
        cases haw : s.awSeen <;> cases hdata : s.wSeen <;> cases hb' : s.bvalid <;>
          simp_all [awHandshake, wHandshake]

end step

/-! ### The register file -/

/-- The registers that a write can change and a read can show, by address. -/
def stored (s : State) (a : BitVec 8) : BitVec 32 :=
  if a = addrMessageLen then s.config.messageLength.setWidth 32
  else if a = addrJobCount then s.config.requestedJobCount
  else if a = addrLedControl then s.ledControl
  else if a = addrVerifyCfg then verifyCfg s.config
  else if a = addrJobTimeoutCycles then s.config.jobTimeoutCycles
  else if a = addrIrqCtrlStatus then (BitVec.ofBool s.irqEnable).setWidth 32
  else 0

/-- The bits such a register has. -/
def writeMask (a : BitVec 8) : BitVec 32 :=
  if a = addrMessageLen then 0xFFFF
  else if a = addrVerifyCfg then 0xFF03
  else if a = addrIrqCtrlStatus then 1
  else if a = addrJobCount ∨ a = addrLedControl ∨ a = addrJobTimeoutCycles then 0xFFFFFFFF
  else 0

/-- The configuration registers. -/
def configAddr (a : BitVec 8) : Prop :=
  a = addrMessageLen ∨ a = addrJobCount ∨ a = addrVerifyCfg ∨ a = addrJobTimeoutCycles

instance (a : BitVec 8) : Decidable (configAddr a) :=
  inferInstanceAs (Decidable (_ ∨ _ ∨ _ ∨ _))

/-- The register at `a` after a write: the strobed bytes are replaced, unless the write is
for another register or for the configuration of a busy core. -/
def update (a : BitVec 8) (value : BitVec 32) (p : Bool × Write) : BitVec 32 :=
  if alignedAddr p.2.addr = a ∧ ¬ (p.1 = true ∧ configAddr a) then
    applyWstrb value p.2.data p.2.strobe &&& writeMask a
  else value

/-- The fields of `ADDR_VERIFY_CFG` cut out of a word. -/
theorem verifyCfg_fields (x : BitVec 32) (c : Config) :
    verifyCfg { c with dispatchLimit := x.extractLsb' 8 8, verifyMode := x.extractLsb' 0 2 } =
      x &&& 0xFF03 := by
  have hmask : ∀ j < 32,
      (0xFF03 : BitVec 32).getLsbD j = (decide (j < 2) || decide (8 ≤ j ∧ j < 16)) := by
    decide
  apply BitVec.eq_of_getLsbD_eq
  intro j hj
  rw [BitVec.getLsbD_and, hmask j hj]
  simp only [verifyCfg, BitVec.getLsbD_append, BitVec.getLsbD_extractLsb']
  rcases Nat.lt_or_ge j 8 with hlow | hlow
  · rcases Nat.lt_or_ge j 2 with hmode | hmode
    · simp [hmode, hlow, show j < 16 by omega]
    · simp [hlow, Nat.not_lt.mpr hmode, show ¬ 8 ≤ j by omega]
  · rcases Nat.lt_or_ge j 16 with hlimit | hlimit
    · simp [Nat.not_lt.mpr hlow, show j - 8 < 8 by omega, show 8 + (j - 8) = j by omega, hlow,
        hlimit, show ¬ j < 2 by omega]
    · simp [show ¬ j < 2 by omega, Nat.not_lt.mpr hlimit]

section run

variable (hwBuildMode : BitVec 32) (inputs : ℕ → Cycle)

/-- What passed a channel in the first `n` cycles from reset. -/
abbrev passed {α : Type} (f : Cycle → State → List α) (n : ℕ) : List α :=
  ledger (fun x => step hwBuildMode x.1 x.2) inputs reset f n

end run

end SigvAxiRegs

end Kv260Sigv
