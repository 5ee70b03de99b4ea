import Kv260Sigv.System.Launch

/-!
# Sequences of calls

A `Session` is what the single-flight accelerator lets happen: calls of
`verify_batch` one after the other, each ending in any way.  The configuration
registers refuse stores while the core is busy, and the driver does not look at the
refusal: a call whose predecessor has left the core busy can launch its batch with
the registers of the request before.
-/

set_option autoImplicit false

namespace Kv260Sigv

open Accelerator SigvAxiRegs

/-- The configuration a request asks for. -/
def Accelerator.HardwareBatchRequest.config (request : HardwareBatchRequest) : Config where
  messageLength := BitVec.ofNat 16 request.message.length
  requestedJobCount := BitVec.ofNat 32 request.jobs.length
  verifyMode := request.verifyMode.registerBits.setWidth 2
  dispatchLimit := request.dispatchLimit
  jobTimeoutCycles := request.jobTimeoutCycles

/-- One call: what it was asked, how it ended, and when it was begun and had ended. -/
structure Call where
  host : Host
  request : HardwareBatchRequest
  result : Except ServiceError HardwareBatchResult
  began : ℕ
  ended : ℕ

/-- Calls one after the other, from cycle `c` on, with nothing in between. -/
inductive Session (h : History Access Answer) : ℕ → List Call → Prop
  | nil (c : ℕ) : Session h c []
  | cons {c : ℕ} {call : Call} {calls : List Call} (le : c ≤ call.began)
      (quiet : h.Quiet c call.began)
      (performs : Program.Performs h (verifyBatch call.host call.request).run call.began call.ended
        call.result)
      (rest : Session h call.ended calls) : Session h c (call :: calls)

theorem Session.performs {h : History Access Answer} {c : ℕ} {calls : List Call}
    (hs : Session h c calls) {call : Call} (hcall : call ∈ calls) :
    Program.Performs h (verifyBatch call.host call.request).run call.began call.ended
      call.result := by
  induction hs with
  | nil => contradiction
  | cons le quiet performs rest ih =>
      rcases List.mem_cons.mp hcall with rfl | hrest
      · exact performs
      · exact ih hrest

namespace Device

variable {engine : EngineVerdict} {inputs : ℕ → Inputs} {d₀ : Device}

/-- A store to a configuration register takes effect, or changes nothing: the core is
not busy, or the register already holds the word. -/
def Takes (d : Device) (offset : ℕ) (value : BitVec 32) : Prop :=
  d.bench.core.busy = false ∨ d.loaded .control offset = value

/-- The configuration after the four stores of a request: a field is the request's if
the core was not busy when it was stored. -/
def merged (request old : Config) (busy₁ busy₂ busy₃ busy₄ : Bool) : Config where
  messageLength := if busy₁ then old.messageLength else request.messageLength
  requestedJobCount := if busy₂ then old.requestedJobCount else request.requestedJobCount
  verifyMode := if busy₃ then old.verifyMode else request.verifyMode
  dispatchLimit := if busy₃ then old.dispatchLimit else request.dispatchLimit
  jobTimeoutCycles := if busy₄ then old.jobTimeoutCycles else request.jobTimeoutCycles

/-- The bits of the word of `ADDR_VERIFY_CFG`. -/
theorem getLsbD_verifyCfg (c : Config) (j : ℕ) :
    (verifyCfg c).getLsbD j =
      if j < 8 then decide (j < 2) && c.verifyMode.getLsbD j
      else decide (j < 16) && c.dispatchLimit.getLsbD (j - 8) := by
  simp only [verifyCfg, BitVec.getLsbD_append]
  split_ifs <;> simp_all
  omega

/-- The fields of the word of `ADDR_VERIFY_CFG`. -/
theorem verifyCfg_fields (c : Config) :
    (verifyCfg c).extractLsb' 8 8 = c.dispatchLimit ∧
      (verifyCfg c).extractLsb' 0 2 = c.verifyMode := by
  constructor
  · apply BitVec.eq_of_getLsbD_eq
    intro j hj
    rw [BitVec.getLsbD_extractLsb', getLsbD_verifyCfg, if_neg (by omega), Nat.add_sub_cancel_left]
    simp [hj, show 8 + j < 16 by omega]
  · apply BitVec.eq_of_getLsbD_eq
    intro j hj
    rw [BitVec.getLsbD_extractLsb', getLsbD_verifyCfg, if_pos (by omega), Nat.zero_add]
    simp [hj]

theorem alignedMessageLen : alignedAddr (BitVec.ofNat 8 regMessageLen) = addrMessageLen := rfl

theorem alignedJobCount : alignedAddr (BitVec.ofNat 8 regJobCount) = addrJobCount := rfl

theorem alignedVerifyCfg : alignedAddr (BitVec.ofNat 8 regVerifyCfg) = addrVerifyCfg := rfl

theorem alignedJobTimeoutCycles :
    alignedAddr (BitVec.ofNat 8 regJobTimeoutCycles) = addrJobTimeoutCycles := rfl

/-- The length survives the 16 bits of its register. -/
theorem setWidth_length (request : HardwareBatchRequest) :
    (BitVec.ofNat 32 request.message.length).setWidth 16 = request.config.messageLength := by
  apply BitVec.eq_of_toNat_eq
  rw [HardwareBatchRequest.config, BitVec.toNat_setWidth, BitVec.toNat_ofNat, BitVec.toNat_ofNat]
  omega

/-- The driver packs the word as the register block reads it back. -/
theorem verifyCfgWord_eq (request : HardwareBatchRequest) :
    verifyCfgWord request = verifyCfg request.config := by
  apply BitVec.eq_of_getLsbD_eq
  intro j hj
  have hmode : ∀ mode : VerifyMode, mode.registerBits.getLsbD j =
      (decide (j < 2) && (mode.registerBits.setWidth 2).getLsbD j) := by
    intro mode
    cases mode with
    | strict => simp [VerifyMode.registerBits]
    | agaveZebra =>
        rcases Nat.eq_zero_or_pos j with rfl | hpos
        · rfl
        · simp [VerifyMode.registerBits, BitVec.getLsbD_one]
          omega
  rw [getLsbD_verifyCfg, verifyCfgWord, BitVec.getLsbD_or, BitVec.getLsbD_shiftLeft, hmode]
  simp only [HardwareBatchRequest.config, BitVec.getLsbD_setWidth]
  by_cases hlow : j < 8
  · simp [hlow, hj]
  · have hlimit : request.dispatchLimit.getLsbD (j - 8) = true → j < 16 := by
      intro hbit
      have hlt := BitVec.lt_of_getLsbD hbit
      omega
    rw [if_neg hlow, decide_eq_false (show ¬ j < 2 by omega)]
    cases hbit : request.dispatchLimit.getLsbD (j - 8) with
    | false => simp
    | true => simp [hlimit hbit, hlow, hj, show j - 8 < 32 by omega]

/-- The configuration along the stores of a request. -/
theorem config_of_stores {t : Timeline} {c c' : ℕ} {request : HardwareBatchRequest}
    (ht : t.Stores (history engine inputs d₀) c c' request) (hle : c ≤ t.stored) :
    let d := run engine inputs d₀
    let old := (d c).regs.config
    (d t.messageLen).regs.config = old ∧
      (d t.jobCount).regs.config.requestedJobCount = old.requestedJobCount ∧
      (d t.verifyCfg).regs.config.dispatchLimit = old.dispatchLimit ∧
      (d t.verifyCfg).regs.config.verifyMode = old.verifyMode ∧
      (d t.jobTimeout).regs.config.jobTimeoutCycles = old.jobTimeoutCycles ∧
      (d (t.jobTimeout + 1)).regs.config =
        merged request.config old (d t.messageLen).bench.core.busy (d t.jobCount).bench.core.busy
          (d t.verifyCfg).bench.core.busy (d t.jobTimeout).bench.core.busy := by
  intro d old
  obtain ⟨⟨_, _, _, _, -, hmemories, -⟩, ⟨hle₁, hcalm₁, hevent₁⟩, ⟨hlt₂, hcalm₂, hevent₂⟩,
    ⟨hlt₃, hcalm₃, hevent₃⟩, ⟨hlt₄, hcalm₄, hevent₄⟩, -⟩ := ht
  have h₁ : (d t.messageLen).regs.config = old :=
    (config_of_calm hcalm₁.calm hle₁).trans (config_of_calm hmemories hle)
  have h₂ : (d t.jobCount).regs.config =
      if (d t.messageLen).bench.core.busy then old
      else { old with messageLength := request.config.messageLength } := by
    rw [← h₁]
    refine (config_of_calm hcalm₂.calm hlt₂).trans ((step_store engine hevent₁).1.trans ?_)
    rw [newConfig_messageLen alignedMessageLen, setWidth_length]
    rfl
  have h₃ : (d t.verifyCfg).regs.config =
      if (d t.jobCount).bench.core.busy then (d t.jobCount).regs.config
      else
        { (d t.jobCount).regs.config with
          requestedJobCount := request.config.requestedJobCount } := by
    refine (config_of_calm hcalm₃.calm hlt₃).trans ((step_store engine hevent₂).1.trans ?_)
    rw [newConfig_jobCount alignedJobCount]
    rfl
  have h₄ : (d t.jobTimeout).regs.config =
      if (d t.verifyCfg).bench.core.busy then (d t.verifyCfg).regs.config
      else
        { (d t.verifyCfg).regs.config with
          dispatchLimit := request.config.dispatchLimit
          verifyMode := request.config.verifyMode } := by
    obtain ⟨hlimit, hmode⟩ := verifyCfg_fields request.config
    refine (config_of_calm hcalm₄.calm hlt₄).trans ((step_store engine hevent₃).1.trans ?_)
    rw [newConfig_verifyCfg alignedVerifyCfg, verifyCfgWord_eq, hlimit, hmode]
    rfl
  have h₅ : (d (t.jobTimeout + 1)).regs.config =
      if (d t.jobTimeout).bench.core.busy then (d t.jobTimeout).regs.config
      else
        { (d t.jobTimeout).regs.config with
          jobTimeoutCycles := request.config.jobTimeoutCycles } := by
    refine (step_store engine hevent₄).1.trans ?_
    rw [newConfig_jobTimeoutCycles alignedJobTimeoutCycles]
    rfl
  generalize (d t.messageLen).bench.core.busy = busy₁ at *
  generalize (d t.jobCount).bench.core.busy = busy₂ at *
  generalize (d t.verifyCfg).bench.core.busy = busy₃ at *
  generalize (d t.jobTimeout).bench.core.busy = busy₄ at *
  refine ⟨h₁, ?_, ?_, ?_, ?_, ?_⟩
  · rw [h₂]
    split <;> rfl
  · rw [h₃, h₂]
    split_ifs <;> rfl
  · rw [h₃, h₂]
    split_ifs <;> rfl
  · rw [h₄, h₃, h₂]
    split_ifs <;> rfl
  · rw [h₅, h₄, h₃, h₂]
    cases busy₁ <;> cases busy₂ <;> cases busy₃ <;> cases busy₄ <;> rfl

/-- After its stores a call leaves the configuration alone. -/
theorem config_of_succeeds {t : Timeline} {c c' : ℕ} {request : HardwareBatchRequest}
    {result : HardwareBatchResult}
    (ht : t.Succeeds (history engine inputs d₀) c c' request result) {k : ℕ}
    (hk : t.jobTimeout < k) (hk' : k ≤ c') :
    (run engine inputs d₀ k).regs.config = (run engine inputs d₀ (t.jobTimeout + 1)).regs.config := by
  have hload : Still (history engine inputs d₀) t.batchId (t.batchId + 1) := by
    intro j hj hj' o ho
    rw [show j = t.batchId by omega, ht.batchId, List.mem_singleton] at ho
    rw [ho]
    trivial
  have hbefore := ((ht.calm.append hload).append ht.prepared.2).calm
  obtain ⟨_, hstores, hle⟩ := ht.stores
  have hlt := hstores.after.1
  have hlt' := ht.prepared.1
  rcases Nat.lt_or_ge t.control k with hlaunched | hprepared
  · have hcontrol : (run engine inputs d₀ (t.control + 1)).regs.config =
        (run engine inputs d₀ t.control).regs.config := by
      refine (step_store engine ht.control).1.trans (newConfig_other ?_)
      decide
    have hafter : Calm (history engine inputs d₀) (t.control + 1) k :=
      fun j hj hj' => ht.waited.2.2.calm j hj (by omega)
    rw [config_of_calm hafter hlaunched, hcontrol, config_of_calm hbefore (by omega)]
  · have hpart : Calm (history engine inputs d₀) (t.jobTimeout + 1) k :=
      fun j hj hj' => hbefore j hj (by omega)
    exact config_of_calm hpart hk

/-! ### When a store takes effect -/

theorem takes_messageLen {d : Device} {request : HardwareBatchRequest}
    (hlen : request.message.length ≤ messageSize) :
    Takes d regMessageLen (BitVec.ofNat 32 request.message.length) ↔
      d.bench.core.busy = false ∨ d.regs.config.messageLength = request.config.messageLength := by
  have hsize : messageSize = 4096 := rfl
  have hword : d.loaded .control regMessageLen = d.regs.config.messageLength.setWidth 32 := rfl
  rw [Takes, hword]
  refine or_congr_right ⟨fun heq => ?_, fun heq => ?_⟩
  · rw [← setWidth_length, ← heq]
    apply BitVec.eq_of_getLsbD_eq
    intro j hj
    simp [hj]
  · rw [heq]
    apply BitVec.eq_of_toNat_eq
    rw [HardwareBatchRequest.config, BitVec.toNat_setWidth, BitVec.toNat_ofNat, BitVec.toNat_ofNat]
    omega

theorem takes_verifyCfg {d : Device} {request : HardwareBatchRequest} :
    Takes d regVerifyCfg (verifyCfgWord request) ↔
      d.bench.core.busy = false ∨ d.regs.config.verifyMode = request.config.verifyMode ∧
        d.regs.config.dispatchLimit = request.config.dispatchLimit := by
  have hword : d.loaded .control regVerifyCfg = verifyCfg d.regs.config := rfl
  rw [Takes, hword, verifyCfgWord_eq]
  refine or_congr_right ⟨fun heq => ?_, fun ⟨hmode, hlimit⟩ => ?_⟩
  · obtain ⟨hlimit, hmode⟩ := verifyCfg_fields d.regs.config
    obtain ⟨hlimit', hmode'⟩ := verifyCfg_fields request.config
    rw [← hlimit, ← hmode, heq]
    exact ⟨hmode', hlimit'⟩
  · rw [verifyCfg, verifyCfg, hmode, hlimit]

/-- The configuration is the request's exactly if each of the four stores takes effect. -/
theorem merged_eq_iff (request old : Config) (busy₁ busy₂ busy₃ busy₄ : Bool) :
    merged request old busy₁ busy₂ busy₃ busy₄ = request ↔
      (busy₁ = false ∨ old.messageLength = request.messageLength) ∧
        (busy₂ = false ∨ old.requestedJobCount = request.requestedJobCount) ∧
        (busy₃ = false ∨ old.verifyMode = request.verifyMode ∧
          old.dispatchLimit = request.dispatchLimit) ∧
        (busy₄ = false ∨ old.jobTimeoutCycles = request.jobTimeoutCycles) := by
  obtain ⟨length, count, mode, limit, timeout⟩ := request
  cases busy₁ <;> cases busy₂ <;> cases busy₃ <;> cases busy₄ <;> simp [merged] <;> tauto

end Device

end Kv260Sigv
