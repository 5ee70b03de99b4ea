import Kv260Sigv.System.Master

/-!
# Whose configuration a batch runs with

A call that returns `Ok` is answered by its own batch, but the batch runs with the
call's own configuration only if its stores to the configuration registers took
effect.  They do not while the batch of an earlier call, given up after a timeout, is
still running.
-/

set_option autoImplicit false

namespace Kv260Sigv

open Accelerator SigvAxiRegs

namespace Device

/-- The registers that make up the configuration. -/
def configRegs : List ℕ := [regMessageLen, regJobCount, regVerifyCfg, regJobTimeoutCycles]

/-- Every configuration store of the call takes effect. -/
def StoresTake (h : History Access Answer) (d : ℕ → Device) (call : Call) : Prop :=
  ∀ k offset value, call.began ≤ k → k < call.ended → offset ∈ configRegs →
    h.events k = [storeTo offset value] → Takes (d k) offset value

/-- The batch launched in cycle `L` and over in cycle `r` ran with the configuration of the
request throughout. -/
def RanWith (d : ℕ → Device) (L r : ℕ) (request : HardwareBatchRequest) : Prop :=
  ∀ k, L ≤ k → k ≤ r → (d k).regs.config = request.config

theorem storeTo_inj {offset offset' : ℕ} {value value' : BitVec 32}
    (h : [storeTo offset value] = [storeTo offset' value']) : offset = offset' ∧ value = value' := by
  simpa [storeTo] using h

/-- A call that returns `Ok` has stored to the configuration registers four times. -/
theorem configStore_cycle {h : History Access Answer} {t : Timeline} {c c' : ℕ}
    {request : HardwareBatchRequest} {result : HardwareBatchResult}
    (ht : t.Succeeds h c c' request result) {k offset : ℕ} {value : BitVec 32} (hk : c ≤ k)
    (hk' : k < c') (hoffset : offset ∈ configRegs) (hevent : h.events k = [storeTo offset value]) :
    k = t.messageLen ∨ k = t.jobCount ∨ k = t.verifyCfg ∨ k = t.jobTimeout := by
  obtain ⟨_, hstores, hle⟩ := ht.stores
  obtain ⟨⟨_, _, _, _, -, hcalm₀, -⟩, ⟨hle₁, hcalm₁, -⟩, ⟨hlt₂, hcalm₂, -⟩, ⟨hlt₃, hcalm₃, -⟩,
    ⟨hlt₄, hcalm₄, -⟩, -⟩ := hstores
  have hnot : ∀ {a b : ℕ}, Calm h a b → ¬ (a ≤ k ∧ k < b) := by
    intro a b hcalm hin
    have hharmless : Harmless (storeTo offset value) := by
      refine hcalm k hin.1 hin.2 _ ?_
      rw [hevent]
      exact List.mem_singleton.mpr rfl
    have hirq : offset = regIrqCtrlStatus := hharmless
    rw [hirq] at hoffset
    revert hoffset
    decide
  have hcontrol : k ≠ t.control := by
    rintro rfl
    rw [ht.control] at hevent
    simp only [storeTo, List.cons.injEq, Access.store.injEq, and_true, true_and] at hevent
    rw [← hevent.1] at hoffset
    revert hoffset
    decide
  have hbatchId : k ≠ t.batchId := by
    rintro rfl
    rw [ht.batchId] at hevent
    simp [storeTo] at hevent
  have h₀ := hnot hcalm₀
  have h₁ := hnot hcalm₁.calm
  have h₂ := hnot hcalm₂.calm
  have h₃ := hnot hcalm₃.calm
  have h₄ := hnot hcalm₄.calm
  have h₅ := hnot ht.calm.calm
  have h₆ := hnot ht.prepared.2.calm
  have h₇ := hnot ht.waited.2.2.calm
  have h₈ := ht.prepared.1
  have h₉ := ht.waited.1
  omega

/-- What `Ok` promises of a call: the batch that answers it was launched by it and ran
with its configuration. -/
def Honoured (d : ℕ → Device) (call : Call) : Prop :=
  ∀ result, call.result = .ok result →
    ∃ L r, call.began ≤ L ∧ Serves d L r call.ended result ∧ RanWith d L r call.request

section session

variable {engine : EngineVerdict} {inputs : ℕ → Inputs} {d₀ : Device} {c : ℕ} {calls : List Call}
  {call : Call} {result : HardwareBatchResult}

theorem timeline_of_session (hs : Session (history engine inputs d₀) c calls) (hcall : call ∈ calls)
    (hok : call.result = .ok result) :
    ∃ t : Timeline, t.Succeeds (history engine inputs d₀) call.began call.ended call.request
      result := by
  have hperforms := hs.performs hcall
  rw [hok] at hperforms
  exact of_verifyBatch hperforms

/-- A call leaves its own configuration behind exactly if each of its configuration stores
took effect. -/
theorem config_iff {t : Timeline}
    (ht : t.Succeeds (history engine inputs d₀) call.began call.ended call.request result) :
    (run engine inputs d₀ call.ended).regs.config = call.request.config ↔
      StoresTake (history engine inputs d₀) (run engine inputs d₀) call := by
  obtain ⟨e, hstores, -⟩ := ht.stores
  obtain ⟨h₁, h₂, h₃, h₄, h₅, h₆, h₇, h₈, h₉⟩ := ht.order
  obtain ⟨hlength, hcount, hlimit, hmode, htimeout, hmerged⟩ := config_of_stores hstores h₁
  have hlength' := congrArg Config.messageLength hlength
  rw [config_of_succeeds ht (by omega) le_rfl, hmerged, merged_eq_iff, ← hlength', ← hcount,
    ← hlimit, ← hmode, ← htimeout, ← takes_messageLen (of_checkRequest ht.checked).1.2,
    ← takes_verifyCfg]
  constructor
  · rintro ⟨htakes₁, htakes₂, htakes₃, htakes₄⟩ k offset value hk hk' hoffset hevent
    rcases configStore_cycle ht hk hk' hoffset hevent with rfl | rfl | rfl | rfl
    · obtain ⟨rfl, rfl⟩ := storeTo_inj (hstores.messageLen.2.2.symm.trans hevent)
      exact htakes₁
    · obtain ⟨rfl, rfl⟩ := storeTo_inj (hstores.jobCount.2.2.symm.trans hevent)
      exact htakes₂
    · obtain ⟨rfl, rfl⟩ := storeTo_inj (hstores.verifyCfg.2.2.symm.trans hevent)
      exact htakes₃
    · obtain ⟨rfl, rfl⟩ := storeTo_inj (hstores.jobTimeout.2.2.symm.trans hevent)
      exact htakes₄
  · intro htakes
    exact ⟨htakes _ regMessageLen _ (by omega) (by omega) (by decide) hstores.messageLen.2.2,
      htakes _ regJobCount _ (by omega) (by omega) (by decide) hstores.jobCount.2.2,
      htakes _ regVerifyCfg _ (by omega) (by omega) (by decide) hstores.verifyCfg.2.2,
      htakes _ regJobTimeoutCycles _ (by omega) (by omega) (by decide) hstores.jobTimeout.2.2⟩

/-- The batch that answers a call runs with the configuration the call leaves behind. -/
theorem serves_config {t : Timeline}
    (ht : t.Succeeds (history engine inputs d₀) call.began call.ended call.request result) :
    ∃ L r, call.began ≤ L ∧ Serves (run engine inputs d₀) L r call.ended result ∧
      ∀ k, L ≤ k → k ≤ r →
        (run engine inputs d₀ k).regs.config = (run engine inputs d₀ call.ended).regs.config := by
  obtain ⟨h₁, h₂, h₃, h₄, h₅, h₆, h₇, h₈, h₉⟩ := ht.order
  refine ⟨t.control + 1, t.status, by omega, serves_of_succeeds ht, ?_⟩
  intro k hk hk'
  rw [config_of_succeeds ht (by omega) (by omega), config_of_succeeds ht (k := call.ended) (by omega)
    le_rfl]

/-- A call that is honoured leaves its own configuration behind. -/
theorem config_of_honoured {t : Timeline} (hok : call.result = .ok result)
    (ht : t.Succeeds (history engine inputs d₀) call.began call.ended call.request result)
    (hhonoured : Honoured (run engine inputs d₀) call) :
    (run engine inputs d₀ call.ended).regs.config = call.request.config := by
  obtain ⟨h₁, h₂, h₃, h₄, h₅, h₆, h₇, h₈, h₉⟩ := ht.order
  obtain ⟨L, r, -, hserves, hran⟩ := hhonoured result hok
  -- the last launch before the end of the call is the call's own
  have hlate : t.control + 1 ≤ L := by
    by_contra hearly
    have hlow := hserves.last (t.control + 1) (by omega) (by omega)
    rw [(launch_of_control ht.control).1] at hlow
    exact absurd hlow.1 Bool.false_ne_true.symm
  have horder := hserves.order
  rw [← hran L le_rfl (by omega), config_of_succeeds ht (by omega) le_rfl,
    config_of_succeeds ht (k := L) (by omega) (by omega)]

end session

/-- In every session, a call that returns `Ok` is honoured exactly if each of its stores to
the configuration registers took effect. -/
theorem honoured_iff (engine : EngineVerdict) (inputs : ℕ → Inputs) (d₀ : Device) (c : ℕ)
    (calls : List Call) (hs : Session (history engine inputs d₀) c calls) (call : Call)
    (hcall : call ∈ calls) (result : HardwareBatchResult) (hok : call.result = .ok result) :
    Honoured (run engine inputs d₀) call ↔
      StoresTake (history engine inputs d₀) (run engine inputs d₀) call := by
  obtain ⟨t, ht⟩ := timeline_of_session hs hcall hok
  rw [← config_iff ht]
  constructor
  · exact config_of_honoured hok ht
  · intro hown result' hok'
    rw [hok, Except.ok.injEq] at hok'
    subst hok'
    obtain ⟨L, r, hbegan, hserves, hconfig⟩ := serves_config ht
    exact ⟨L, r, hbegan, hserves, fun k hk hk' => (hconfig k hk hk').trans hown⟩

/-! ### A session in which they do not -/

/-- Two calls: the first runs into its timeout at once. -/
def twoCalls : Program Access Answer (Except ServiceError HardwareBatchResult) := do
  let _ ← (verifyBatch (plainHost 0) (zeroRequest 1)).run
  (verifyBatch (plainHost 0) (zeroRequest 2)).run

/-- The second call returns `Ok`, and the configuration is still that of the first. -/
theorem plays_twoCalls (engine : EngineVerdict) :
    (machine engine).Plays (Idle Resting ⟨0, 0, 0, 0, 0⟩ (0 + 18446)) twoCalls fun second d =>
      ∃ result, second = .ok result ∧ d.regs.config = (zeroRequest 1).config := by
  have hlaunchable : (zeroRequest 1).config.Launchable := ⟨by decide, by decide, by decide⟩
  have hfirst : (machine engine).Plays (Idle Resting ⟨0, 0, 0, 0, 0⟩ (0 + 18446))
      (verifyBatch (plainHost 0) (zeroRequest 1)).run
      fun _ d => Idle (Slowed (18446 + 2)) (zeroRequest 1).config (0 + 18446) d := by
    refine plays_verifyBatch (resting_endures 0) rfl (by decide) rfl rfl 0 fun batchId => ?_
    exact (fails_awaitResult (R := 0 + 18446) hlaunchable rfl rfl).mono (fun _ h => h)
      fun _ _ h => h.2
  refine Machine.Plays.bind hfirst fun _ => ?_
  refine plays_verifyBatch (slowed_endures (18446 + 2)) rfl (by decide) rfl rfl 0 fun batchId => ?_
  exact succeeds_awaitResult (c := (zeroRequest 1).config) hlaunchable rfl 0

/-- The session as it happens on a device that has just been reset. -/
theorem exists_session : ∃ (engine : EngineVerdict) (inputs : ℕ → Inputs) (dout : BitVec 32)
    (messageBram : MessagePort.Memory) (jobBram : JobMemory) (first second : Call)
    (result : HardwareBatchResult),
    Session (history engine inputs (reset dout messageBram jobBram)) 0 [first, second] ∧
      second.request = zeroRequest 2 ∧ second.result = .ok result ∧
      (run engine inputs (reset dout messageBram jobBram) second.ended).regs.config =
        (zeroRequest 1).config := by
  have hready : Idle Resting ⟨0, 0, 0, 0, 0⟩ (0 + 18446) (reset 0 (fun _ => 0) fun _ => 0) :=
    ⟨⟨rfl, rfl, rfl, rfl⟩, ⟨rfl, rfl⟩, ⟨rfl, rfl, rfl⟩, rfl⟩
  obtain ⟨inputs, n, second, hperforms, result, hok, hconfig⟩ :=
    plays_twoCalls (fun _ _ _ => true) _ hready
  obtain ⟨first, k, hfirst, hsecond⟩ := Program.Performs.of_bind hperforms
  refine ⟨fun _ _ _ => true, inputs, 0, fun _ => 0, fun _ => 0,
    ⟨plainHost 0, zeroRequest 1, first, 0, k⟩, ⟨plainHost 0, zeroRequest 2, second, k, n⟩, result, ?_,
    rfl, hok, hconfig⟩
  refine .cons le_rfl (fun j _ hj => absurd hj (Nat.not_lt_zero j)) hfirst ?_
  exact .cons le_rfl (fun j hj hj' => absurd hj' (Nat.not_lt_of_le hj)) hsecond (.nil _)

/-- Not every session honours its calls: after the first call's timeout the second
verifies one byte of its message instead of two. -/
theorem honoured_wrong : ¬ ∀ (engine : EngineVerdict) (inputs : ℕ → Inputs) (dout : BitVec 32)
    (messageBram : MessagePort.Memory) (jobBram : JobMemory) (calls : List Call),
    Session (history engine inputs (reset dout messageBram jobBram)) 0 calls →
      ∀ call ∈ calls, Honoured (run engine inputs (reset dout messageBram jobBram)) call := by
  intro hall
  obtain ⟨engine, inputs, dout, messageBram, jobBram, first, second, result, hs, hrequest, hok,
    hconfig⟩ := exists_session
  have hmem : second ∈ [first, second] := List.mem_cons_of_mem _ List.mem_cons_self
  obtain ⟨t, ht⟩ := timeline_of_session hs hmem hok
  have hown := config_of_honoured hok ht
    (hall engine inputs dout messageBram jobBram _ hs second hmem)
  rw [hconfig, hrequest] at hown
  revert hown
  decide

/-- In that session the theorem shows that a store of the second call was refused. -/
theorem honoured_iff_two_calls : ∃ (engine : EngineVerdict) (inputs : ℕ → Inputs) (d₀ : Device)
    (first second : Call) (result : HardwareBatchResult),
    Session (history engine inputs d₀) 0 [first, second] ∧ second.result = .ok result ∧
      ¬ StoresTake (history engine inputs d₀) (run engine inputs d₀) second := by
  obtain ⟨engine, inputs, dout, messageBram, jobBram, first, second, result, hs, hrequest, hok,
    hconfig⟩ := exists_session
  have hmem : second ∈ [first, second] := List.mem_cons_of_mem _ List.mem_cons_self
  refine ⟨engine, inputs, reset dout messageBram jobBram, first, second, result, hs, hok, ?_⟩
  rw [← honoured_iff engine inputs _ 0 _ hs second hmem result hok]
  intro hhonoured
  obtain ⟨t, ht⟩ := timeline_of_session hs hmem hok
  have hown := config_of_honoured hok ht hhonoured
  rw [hconfig, hrequest] at hown
  revert hown
  decide

end Device

end Kv260Sigv
