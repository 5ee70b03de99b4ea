import Kv260Sigv.Daemon.Conduct
import Kv260Sigv.System.CompletionIrq
import Kv260Sigv.System.CompletionSnapshot
import Kv260Sigv.System.Launch

/-!
# Which batch a register speaks of

The live registers belong to the batch launched last, unless a soft reset has cleared
them since; the snapshot belongs to the batch that ended last.  `LiveOf` and `SnapshotOf`
say so by the cycle of the launch, which tells batches apart where their 32-bit numbers
may not.
-/

set_option autoImplicit false

namespace Kv260Sigv

open Accelerator SigvAxiRegs
open SigvKv260Core (Starts Accepts Refuses Runs Concludes Orderly status)

namespace SigvKv260Core

variable {en : Bool} {i : Inputs} {s : State}

/-- A launch that shows `done` afterwards has been refused. -/
theorem concludes_of_starts (hstarts : Starts i s) (hdone : (step en i s).done = true) :
    Concludes en i s := by
  by_cases hconfig : i.config.Launchable
  · rw [(step_of_accepts en ⟨hstarts, hconfig⟩).pending.1] at hdone
    cases hdone
  · exact Or.inl ⟨hstarts, hconfig⟩

end SigvKv260Core

namespace Device

section

variable (engine : EngineVerdict) (inputs : ℕ → Inputs) (d₀ : Device)

/-- What the core sees of cycle `k` of a run. -/
def coreInputs (k : ℕ) : SigvKv260Core.Inputs :=
  Bench.coreInputs (benchInputs engine (inputs k) (run engine inputs d₀ k))
    (run engine inputs d₀ k).bench

/-- Cycle `k` launches a batch. -/
def StartsAt (k : ℕ) : Prop :=
  Starts (coreInputs engine inputs d₀ k) (run engine inputs d₀ k).bench.core

/-- Cycle `k` ends a batch. -/
def ConcludesAt (k : ℕ) : Prop :=
  Concludes false (coreInputs engine inputs d₀ k) (run engine inputs d₀ k).bench.core

/-- In cycle `k` the live registers, the result mask among them, are those of the batch
launched in cycle `L`. -/
structure LiveOf (L k : ℕ) : Prop where
  lt : L < k
  starts : StartsAt engine inputs d₀ L
  last : ∀ j, L < j → j < k → ¬ StartsAt engine inputs d₀ j ∧
    (run engine inputs d₀ j).regs.softResetPulse = false

end

variable {engine : EngineVerdict} {inputs : ℕ → Inputs} {d₀ : Device} {L L' k m : ℕ}

/-- The live registers are those of one batch. -/
theorem LiveOf.unique (h : LiveOf engine inputs d₀ L k) (h' : LiveOf engine inputs d₀ L' k) :
    L = L' := by
  rcases Nat.lt_trichotomy L L' with hlt | heq | hlt
  · exact absurd h'.starts (h.last L' hlt h'.lt).1
  · exact heq
  · exact absurd h.starts (h'.last L hlt h.lt).1

/-- They were those of the batch all along. -/
theorem LiveOf.before (h : LiveOf engine inputs d₀ L k) (hlt : L < m) (hle : m ≤ k) :
    LiveOf engine inputs d₀ L m :=
  ⟨hlt, h.starts, fun j hj hj' => h.last j hj (by omega)⟩

/-- A batch that shows `done` has ended. -/
theorem LiveOf.concluded (horderly : ∀ j, Orderly (run engine inputs d₀ j).bench.core)
    (h : LiveOf engine inputs d₀ L k) (hdone : (run engine inputs d₀ k).bench.core.done = true) :
    ∃ m < k, ConcludesAt engine inputs d₀ m ∧ LiveOf engine inputs d₀ L (m + 1) := by
  have hlt := h.lt
  obtain ⟨n, rfl⟩ : ∃ n, k = L + 1 + n := ⟨k - (L + 1), by omega⟩
  clear hlt
  induction n with
  | zero => exact ⟨L, Nat.lt_succ_self L, SigvKv260Core.concludes_of_starts h.starts hdone, h⟩
  | succ n ih =>
      have hbefore : LiveOf engine inputs d₀ L (L + 1 + n) := h.before (by omega) (by omega)
      cases hshown : (run engine inputs d₀ (L + 1 + n)).bench.core.done with
      | true =>
          obtain ⟨m, hm, hrest⟩ := ih hbefore hshown
          exact ⟨m, by omega, hrest⟩
      | false =>
          refine ⟨L + 1 + n, by omega, ?_, h⟩
          exact SigvKv260Core.concludes_of_done (horderly _) hshown hdone

end Device

end Kv260Sigv
