import Kv260Sigv.Rtl.Ed25519PointAdd
import Kv260Sigv.Rtl.Ed25519PointDecompress

/-!
# Every request to the point core ends

The steps of an operation come to `STEP_DONE` whatever the multiplier computes: an
addition and a doubling by their schedules, and a decompression because the phases of
the power do not depend on the values.
-/

set_option autoImplicit false

namespace Kv260Sigv

namespace Ed25519PointCore

open Handshake

variable {M : Multiplier} {mul : BitVec 255 → BitVec 255 → BitVec 255}

/-- The chain ends, whatever it multiplies. -/
theorem Chain.iterate_phase {G : Type} (mul : G → G → G) (input g : G) :
    ((multiply mul input)^[length] (start g)).phase = none := by
  -- without the values all chains are the same
  have hvalues := @iterate_map G Unit (fun _ => ()) mul (fun _ _ => ()) (fun _ _ => rfl) input
    (start g) length
  have hexponents := @iterate_map (Option ℕ) Unit (fun _ => ()) addExponents (fun _ _ => ())
    (fun _ _ => rfl) (some 1) (start none) length
  have hsame : (start g).map (fun _ => ()) = (start (none : Option ℕ)).map (fun _ => ()) := rfl
  rw [hsame, hexponents] at hvalues
  have hphase := congrArg Chain.phase hvalues
  rw [map_phase, map_phase, iterate_exponents.1] at hphase
  exact hphase.symm

/-- The steps of a decompression. -/
theorem exists_finish_decompress {i : Inputs} (hop : i.op = opDecompress) (n : Regs) :
    ∃ k, ((load i n).finish mul k).step = .done := by
  have hbefore := @leadsTo_beforePower mul i hop n
  generalize hr : beforePower mul (encodedYCanonical i.encodedPoint) (load i n) = r at hbefore
  have hholds : r.Holds (Chain.start 0) := by
    rw [← hr]
    exact holds_beforePower _ _
  obtain ⟨r₁, hpower, hend, -⟩ := @Regs.Holds.leadsTo mul r _ hholds Chain.length
  have hstep : r₁.step = .dec8 := by
    rw [hend.step, Chain.iterate_phase]
    rfl
  obtain ⟨r₂, hafter, hdone, -⟩ := @leadsTo_afterPower mul r₁ hstep
  obtain ⟨k, hfinish⟩ := ((hbefore.trans hpower).trans hafter).exists_finish hdone
  exact ⟨k, by rw [hfinish, hdone]⟩

/-- The steps of any request. -/
theorem exists_finish (i : Inputs) (n : Regs) :
    ∃ k, ((load i n).finish mul k).step = .done := by
  by_cases hadd : i.op = opAdd
  · exact ⟨22, (finish_add (load_add hadd n).1).1⟩
  by_cases hdouble : i.op = opDouble
  · exact ⟨18, (finish_double hdouble n).1⟩
  by_cases hdecompress : i.op = opDecompress
  · exact exists_finish_decompress hdecompress n
  · -- no such operation
    refine ⟨0, ?_⟩
    rw [Regs.finish, load, if_neg hadd, if_neg hdouble, if_neg hdecompress]

/-- Every start is answered. -/
theorem live_pointServer (h : M.Computes mul) : (pointServer M mul).Live fun _ _ => True := by
  rintro inputs s ⟨hs, hidle⟩ hstart -
  obtain ⟨n, hlast⟩ := @exists_finish mul (inputs 0) s.regs.rest
  obtain ⟨k, hbefore, hend⟩ := run_request h n hs hidle hstart hlast
  refine ⟨k, hbefore, ?_⟩
  show (Clocked.run step inputs s (k + 1)).regs.done = true
  rw [hend]

end Ed25519PointCore

end Kv260Sigv
