import Kv260Sigv.Host.SmokeCalls
import Kv260Sigv.System.Origins
import Kv260Sigv.System.OwnConfig

/-!
# A device with several clients

Nothing keeps two processes from driving the device at once: each makes the accesses of
its own calls, one access of one client at a time.  The batch id in the snapshot tells a
call that another launch has overtaken its own, but it is compared once, and the mask
words are live registers that every launch clears: a call returns results of its own
batch exactly if no other client's launch comes between its launch and its last look.
-/

set_option autoImplicit false

namespace Kv260Sigv

open Accelerator SigvAxiRegs
open Program (Performs Performing)

/-! ### Clients -/

/-- A call of a client: of the daemon, or of the smoke tool. -/
inductive ClientCall where
  | daemon (host : Accelerator.Host) (request : HardwareBatchRequest)
  | smoke (host : Smoke.Host) (batch : Smoke.Batch)

namespace ClientCall

/-- How a call ends. -/
abbrev Result : ClientCall → Type
  | .daemon .. => Except ServiceError HardwareBatchResult
  | .smoke .. => Except Smoke.Error Smoke.Payload

/-- What a call does. -/
def program : (call : ClientCall) → Program Access Answer call.Result
  | .daemon host request => (verifyBatch host request).run
  | .smoke host batch => (Smoke.runBatch host batch).run

/-- The call returns a result. -/
def Succeeds : (call : ClientCall) → call.Result → Prop
  | .daemon .., result => ∃ answer, result = .ok answer
  | .smoke .., result => ∃ payload, result = .ok payload

theorem all_program (call : ClientCall) : call.program.All ClientAccess :=
  match call with
  | .daemon host request => (keeps_verifyBatch host request).run_all
  | .smoke host batch => (Smoke.keeps_runBatch host batch).run_all

/-- A call that succeeds has attended its batch. -/
theorem attends {h : History Access Answer} {c c' : ℕ} {call : ClientCall} {result : call.Result}
    (hm : Performs h call.program c c' result) (hok : call.Succeeds result) :
    ∃ g s, Attends h c c' g s := by
  cases call with
  | daemon host request =>
      obtain ⟨answer, rfl⟩ := hok
      exact attends_of_verifyBatch hm
  | smoke host batch =>
      obtain ⟨payload, rfl⟩ := hok
      exact Smoke.attends_of_runBatch hm

end ClientCall

/-- A call that has ended. -/
structure FinishedCall where
  call : ClientCall
  result : call.Result
  began : ℕ
  ended : ℕ

/-- What a client does from cycle `c` up to cycle `n`: call after call, and nothing else.
The last call may still be going on. -/
inductive ClientRun (h : History Access Answer) (n : ℕ) : ℕ → List FinishedCall → Prop
  | idle {c : ℕ} (quiet : h.Quiet c n) : ClientRun h n c []
  | busy {c began : ℕ} {call : ClientCall} (le : c ≤ began) (quiet : h.Quiet c began)
      (performing : Performing h n call.program began) : ClientRun h n c []
  | cons {c : ℕ} {call : FinishedCall} {calls : List FinishedCall} (le : c ≤ call.began)
      (quiet : h.Quiet c call.began)
      (performs : Performs h call.call.program call.began call.ended call.result)
      (within : call.ended ≤ n) (rest : ClientRun h n call.ended calls) :
      ClientRun h n c (call :: calls)

theorem ClientRun.all {h : History Access Answer} {n c : ℕ} {calls : List FinishedCall}
    (hrun : ClientRun h n c calls) : ∀ k, c ≤ k → k < n → ∀ o ∈ h.events k, ClientAccess o := by
  have hquiet : ∀ {c d k : ℕ}, h.Quiet c d → c ≤ k → k < d → ∀ o ∈ h.events k, ClientAccess o := by
    intro c d k hq hk hk' o ho
    rw [hq k hk hk'] at ho
    contradiction
  induction hrun with
  | idle quiet => exact fun k hk hk' => hquiet quiet hk hk'
  | @busy c began call le quiet performing =>
      intro k hk hk'
      rcases Nat.lt_or_ge k began with hearly | hlate
      · exact hquiet quiet hk hearly
      · exact performing.all call.all_program k hlate hk'
  | @cons c call calls le quiet performs within rest ih =>
      intro k hk hk'
      rcases Nat.lt_or_ge k call.began with hearly | hlate
      · exact hquiet quiet hk hearly
      rcases Nat.lt_or_ge k call.ended with hin | hafter
      · exact performs.all call.call.all_program k hlate hin
      · exact ih k hafter hk'

theorem ClientRun.performs {h : History Access Answer} {n c : ℕ} {calls : List FinishedCall}
    (hrun : ClientRun h n c calls) {call : FinishedCall} (hcall : call ∈ calls) :
    Performs h call.call.program call.began call.ended call.result ∧ call.ended ≤ n := by
  induction hrun with
  | idle => contradiction
  | busy => contradiction
  | cons le quiet performs within rest ih =>
      rcases List.mem_cons.mp hcall with rfl | hrest
      · exact ⟨performs, within⟩
      · exact ih hrest

namespace Device

section

variable {Client : Type} [DecidableEq Client] (engine : EngineVerdict) (inputs : ℕ → Inputs)
  (d₀ : Device) (owner : ℕ → Client) (x : Client) (call : FinishedCall)

end

section

variable {Client : Type} [DecidableEq Client] {engine : EngineVerdict} {inputs : ℕ → Inputs}
  {d₀ : Device} {owner : ℕ → Client} {n : ℕ} {calls : Client → List FinishedCall} {x : Client}
  {call : FinishedCall} {g s : ℕ}

end

section

variable {Client : Type} [DecidableEq Client] {engine : EngineVerdict} {inputs : ℕ → Inputs}
  {dout : BitVec 32} {messageBram : MessagePort.Memory} {jobBram : JobMemory}
  {owner : ℕ → Client} {n : ℕ} {calls : Client → List FinishedCall} {x : Client}
  {call : FinishedCall} {g s k : ℕ}

end

section

variable {h : History Access Answer} {n : ℕ} {result : HardwareBatchResult}

/-- The cycles of the two calls in such a run. -/
structure Overtakes (h : History Access Answer) (n : ℕ) (result : HardwareBatchResult)
    (first second : WaitMode × MappedRegion × BitVec 32) (snapshot : SnapshotStatus)
    (a b e f : ℕ) : Prop where
  prepares : Performs h (prepareBatch (plainHost 0) (zeroRequest 1)).run 0 a (.ok first)
  checks : Performs h (checkSnapshot (plainHost 0) first).run a b (.ok snapshot)
  preparesToo : Performs h (prepareBatch (plainHost 0) (zeroRequest 2)).run b e (.ok second)
  launches : Performs h (second.2.1.writeU32 regControl controlCmdResetThenStart).run e f (.ok ())
  reads : Performs h (readRest first.2.1 snapshot).run f n (.ok result)

variable {first second : WaitMode × MappedRegion × BitVec 32} {snapshot : SnapshotStatus}
  {a b e f : ℕ}

/-- The second client owns the cycles from `b` to `f`. -/
def between (b f k : ℕ) : Bool := b ≤ k && k < f

theorem between_eq_true {k : ℕ} (hb : b ≤ k) (hf : k < f) : between b f k = true := by
  simp [between, hb, hf]

theorem between_eq_false {k : ℕ} (h : k < b ∨ f ≤ k) : between b f k = false := by
  rcases h with h | h
  · simp [between, Nat.not_le_of_lt h]
  · simp [between, Nat.not_lt_of_le h]

/-- The first client performs its call. -/
theorem Overtakes.performs (ho : Overtakes h n result first second snapshot a b e f) :
    Performs (h.of (between b f) false) (verifyBatch (plainHost 0) (zeroRequest 1)).run 0 n
      (.ok result) := by
  have h₁ := ho.prepares.le
  have h₂ := ho.checks.le
  have h₃ := ho.preparesToo.le
  have h₄ := ho.launches.le
  rw [verifyBatch_eq]
  refine Performs.bind_ok
    (ho.prepares.of_owned fun k _ hk => between_eq_false (Or.inl (by omega))) ?_
  rw [finishBatch_eq]
  refine Performs.bind_ok
    (ho.checks.of_owned fun k _ hk => between_eq_false (Or.inl (by omega))) ?_
  refine Performs.later (d := f) ?_ (by omega)
    (ho.reads.of_owned fun k hk _ => between_eq_false (Or.inr hk))
  intro k hk hk'
  refine History.of_other ?_
  rw [between_eq_true hk hk']
  exact Bool.noConfusion

/-- The second client is in the middle of its call. -/
theorem Overtakes.performing (ho : Overtakes h n result first second snapshot a b e f) :
    Performing (h.of (between b f) true) n (verifyBatch (plainHost 0) (zeroRequest 2)).run b := by
  have h₃ := ho.preparesToo.le
  have h₄ := ho.launches.le
  have h₅ := ho.reads.le
  obtain ⟨waitMode, control, batchId⟩ := second
  obtain ⟨-, uio, hmode⟩ :=
    ho.preparesToo.returns (keeps_prepareBatch (plainHost 0) (zeroRequest 2)) _ rfl
  obtain rfl : WaitMode.poll = waitMode := Except.ok.inj hmode
  rw [verifyBatch_eq]
  refine Performs.performing
    (ho.preparesToo.of_owned fun k hk hk' => between_eq_true hk (by omega)) (by omega) ?_
  refine Performing.bind_left ?_ _
  refine Performs.performing
    (ho.launches.of_owned fun k hk hk' => between_eq_true (by omega) hk') (by omega) ?_
  refine .waiting fun k hk hk' => History.of_other ?_
  rw [between_eq_false (Or.inr hk)]
  exact Bool.noConfusion

/-- The first client launches, then the second, and then the first loads a mask word. -/
theorem Overtakes.accesses (ho : Overtakes h n result first second snapshot a b e f) :
    ∃ g j k offset, g < b ∧ b ≤ j ∧ j < f ∧ j + 1 < k ∧ f ≤ k ∧ k < n ∧ offset ∈ maskRegs ∧
      h.events g = [launchStore] ∧ h.events j = [launchStore] ∧
      h.events k = [.load .control offset] := by
  have hle := ho.preparesToo.le
  have hcontrol : IsControl first.2.1 := (ho.prepares.returns (keeps_prepareBatch _ _) _ rfl).1
  have hcontrol' : IsControl second.2.1 :=
    (ho.preparesToo.returns (keeps_prepareBatch _ _) _ rfl).1
  obtain ⟨word, d, hrun, hm⟩ := Performs.of_bind_ok ho.checks
  have hd := hm.le
  obtain ⟨g, -, -, hlaunch, -, s, hgs, hsd, -⟩ := of_runBatch hcontrol hrun
  obtain ⟨j, hej, hjf, -, hlaunch', -⟩ := of_writeControl hcontrol' ho.launches
  -- the load of the second mask word
  obtain ⟨words, m, hwords, hm⟩ := Performs.of_bind_ok ho.reads
  have hmn := hm.le
  obtain ⟨word₀, m₀, hword₀, hm⟩ := Performs.of_bind_ok hwords
  obtain ⟨rest, m', hrest, hm⟩ := Performs.of_bind_ok hm
  obtain ⟨word₁, m₁, hword₁, hm'⟩ := Performs.of_bind_ok hrest
  obtain ⟨k₀, hk₀, hk₀', -⟩ := of_readControl hcontrol hword₀
  obtain ⟨k₁, hk₁, hk₁', hload, -⟩ := of_readControl hcontrol hword₁
  have h₁ := hm.le
  have h₂ := hm'.le
  exact ⟨g, j, k₁, _, by omega, by omega, hjf, by omega, by omega, by omega,
    List.mem_map_of_mem (List.mem_range.mpr (by decide : 1 < 8)), hlaunch, hlaunch', hload⟩

end

end Device

end Kv260Sigv
