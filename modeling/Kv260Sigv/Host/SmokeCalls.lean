import Kv260Sigv.Daemon.Conduct
import Kv260Sigv.Host.Smoke

/-!
# How the smoke tool conducts a call

`_run_batch` is as disciplined as `verify_batch`: one launch, no look at the results
before a terminal status.  Its payload has the mask words first and the snapshot last.
-/

set_option autoImplicit false

namespace Kv260Sigv

open Program (Performs Keeps)

namespace Smoke

open Accelerator (WaitMode Mute Blind ClientAccess Attends launchStore regStatus maskRegs
  snapshotRegs setupRegs status_blind)

variable {h : History Access Answer} {c c' : ℕ} {S : Access → Prop}

/-! ### Single steps -/

theorem keeps_check {α : Type} (result : Except Error α) :
    Keeps S (fun a => result = .ok a) (Tool.check result) := fun _ ha => ha

theorem keeps_readU32 {offset : ℕ} (ho : S (.load .control offset)) :
    Keeps S (fun _ => True) (readU32 offset) := Keeps.access ho

theorem keeps_writeU32 {region : Region} {offset : ℕ} {value : BitVec 32}
    (ho : S (.store region offset value 0xF)) :
    Keeps S (fun _ => True) (writeU32 region offset value) := Keeps.access ho

theorem keeps_writeBytes {region : Region} (hS : ∀ offset value, S (.store region offset value 0xF))
    (data : Bytes) : Keeps S (fun _ => True) (writeBytes region data) := by
  have hwords : ∀ (words : List (BitVec 32)) (offset : ℕ),
      Keeps S (fun _ => True) (writeWords region offset words) := by
    intro words
    induction words with
    | nil => exact fun offset => Keeps.pure trivial
    | cons word words ih =>
        exact fun offset => Keeps.bind (keeps_writeU32 (hS _ _)) fun _ _ => ih _
  exact Keeps.ite (fun _ => Keeps.throw) fun _ => hwords _ _

theorem keeps_pollUntilComplete (ho : S (.load .control regStatus)) (overdue : Error)
    (polls : ℕ) : Keeps S (fun _ => True) (pollUntilComplete overdue polls) := by
  induction polls with
  | zero => exact Keeps.throw
  | succ polls ih =>
      exact Keeps.bind (keeps_readU32 ho) fun _ _ =>
        Keeps.ite (fun _ => Keeps.pure trivial) fun _ => ih

theorem of_readU32 {offset : ℕ} {word : BitVec 32}
    (hm : Performs h (readU32 offset).run c c' (.ok word)) :
    ∃ k, c ≤ k ∧ k < c' ∧ h.Quiet c k ∧ h.events k = [.load .control offset] ∧
      word = h.answer k (.load .control offset) ∧ h.Quiet (k + 1) c' := by
  obtain ⟨d, hfirst, hle, hquiet⟩ := Performs.of_lift_ok hm
  obtain ⟨k, hk, hlt, hbefore, hevent, hword, hafter⟩ := Performs.of_access hfirst
  exact ⟨k, hk, by omega, hbefore, hevent, hword, hafter.append hquiet⟩

theorem of_writeU32 {region : Region} {offset : ℕ} {value : BitVec 32} {u : Unit}
    (hm : Performs h (writeU32 region offset value).run c c' (.ok u)) :
    ∃ k, c ≤ k ∧ k < c' ∧ h.Quiet c k ∧ h.events k = [.store region offset value 0xF] ∧
      h.Quiet (k + 1) c' := by
  obtain ⟨d, hfirst, hle, hquiet⟩ := Performs.of_lift_ok hm
  obtain ⟨k, hk, hlt, hbefore, hevent, -, hafter⟩ := Performs.of_access hfirst
  exact ⟨k, hk, by omega, hbefore, hevent, hafter.append hquiet⟩

/-! ### The parts of a call -/

/-- The tool prepares its batch without a command and without a look at results. -/
theorem keeps_prepareBatch (host : Host) (batch : Batch) :
    Keeps (fun o => Mute o ∧ Blind o) (fun _ => True) (prepareBatch host batch) := by
  have hload : ∀ {offset : ℕ}, offset ∉ maskRegs ++ snapshotRegs →
      Keeps (fun o => Mute o ∧ Blind o) (fun _ => True) (readU32 offset) :=
    fun hoffset => keeps_readU32 ⟨trivial, hoffset⟩
  have hstore : ∀ {offset : ℕ} {value : BitVec 32}, offset ∈ setupRegs →
      Keeps (fun o => Mute o ∧ Blind o) (fun _ => True) (writeU32 .control offset value) :=
    fun hoffset => keeps_writeU32 ⟨⟨hoffset, rfl⟩, trivial⟩
  refine Keeps.bind (keeps_check _) fun _ _ => ?_
  refine Keeps.bind (keeps_check _) fun _ _ => ?_
  refine Keeps.bind (keeps_check _) fun _ _ => ?_
  refine Keeps.bind (keeps_check _) fun _ _ => ?_
  refine Keeps.bind (Q := fun _ => True) ?_ fun probe _ => ?_
  · refine Keeps.bind (Q := fun _ => True) ?_ fun payload _ => ?_
    · refine Keeps.bind (hload (by decide)) fun magic _ => ?_
      exact Keeps.bind (hload (by decide)) fun build _ => Keeps.pure trivial
    refine Keeps.ite (fun _ => Keeps.throw) fun _ => ?_
    exact Keeps.ite (fun _ => Keeps.throw) fun _ => Keeps.pure trivial
  refine Keeps.bind (keeps_writeBytes (fun _ _ => ⟨trivial, trivial⟩) _) fun _ _ => ?_
  refine Keeps.bind (keeps_writeBytes (fun _ _ => ⟨trivial, trivial⟩) _) fun _ _ => ?_
  refine Keeps.bind (hstore (by decide)) fun _ _ => ?_
  refine Keeps.bind (hstore (by decide)) fun _ _ => ?_
  refine Keeps.bind (hstore (by decide)) fun _ _ => ?_
  refine Keeps.bind (hstore (by decide)) fun _ _ => ?_
  refine Keeps.bind (hload (by decide)) fun batchId _ => ?_
  exact Keeps.bind (keeps_check _) fun waitMode _ => Keeps.pure trivial

/-- No command and no look at results in the cycles from `c` to `c'`. -/
def Reserved (h : History Access Answer) (c c' : ℕ) : Prop :=
  ∀ k, c ≤ k → k < c' → ∀ o ∈ h.events k, Mute o ∧ Blind o

theorem Reserved.append {d : ℕ} (h₁ : Reserved h c d) (h₂ : Reserved h d c') :
    Reserved h c c' := by
  intro k hk hk'
  rcases Nat.lt_or_ge k d with hd | hd
  · exact h₁ k hk hd
  · exact h₂ k hd hk'

theorem reserved_of_quiet (hquiet : h.Quiet c c') : Reserved h c c' := by
  intro k hk hk' o ho
  rw [hquiet k hk hk'] at ho
  contradiction

theorem reserved_of_keeps {α : Type} {Q : α → Prop} {m : Tool α} {x : Except Error α}
    (hkeeps : Keeps (fun o => Mute o ∧ Blind o) Q m) (hm : Performs h m.run c c' x) :
    Reserved h c c' := hm.all hkeeps.run_all

/-- The loop ends with a look that finds a terminal status. -/
theorem of_pollUntilComplete {overdue : Error} {polls : ℕ} {word : BitVec 32}
    (hm : Performs h (pollUntilComplete overdue polls).run c c' (.ok word)) :
    Reserved h c c' ∧ Accelerator.Completes h c c' word := by
  refine ⟨reserved_of_keeps (keeps_pollUntilComplete ⟨trivial, status_blind⟩ _ _) hm, ?_⟩
  induction polls generalizing c with
  | zero => exact (Performs.of_throw_ok hm).elim
  | succ polls ih =>
      obtain ⟨statusWord, d, hread, hm⟩ := Performs.of_bind_ok hm
      obtain ⟨s, hle, hlt, -, hevent, hword, -⟩ := of_readU32 hread
      dsimp only at hm
      split at hm
      · next hover =>
          obtain ⟨rfl, hle', -⟩ := Performs.of_pure_ok hm
          exact ⟨s, hle, by omega, hevent, hword, hover⟩
      · obtain ⟨s', hs, hrest⟩ := ih hm
        exact ⟨s', by omega, hrest⟩

/-- The launch and the wait: one launch, no look at results, and a terminal status. -/
theorem of_launchAndWait {host : Host} {waitMode : WaitMode} {word : BitVec 32}
    (hm : Performs h (launchAndWait host waitMode).run c c' (.ok word)) :
    ∃ g, c ≤ g ∧ Reserved h c g ∧ h.events g = [launchStore] ∧ Reserved h (g + 1) c' ∧
      Accelerator.Completes h (g + 1) c' word := by
  have hack : Keeps (fun o => Mute o ∧ Blind o) (fun _ => True)
      (writeU32 .control Accelerator.regIrqCtrlStatus Accelerator.irqCtrlEnableAndAck) :=
    keeps_writeU32 ⟨⟨by decide, rfl⟩, trivial⟩
  cases waitMode with
  | irq =>
      obtain ⟨_, d₁, hopen, hm⟩ := Performs.of_bind_ok hm
      obtain ⟨_, d₂, hfirst, hm⟩ := Performs.of_bind_ok hm
      obtain ⟨_, d₃, harm, hm⟩ := Performs.of_bind_ok hm
      obtain ⟨_, d₄, hgo, hm⟩ := Performs.of_bind_ok hm
      obtain ⟨_, d₅, hwait, hm⟩ := Performs.of_bind_ok hm
      obtain ⟨_, d₆, hagain, hlook⟩ := Performs.of_bind_ok hm
      obtain ⟨g, hle, hlt, hbefore, hevent, hafter⟩ := of_writeU32 hgo
      -- the look and the loop after it are a loop with one look more
      have hpoll : Performs h (pollUntilComplete _ (host.polls + 1)).run d₆ c' (.ok word) := hlook
      obtain ⟨hlooks, s, hs, hdone⟩ := of_pollUntilComplete hpoll
      have h₁ := hopen.le
      have h₂ := hfirst.le
      have h₃ := harm.le
      have h₅ := hwait.le
      have h₆ := hagain.le
      refine ⟨g, by omega, ?_, hevent, ?_, s, by omega, hdone⟩
      · exact (((reserved_of_keeps (keeps_check _) hopen).append
          (reserved_of_keeps hack hfirst)).append (reserved_of_keeps (keeps_check _) harm)).append
          (reserved_of_quiet hbefore)
      · exact (((reserved_of_quiet hafter).append (reserved_of_keeps (keeps_check _) hwait)).append
          (reserved_of_keeps hack hagain)).append hlooks
  | poll | auto =>
      obtain ⟨_, d, hgo, hpoll⟩ := Performs.of_bind_ok hm
      obtain ⟨g, hle, hlt, hbefore, hevent, hafter⟩ := of_writeU32 hgo
      obtain ⟨hlooks, s, hs, hdone⟩ := of_pollUntilComplete hpoll
      exact ⟨g, hle, reserved_of_quiet hbefore, hevent, (reserved_of_quiet hafter).append hlooks,
        s, by omega, hdone⟩

/-- A load. -/
def IsLoad : Access → Prop
  | .load .. => True
  | .store .. => False

theorem keeps_collectPayload (batch : Batch) (probe : Probe) (expectedBatchId : BitVec 32)
    (waitMode : WaitMode) (statusWord : BitVec 32) :
    Keeps IsLoad (fun _ => True)
      (collectPayload batch probe expectedBatchId waitMode statusWord) := by
  have hload : ∀ offset, Keeps IsLoad (fun _ => True) (readU32 offset) :=
    fun offset => keeps_readU32 trivial
  have hmask : ∀ (offsets : List ℕ) (index : ℕ) (value : BitVec 256),
      Keeps IsLoad (fun _ => True) (readMaskWords index offsets value) := by
    intro offsets
    induction offsets with
    | nil => exact fun _ _ => Keeps.pure trivial
    | cons offset offsets ih =>
        exact fun _ _ => Keeps.bind (hload _) fun _ _ => ih _ _
  refine Keeps.bind (Q := fun _ => True) ?_ fun payload _ => ?_
  · refine Keeps.bind (Q := fun _ => True) ?_ fun probe _ => ?_
    · refine Keeps.bind (hload _) fun magic _ => ?_
      exact Keeps.bind (hload _) fun build _ => Keeps.pure trivial
    refine Keeps.bind (hload _) fun statusWord _ => ?_
    refine Keeps.bind (hload _) fun verifyCfg _ => ?_
    refine Keeps.bind (hload _) fun dispatchWord _ => ?_
    refine Keeps.bind (hmask _ _ _) fun maskValue _ => ?_
    refine Keeps.bind (hload _) fun irqWord _ => ?_
    refine Keeps.bind (hload _) fun messageLength _ => ?_
    refine Keeps.bind (hload _) fun requestedJobCount _ => ?_
    refine Keeps.bind (hload _) fun jobTimeoutCycles _ => ?_
    refine Keeps.bind (hload _) fun errorCode _ => ?_
    refine Keeps.bind (hload _) fun batchId _ => ?_
    refine Keeps.bind (hload _) fun jobsStarted _ => ?_
    refine Keeps.bind (hload _) fun jobsCompleted _ => ?_
    refine Keeps.bind (hload _) fun jobsDropped _ => ?_
    refine Keeps.bind (hload _) fun activeCycles _ => ?_
    refine Keeps.bind (hload _) fun lastJobCycles _ => ?_
    refine Keeps.bind (hload _) fun maxJobCycles _ => ?_
    refine Keeps.bind (hload _) fun lastBatchCycles _ => ?_
    refine Keeps.bind (Q := fun _ => True) ?_ fun snapshot _ => Keeps.pure trivial
    refine Keeps.bind (hload _) fun errStatus _ => ?_
    refine Keeps.bind (hload _) fun batchId _ => ?_
    refine Keeps.bind (hload _) fun accepted _ => ?_
    refine Keeps.bind (hload _) fun completed _ => ?_
    exact Keeps.bind (hload _) fun dropped _ => Keeps.pure trivial
  exact Keeps.ite (fun _ => Keeps.throw) fun _ => Keeps.pure trivial

theorem IsLoad.mute : ∀ {o : Access}, IsLoad o → Mute o
  | .load .., _ => trivial

/-! ### A call -/

theorem ne_launchStore_of_mute {o : Access} (ho : Mute o) : o ≠ launchStore := by
  rintro rfl
  exact Accelerator.not_mute_launchStore ho

/-- However it ends, a call makes only the accesses of a client. -/
theorem keeps_runBatch (host : Host) (batch : Batch) :
    Keeps ClientAccess (fun _ => True) (runBatch host batch) := by
  have hmute : ∀ {α : Type} {Q : α → Prop} {m : Tool α},
      Keeps (fun o => Mute o ∧ Blind o) Q m → Keeps ClientAccess (fun _ => True) m :=
    fun hm => hm.mono (fun _ ho => Or.inr ho.1) fun _ _ => trivial
  have hwrite : ∀ {offset : ℕ} {value : BitVec 32},
      ClientAccess (.store .control offset value 0xF) →
      Keeps ClientAccess (fun _ => True) (writeU32 .control offset value) := keeps_writeU32
  have hpoll : ∀ (overdue : Error) (polls : ℕ),
      Keeps ClientAccess (fun _ => True) (pollUntilComplete overdue polls) :=
    keeps_pollUntilComplete (Or.inr trivial)
  refine Keeps.bind (hmute (keeps_prepareBatch host batch)) fun prepared _ => ?_
  obtain ⟨probe, expectedBatchId, waitMode⟩ := prepared
  refine Keeps.bind (Q := fun _ => True) ?_ fun statusWord _ =>
    (keeps_collectPayload _ _ _ _ _).mono (fun _ ho => Or.inr ho.mute) fun _ h => h
  cases waitMode with
  | irq =>
      refine Keeps.bind (keeps_check _) fun _ _ => ?_
      refine Keeps.bind (hwrite (Or.inr ⟨by decide, rfl⟩)) fun _ _ => ?_
      refine Keeps.bind (keeps_check _) fun _ _ => ?_
      refine Keeps.bind (hwrite (Or.inl rfl)) fun _ _ => ?_
      refine Keeps.bind (keeps_check _) fun _ _ => ?_
      refine Keeps.bind (hwrite (Or.inr ⟨by decide, rfl⟩)) fun _ _ => ?_
      exact hpoll _ (host.polls + 1)
  | poll | auto => exact Keeps.bind (hwrite (Or.inl rfl)) fun _ _ => hpoll _ _

/-- A call that returns has attended its batch. -/
theorem attends_of_runBatch {host : Host} {batch : Batch} {payload : Payload}
    (hm : Performs h (runBatch host batch).run c c' (.ok payload)) :
    ∃ g s, Attends h c c' g s := by
  obtain ⟨⟨probe, expectedBatchId, waitMode⟩, d, hprepare, hm⟩ := Performs.of_bind_ok hm
  obtain ⟨word, e, hrun, hcollect⟩ := Performs.of_bind_ok hm
  have hbefore := reserved_of_keeps (keeps_prepareBatch host batch) hprepare
  have hafter := hcollect.all (keeps_collectPayload _ _ _ _ _).run_all
  obtain ⟨g, hle, hcalm, hlaunch, hstill, s, hgs, hse, hstatus, hword, hover⟩ :=
    of_launchAndWait hrun
  have h₁ := hprepare.le
  have h₂ := hcollect.le
  have hfirst : Reserved h c g := hbefore.append hcalm
  refine ⟨g, s, ⟨by omega, by omega, by omega⟩, hlaunch, ?_, ⟨hstatus, hword ▸ hover⟩, ?_⟩
  · intro k hk hk' hmem
    by_contra hne
    rcases Nat.lt_or_gt_of_ne hne with hg | hg
    · exact ne_launchStore_of_mute (hfirst k hk hg _ hmem).1 rfl
    rcases Nat.lt_or_ge k e with he | he
    · exact ne_launchStore_of_mute (hstill k hg he _ hmem).1 rfl
    · exact ne_launchStore_of_mute (hafter k he hk' _ hmem).mute rfl
  · intro k offset hk hk' hmem hoffset
    by_contra hearly
    rcases Nat.lt_trichotomy k g with hg | rfl | hg
    · exact (hfirst k hk hg _ hmem).2 hoffset
    · rw [hlaunch, List.mem_singleton] at hmem
      cases hmem
    · exact (hstill k hg (by omega) _ hmem).2 hoffset

end Smoke

end Kv260Sigv
