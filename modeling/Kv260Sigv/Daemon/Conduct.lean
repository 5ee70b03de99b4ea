import Kv260Sigv.Daemon.Calls
import Kv260Sigv.Library.Sharing

/-!
# How a client conducts a call

Among several clients of one device each can rely only on what the others never do: the
one command a call of `verify_batch` gives is the launch, and it gives it once.  A call
that succeeds `Attends` its batch: it launches, sees a terminal status, and looks at the
result registers only after that.
-/

set_option autoImplicit false

namespace Kv260Sigv

open Program (Performs Keeps)

namespace Accelerator

/-- The registers of the result mask. -/
def maskRegs : List ℕ := (List.range 8).map fun index => regResultMaskBase + index * 4

/-- The registers of the completion snapshot. -/
def snapshotRegs : List ℕ :=
  [regSnapshotErrStatus, regSnapshotBatchId, regSnapshotAccepted, regSnapshotCompleted,
    regSnapshotDropped]

/-- The control registers a call stores to, but for the command register. -/
def setupRegs : List ℕ :=
  [regMessageLen, regJobCount, regVerifyCfg, regJobTimeoutCycles, regIrqCtrlStatus]

/-- The store that launches a batch. -/
def launchStore : Access := storeTo regControl controlCmdResetThenStart

/-- No command. -/
def Mute : Access → Prop
  | .load .. => True
  | .store .control offset _ strobe => offset ∈ setupRegs ∧ strobe = 0xF
  | .store .message .. => True
  | .store .job .. => True

/-- No look at the results. -/
def Blind : Access → Prop
  | .load _ offset => offset ∉ maskRegs ++ snapshotRegs
  | .store .. => True

/-- An access that a client makes. -/
def ClientAccess (o : Access) : Prop := o = launchStore ∨ Mute o

/-- The call has launched a batch in cycle `g`, has seen it over in cycle `s`, and has not
looked at results before. -/
structure Attends (h : History Access Answer) (c c' g s : ℕ) : Prop where
  order : c ≤ g ∧ g < s ∧ s < c'
  launch : h.events g = [launchStore]
  once : ∀ k, c ≤ k → k < c' → launchStore ∈ h.events k → k = g
  status : h.events s = [.load .control regStatus] ∧
    ((decodeStatus (h.answer s (.load .control regStatus))).done ||
      (decodeStatus (h.answer s (.load .control regStatus))).error) = true
  results : ∀ k offset, c ≤ k → k < c' → .load .control offset ∈ h.events k →
    offset ∈ maskRegs ++ snapshotRegs → s < k

theorem not_mute_launchStore : ¬ Mute launchStore := by
  rintro ⟨hmem, -⟩
  revert hmem
  decide

/-- A gentle access is no launch. -/
theorem Gentle.ne_launchStore : ∀ {o : Access}, Gentle o → o ≠ launchStore
  | .load .., _ => Access.noConfusion
  | .store .control _ _ _, h => by
      intro heq
      have hoffset : regControl = regIrqCtrlStatus := by
        rw [launchStore, storeTo, Access.store.injEq] at heq
        exact heq.2.1.symm.trans h
      exact absurd hoffset (by decide)

/-! ### A call in parts -/

/-- A call up to its look at the batch id. -/
def prepareBatch (host : Host) (request : HardwareBatchRequest) :
    Driver (WaitMode × MappedRegion × BitVec 32) := do
  Driver.check (checkRequest request)
  let controlSpec ← Driver.check (host.resolveRegion .control)
  let messageSpec ← Driver.check (host.resolveRegion .message)
  let jobSpec ← Driver.check (host.resolveRegion .job)
  let waitMode ← Driver.check (waitModeForLayout host.waitMode controlSpec.usesUio)
  if (jobsBytes request.jobs).length > jobSize then
    throw ⟨.limit, "jobs_too_large",
      s!"jobs payload is too large for the mapped BRAM window ({(jobsBytes request.jobs).length} > {jobSize})"⟩
  let control ← MappedRegion.open host .control controlSpec controlSize
  let identity ← probeHardwareIdentity control
  Driver.check (requireFullHardware identity)
  let message ← MappedRegion.open host .message messageSpec messageSize
  let job ← MappedRegion.open host .job jobSpec jobSize
  storeRequest control message job request
  let batchId ← control.readU32 regBatchId
  return (waitMode, control, batchId)

/-- The rest of the call. -/
def finishBatch (host : Host) (prepared : WaitMode × MappedRegion × BitVec 32) :
    Driver HardwareBatchResult := do
  let statusWord ← runBatch host prepared.1 prepared.2.1
  let status := decodeStatus statusWord
  if !(status.done || status.error) then
    throw ⟨.timeout, "completion_not_visible",
      "accelerator did not expose a terminal completion state before timeout"⟩
  collectResult prepared.2.1 (prepared.2.2 + 1)

/-- The rest of the call up to the check of the batch id. -/
def checkSnapshot (host : Host) (prepared : WaitMode × MappedRegion × BitVec 32) :
    Driver SnapshotStatus := do
  let statusWord ← runBatch host prepared.1 prepared.2.1
  let status := decodeStatus statusWord
  if !(status.done || status.error) then
    throw ⟨.timeout, "completion_not_visible",
      "accelerator did not expose a terminal completion state before timeout"⟩
  let snapshot ← readSnapshot prepared.2.1
  if snapshot.batchId ≠ prepared.2.2 + 1 then
    throw ⟨.unavailable, "snapshot_batch_id_mismatch",
      s!"snapshot batch_id mismatch: expected {(prepared.2.2 + 1).toNat}, got {snapshot.batchId.toNat}"⟩
  return snapshot

/-- What the call reads after that. -/
def readRest (control : MappedRegion) (snapshot : SnapshotStatus) : Driver HardwareBatchResult := do
  let maskWords ← readResultMask control
  let lastJobCycles ← control.readU32 regLastJobCycles
  let lastBatchCycles ← control.readU32 regLastBatchCycles
  return {
    batchId := snapshot.batchId
    acceptedJobCount := snapshot.acceptedJobCount
    jobsCompleted := snapshot.jobsCompleted
    jobsDropped := snapshot.jobsDropped
    error := snapshot.error
    resultValid := snapshot.resultValid
    errorCode := snapshot.errorCode
    resultMaskHex := resultMaskHex maskWords
    resultBits := maskBits maskWords snapshot.acceptedJobCount.toNat
    lastJobCycles := lastJobCycles
    lastBatchCycles := lastBatchCycles }

theorem ite_bind {α β : Type} {p : Prop} [Decidable p] (m m' : Driver α) (f : α → Driver β) :
    ((if p then m else m') >>= f) = if p then m >>= f else m' >>= f := by
  split <;> rfl

theorem throw_bind {α β : Type} (e : ServiceError) (f : α → Driver β) :
    ((throw e : Driver α) >>= f) = throw e := rfl

theorem verifyBatch_eq (host : Host) (request : HardwareBatchRequest) :
    verifyBatch host request = prepareBatch host request >>= finishBatch host := by
  unfold verifyBatch prepareBatch finishBatch
  simp only [bind_assoc, ite_bind, throw_bind, pure_bind]

theorem finishBatch_eq (host : Host) (prepared : WaitMode × MappedRegion × BitVec 32) :
    finishBatch host prepared = checkSnapshot host prepared >>= readRest prepared.2.1 := by
  unfold finishBatch checkSnapshot collectResult readRest
  simp only [bind_assoc, ite_bind, throw_bind, pure_bind]

/-! ### What the parts do -/

section keeps

variable {S : Access → Prop} {α : Type}

theorem keeps_check (result : Except ServiceError α) :
    Keeps S (fun a => result = .ok a) (Driver.check result) := fun _ ha => ha

theorem keeps_access {o : Access} (ho : S o) : Keeps S (fun _ => True) (Driver.access o) :=
  Keeps.access ho

theorem keeps_readU32 {r : MappedRegion} {offset : ℕ} (ho : S (.load r.region offset)) :
    Keeps S (fun _ => True) (r.readU32 offset) :=
  Keeps.bind (keeps_check _) fun _ _ => keeps_access ho

theorem keeps_writeU32 {r : MappedRegion} {offset : ℕ} {value : BitVec 32}
    (ho : S (.store r.region offset value 0xF)) :
    Keeps S (fun _ => True) (r.writeU32 offset value) :=
  Keeps.bind (keeps_check _) fun _ _ => keeps_access ho

theorem keeps_open (host : Host) (region : Region) (spec : RegionSpec) (size : ℕ) :
    Keeps S (fun r : MappedRegion => r.region = region) (MappedRegion.open host region spec size) :=
  Keeps.bind (keeps_check _) fun _ _ => Keeps.pure rfl

theorem keeps_lookOr {control : MappedRegion} (ho : S (.load control.region regStatus))
    {later : Driver (BitVec 32)} (hlater : Keeps S (fun _ => True) later) :
    Keeps S (fun _ => True) (lookOr control later) :=
  Keeps.bind (keeps_readU32 ho) fun _ _ =>
    Keeps.ite (fun _ => Keeps.pure trivial) fun _ => hlater

theorem keeps_pollUntilComplete {control : MappedRegion} (ho : S (.load control.region regStatus))
    (polls : ℕ) : Keeps S (fun _ => True) (pollUntilComplete control polls) := by
  induction polls with
  | zero => exact keeps_lookOr ho Keeps.throw
  | succ polls ih => exact keeps_lookOr ho ih

end keeps

/-- A call prepares its batch without a command and without a look at results. -/
theorem keeps_prepareBatch (host : Host) (request : HardwareBatchRequest) :
    Keeps (fun o => Mute o ∧ Blind o) (fun x : WaitMode × MappedRegion × BitVec 32 =>
      IsControl x.2.1 ∧ ∃ controlUsesUio,
        waitModeForLayout host.waitMode controlUsesUio = .ok x.1) (prepareBatch host request) := by
  have hload : ∀ {r : MappedRegion} {offset : ℕ}, offset ∉ maskRegs ++ snapshotRegs →
      Keeps (fun o => Mute o ∧ Blind o) (fun _ => True) (r.readU32 offset) :=
    fun hoffset => keeps_readU32 ⟨trivial, hoffset⟩
  refine Keeps.bind (keeps_check _) fun _ _ => ?_
  refine Keeps.bind (keeps_check _) fun controlSpec _ => ?_
  refine Keeps.bind (keeps_check _) fun messageSpec _ => ?_
  refine Keeps.bind (keeps_check _) fun jobSpec _ => ?_
  refine Keeps.bind (keeps_check _) fun waitMode hmode => ?_
  refine Keeps.ite (fun _ => Keeps.throw) fun _ => ?_
  refine Keeps.bind (keeps_open _ _ _ _) fun control hcontrol => ?_
  have hstore : ∀ {offset : ℕ} {value : BitVec 32}, offset ∈ setupRegs →
      Keeps (fun o => Mute o ∧ Blind o) (fun _ => True) (control.writeU32 offset value) := by
    intro offset value hoffset
    refine keeps_writeU32 ?_
    rw [hcontrol]
    exact ⟨⟨hoffset, rfl⟩, trivial⟩
  refine Keeps.bind (Q := fun _ => True) ?_ fun identity _ => ?_
  · refine Keeps.bind (hload (by decide)) fun magic _ => Keeps.ite (fun _ => Keeps.throw) fun _ => ?_
    exact Keeps.bind (hload (by decide)) fun build _ => Keeps.pure trivial
  refine Keeps.bind (keeps_check _) fun _ _ => ?_
  refine Keeps.bind (keeps_open _ _ _ _) fun message hmessage => ?_
  refine Keeps.bind (keeps_open _ _ _ _) fun job hjob => ?_
  refine Keeps.bind (Q := fun _ => True) ?_ fun _ _ => ?_
  · refine Keeps.bind (Program.keeps_of_all (all_writeBytes (fun offset value => ?_) _)) fun _ _ => ?_
    · rw [hmessage]
      exact ⟨trivial, trivial⟩
    refine Keeps.bind (Program.keeps_of_all (all_writeBytes (fun offset value => ?_) _)) fun _ _ => ?_
    · rw [hjob]
      exact ⟨trivial, trivial⟩
    refine Keeps.bind (hstore (by decide)) fun _ _ => ?_
    refine Keeps.bind (hstore (by decide)) fun _ _ => ?_
    exact Keeps.bind (hstore (by decide)) fun _ _ => hstore (by decide)
  exact Keeps.bind (hload (by decide)) fun batchId _ => Keeps.pure ⟨hcontrol, _, hmode⟩

theorem status_blind : regStatus ∉ maskRegs ++ snapshotRegs := by decide

/-- It launches and waits without a look at results. -/
theorem keeps_runBatch {host : Host} {waitMode : WaitMode} {control : MappedRegion}
    (hr : IsControl control) :
    Keeps (fun o => ClientAccess o ∧ Blind o) (fun _ => True) (runBatch host waitMode control) := by
  have hpoll : Keeps (fun o => ClientAccess o ∧ Blind o) (fun _ => True)
      (pollUntilComplete control host.polls) :=
    keeps_pollUntilComplete ⟨Or.inr trivial, status_blind⟩ _
  have hstore : ∀ {offset : ℕ} {value : BitVec 32}, ClientAccess (storeTo offset value) →
      Keeps (fun o => ClientAccess o ∧ Blind o) (fun _ => True) (control.writeU32 offset value) := by
    intro offset value hclient
    refine keeps_writeU32 ?_
    rw [hr]
    exact ⟨hclient, trivial⟩
  have hlaunch : Keeps (fun o => ClientAccess o ∧ Blind o) (fun _ => True)
      (control.writeU32 regControl controlCmdResetThenStart) := hstore (Or.inl rfl)
  have hack : Keeps (fun o => ClientAccess o ∧ Blind o) (fun _ => True)
      (control.writeU32 regIrqCtrlStatus irqCtrlEnableAndAck) :=
    hstore (Or.inr ⟨by decide, rfl⟩)
  cases waitMode with
  | irq =>
      refine Keeps.bind (keeps_check _) fun _ _ => ?_
      refine Keeps.bind hack fun _ _ => ?_
      refine Keeps.bind (keeps_check _) fun _ _ => ?_
      refine Keeps.bind hlaunch fun _ _ => ?_
      refine Keeps.bind (keeps_check _) fun _ _ => ?_
      refine Keeps.bind hack fun _ _ => ?_
      exact keeps_lookOr ⟨Or.inr trivial, status_blind⟩ hpoll
  | poll | auto => exact Keeps.bind hlaunch fun _ _ => hpoll

/-- What it collects it loads. -/
theorem keeps_collectResult {S : Access → Prop} {control : MappedRegion}
    (hS : ∀ offset, S (.load control.region offset)) (expectedBatchId : BitVec 32) :
    Keeps S (fun _ => True) (collectResult control expectedBatchId) := by
  have hload : ∀ offset, Keeps S (fun _ => True) (control.readU32 offset) :=
    fun offset => keeps_readU32 (hS offset)
  have hwords : ∀ offsets, Keeps S (fun _ => True) (readWords control offsets) := by
    intro offsets
    induction offsets with
    | nil => exact Keeps.pure trivial
    | cons offset offsets ih =>
        refine Keeps.bind (hload _) fun word _ => ?_
        exact Keeps.bind ih fun words _ => Keeps.pure trivial
  refine Keeps.bind (Q := fun _ => True) ?_ fun snapshot _ => ?_
  · refine Keeps.bind (hload _) fun errStatus _ => ?_
    refine Keeps.bind (hload _) fun batchId _ => ?_
    refine Keeps.bind (hload _) fun accepted _ => ?_
    refine Keeps.bind (hload _) fun completed _ => ?_
    exact Keeps.bind (hload _) fun dropped _ => Keeps.pure trivial
  refine Keeps.ite (fun _ => Keeps.throw) fun _ => ?_
  refine Keeps.bind (hwords _) fun words _ => ?_
  refine Keeps.bind (hload _) fun lastJobCycles _ => ?_
  exact Keeps.bind (hload _) fun lastBatchCycles _ => Keeps.pure trivial

/-- However it ends, a call makes only the accesses of a client. -/
theorem keeps_verifyBatch (host : Host) (request : HardwareBatchRequest) :
    Keeps ClientAccess (fun _ => True) (verifyBatch host request) := by
  rw [verifyBatch_eq]
  refine Keeps.bind ((keeps_prepareBatch host request).mono (fun o ho => Or.inr ho.1)
    fun _ hx => hx) fun prepared hprepared => ?_
  have hcontrol : IsControl prepared.2.1 := hprepared.1
  refine Keeps.bind ((keeps_runBatch hcontrol).mono (fun o ho => ho.1) fun _ hx => hx)
    fun statusWord _ => ?_
  refine Keeps.ite (fun _ => Keeps.throw) fun _ => ?_
  exact keeps_collectResult (fun _ => Or.inr trivial) _

/-- A call that returns `Ok` has attended its batch. -/
theorem attends_of_verifyBatch {h : History Access Answer} {c c' : ℕ} {host : Host}
    {request : HardwareBatchRequest} {result : HardwareBatchResult}
    (hm : Performs h (verifyBatch host request).run c c' (.ok result)) :
    ∃ g s, Attends h c c' g s := by
  rw [verifyBatch_eq] at hm
  obtain ⟨prepared, d, hprepare, hm⟩ := Performs.of_bind_ok hm
  obtain ⟨word, e, hrun, hm⟩ := Performs.of_bind_ok hm
  dsimp only at hm
  split at hm
  · exact (Performs.of_throw_ok hm).elim
  have hkeeps := keeps_prepareBatch host request
  have hcontrol : IsControl prepared.2.1 := (hprepare.returns hkeeps _ rfl).1
  have hbefore := hprepare.all hkeeps.run_all
  have hblind := hrun.all (keeps_runBatch hcontrol).run_all
  have hafter := hm.all (mild_collectResult prepared.2.1 (prepared.2.2 + 1))
  obtain ⟨g, hle, hcalm, hlaunch, hstill, s, hgs, hse, hstatus, hword, hover⟩ :=
    of_runBatch hcontrol hrun
  have h₁ := hprepare.le
  have h₂ := hm.le
  refine ⟨g, s, ⟨by omega, by omega, by omega⟩, hlaunch, ?_, ⟨hstatus, hword ▸ hover⟩, ?_⟩
  · intro k hk hk' hmem
    by_contra hne
    rcases Nat.lt_or_ge k d with hd | hd
    · exact not_mute_launchStore (hbefore k hk hd _ hmem).1
    rcases Nat.lt_or_gt_of_ne hne with hg | hg
    · exact (hcalm k hd hg _ hmem).ne_launchStore rfl
    rcases Nat.lt_or_ge k e with he | he
    · exact (hstill k hg he _ hmem).ne_launchStore rfl
    · exact (hafter k he hk' _ hmem).ne_launchStore rfl
  · intro k offset hk hk' hmem hoffset
    by_contra hearly
    rcases Nat.lt_or_ge k d with hd | hd
    · exact (hbefore k hk hd _ hmem).2 hoffset
    · exact (hblind k hd (by omega) _ hmem).2 hoffset

end Accelerator

end Kv260Sigv
