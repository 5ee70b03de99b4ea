import Kv260Sigv.Daemon.Response
import Kv260Sigv.System.Contents
import Kv260Sigv.System.Master
import Kv260Sigv.System.Verdicts

/-!
# From a request to its answer

On a device that is not busy, a call that returns `Ok` has run its own jobs against its
own message: every stage between the request and the answer delivers what the stage
before it was given.
-/

set_option autoImplicit false

namespace Kv260Sigv

open Accelerator SigvAxiRegs
open SigvKv260Core (status dispatchJobCount dispatchDroppedCount)

/-! ### The numbers of a request -/

section request

variable {request : HardwareBatchRequest}

/-- A request that passes the daemon's checks passes those of the core. -/
theorem launchable_of_checkRequest (h : checkRequest request = .ok ()) :
    request.config.Launchable := by
  obtain ⟨⟨-, hmessage⟩, hpos, hcount⟩ := of_checkRequest h
  have hsize : messageSize = 4096 := rfl
  have hmax : maxJobCount = 255 := rfl
  refine ⟨?_, ?_, ?_⟩
  · show (BitVec.ofNat 16 request.message.length).toNat ≤ 4096
    rw [BitVec.toNat_ofNat]
    omega
  · intro hzero
    have hzero' := congrArg BitVec.toNat hzero
    rw [HardwareBatchRequest.config, BitVec.toNat_ofNat] at hzero'
    simp at hzero'
    omega
  · show (BitVec.ofNat 32 request.jobs.length).toNat ≤ 255
    rw [BitVec.toNat_ofNat]
    omega

theorem requestedJobCountU8_config (h : checkRequest request = .ok ()) :
    (SigvKv260Core.requestedJobCountU8 request.config).toNat = request.jobs.length := by
  obtain ⟨-, -, hcount⟩ := of_checkRequest h
  have hmax : maxJobCount = 255 := rfl
  rw [SigvKv260Core.requestedJobCountU8, HardwareBatchRequest.config, BitVec.toNat_setWidth,
    BitVec.toNat_ofNat]
  omega

/-- How many of `n` jobs a dispatch limit lets through; 0 is no limit. -/
def acceptedJobs (n : ℕ) (dispatchLimit : BitVec 8) : ℕ :=
  min n (if dispatchLimit = 0 then n else dispatchLimit.toNat)

theorem dispatchJobCount_config (h : checkRequest request = .ok ()) :
    (dispatchJobCount request.config).toNat =
      acceptedJobs request.jobs.length request.dispatchLimit := by
  have hrequested := requestedJobCountU8_config h
  have hlt := (SigvKv260Core.requestedJobCountU8 request.config).isLt
  have hlimit : (SigvKv260Core.dispatchLimitEffective request.config).toNat =
      if request.dispatchLimit = 0 then 255 else request.dispatchLimit.toNat := by
    show (if request.dispatchLimit = 0 then _ else request.dispatchLimit).toNat = _
    split <;> rfl
  have hgt : SigvKv260Core.requestedJobCountU8 request.config >
      SigvKv260Core.dispatchLimitEffective request.config ↔
      (if request.dispatchLimit = 0 then 255 else request.dispatchLimit.toNat) <
        request.jobs.length := by
    rw [← hrequested, ← hlimit]
    exact Iff.rfl
  rw [dispatchJobCount, acceptedJobs]
  split
  · next hover =>
      rw [hgt] at hover
      rw [hlimit]
      split_ifs at hover ⊢ <;> omega
  · next hunder =>
      rw [hgt] at hunder
      rw [hrequested]
      split_ifs at hunder ⊢ <;> omega

/-- No job is dropped exactly if all are accepted. -/
theorem dispatchDroppedCount_config (h : checkRequest request = .ok ()) :
    (dispatchDroppedCount request.config).setWidth 32 = 0 ↔
      (dispatchJobCount request.config).toNat = request.jobs.length := by
  have hrequested := requestedJobCountU8_config h
  have hcount := dispatchJobCount_config h
  have hle : acceptedJobs request.jobs.length request.dispatchLimit ≤ request.jobs.length :=
    Nat.min_le_left _ _
  have hlt := (SigvKv260Core.requestedJobCountU8 request.config).isLt
  rw [← BitVec.toNat_inj, BitVec.toNat_setWidth, dispatchDroppedCount, BitVec.toNat_sub, hrequested,
    hcount]
  show _ = 0 ↔ _
  omega

end request

namespace Device

variable {engine : EngineVerdict} {inputs : ℕ → Inputs} {d₀ : Device} {c c' : ℕ} {t : Timeline}
  {request : HardwareBatchRequest} {result : HardwareBatchResult}

/-- The core is not busy, and no start is on its way to it. -/
structure Quiescent (d : Device) : Prop where
  busy : d.bench.core.busy = false
  start : d.regs.startPulse = false

/-! ### The core waits for its launch -/

/-- A core that is not busy is idle. -/
theorem Quiescent.idle {dout : BitVec 32} {messageBram : MessagePort.Memory} {jobBram : JobMemory}
    {k : ℕ} (h : Quiescent (run engine inputs (reset dout messageBram jobBram) k)) :
    (run engine inputs (reset dout messageBram jobBram) k).bench.core.state = .idle := by
  have hreachable : Bench.Reachable false
      (run engine inputs (reset dout messageBram jobBram) k).bench := ⟨dout, _, k, bench_run k⟩
  rcases hreachable.settled with hparked | ⟨sb, n, ha⟩
  · exact hparked.idle
  · have hbusy := ha.accounts.underWay.1
    rw [h.busy] at hbusy
    contradiction

/-- Until its store to `REG_CONTROL` a call starts nothing. -/
theorem start_of_succeeds (ht : t.Succeeds (history engine inputs d₀) c c' request result)
    (hquiescent : Quiescent (run engine inputs d₀ c)) {k : ℕ} (hk : c ≤ k) (hk' : k ≤ t.control) :
    (run engine inputs d₀ k).regs.startPulse = false := by
  obtain ⟨h₁, h₂, h₃, h₄, h₅, h₆, h₇, h₈, h₉⟩ := ht.order
  rcases Nat.eq_or_lt_of_le hk with rfl | hlt
  · exact hquiescent.start
  obtain ⟨j, rfl⟩ : ∃ j, k = j + 1 := ⟨k - 1, by omega⟩
  cases ht.event (k := j) (by omega) (by omega) with
  | storing _ harmless => exact (step_harmless engine harmless).2.1
  | gentle gentle => exact (step_harmless engine fun o ho => (gentle o ho).harmless).2.1
  | config offset value event config =>
      refine (step_store engine event).2.1.trans (commandBit_other ?_ 0)
      show alignedAddr (BitVec.ofNat 8 offset) ≠ addrControl
      simp only [List.mem_cons, List.not_mem_nil, or_false] at config
      rcases config with rfl | rfl | rfl | rfl <;> decide
  | control _ launch => omega

/-- So the core stays idle up to the launch. -/
theorem idle_of_succeeds (ht : t.Succeeds (history engine inputs d₀) c c' request result)
    (hquiescent : Quiescent (run engine inputs d₀ c))
    (hidle : (run engine inputs d₀ c).bench.core.state = .idle) {k : ℕ} (hk : c ≤ k)
    (hk' : k ≤ t.control + 1) :
    (run engine inputs d₀ k).bench.core.state = .idle ∧
      (run engine inputs d₀ k).bench.core.busy = false := by
  induction k, hk using Nat.le_induction with
  | base => exact ⟨hidle, hquiescent.busy⟩
  | succ k hk ih =>
      obtain ⟨hidle', hbusy⟩ := ih (by omega)
      exact SigvKv260Core.step_unstarted false hidle' hbusy
        (start_of_succeeds ht hquiescent hk (by omega))

/-- So the configuration becomes that of the request. -/
theorem config_of_quiescent (ht : t.Succeeds (history engine inputs d₀) c c' request result)
    (hquiescent : Quiescent (run engine inputs d₀ c))
    (hidle : (run engine inputs d₀ c).bench.core.state = .idle) {k : ℕ} (hk : t.jobTimeout < k)
    (hk' : k ≤ c') : (run engine inputs d₀ k).regs.config = request.config := by
  obtain ⟨e, hstores, -⟩ := ht.stores
  obtain ⟨h₁, h₂, h₃, h₄, h₅, h₆, h₇, h₈, h₉⟩ := ht.order
  obtain ⟨-, -, -, -, -, hmerged⟩ := config_of_stores hstores h₁
  have hbusy : ∀ j, c ≤ j → j ≤ t.control + 1 →
      (run engine inputs d₀ j).bench.core.busy = false :=
    fun j hj hj' => (idle_of_succeeds ht hquiescent hidle hj hj').2
  rw [config_of_succeeds ht hk hk', hmerged, merged_eq_iff]
  exact ⟨Or.inl (hbusy _ (by omega) (by omega)), Or.inl (hbusy _ (by omega) (by omega)),
    Or.inl (hbusy _ (by omega) (by omega)), Or.inl (hbusy _ (by omega) (by omega))⟩

/-! ### The batch -/

/-- The verdict on a key that a request asks for. -/
def requestVerdict (engine : EngineVerdict) (request : HardwareBatchRequest) (key : JobKey) : Bool :=
  engine key (request.message.map UInt8.toBitVec) (request.verifyMode.registerBits.setWidth 2)

/-- The batch of a call reports the verdicts on the call's jobs. -/
theorem reports_of_succeeds (ht : t.Succeeds (history engine inputs d₀) c c' request result)
    (hquiescent : Quiescent (run engine inputs d₀ c))
    (hidle : (run engine inputs d₀ c).bench.core.state = .idle) :
    ∃ jobBram : JobMemory, HoldsPayload jobBram (jobsBytes request.jobs) ∧
      Reports jobBram (requestVerdict engine request) (dispatchJobCount request.config)
        ((dispatchDroppedCount request.config).setWidth 32)
        (status (run engine inputs d₀ t.status).bench.core) := by
  obtain ⟨h₁, h₂, h₃, h₄, h₅, h₆, h₇, h₈, h₉⟩ := ht.order
  obtain ⟨messageBram, jobBram, hmessage, hjob, hcontents⟩ := contents_of_succeeds ht
  obtain ⟨hlaunch, hlow, ⟨horder, -⟩, hconcluded, -⟩ := serves_of_succeeds ht
  have hsize := (of_checkRequest ht.checked).1.2
  have hconfig : ∀ k, t.jobTimeout < k → k ≤ c' →
      (run engine inputs d₀ k).regs.config = request.config :=
    fun k => config_of_quiescent ht hquiescent hidle
  have hlength : request.config.messageLength.toNat = request.message.length := by
    have hsize' : messageSize = 4096 := rfl
    rw [HardwareBatchRequest.config, BitVec.toNat_ofNat]
    omega
  have hverdict : ∀ k, t.control < k → k ≤ t.status →
      (benchInputs engine (inputs k) (run engine inputs d₀ k)).verdict =
        requestVerdict engine request := by
    intro k hk hk'
    funext key
    show engine key (messageBytes (run engine inputs d₀ k).messageBram
      (run engine inputs d₀ k).regs.config.messageLength.toNat)
      (run engine inputs d₀ k).regs.config.verifyMode = _
    rw [(hcontents k (by omega) (by omega)).1, hconfig k (by omega) (by omega), hlength,
      messageBytes_of_holds hmessage hsize]
    rfl
  have hpending : ∀ k, t.control + 1 + 1 ≤ k → k ≤ t.status →
      Bench.Pending false jobBram (requestVerdict engine request)
        (run engine inputs d₀ (t.control + 1 + 1)).bench (dispatchJobCount request.config)
        ((dispatchDroppedCount request.config).setWidth 32) (run engine inputs d₀ k).bench ∨
      Bench.Reported jobBram (requestVerdict engine request) (dispatchJobCount request.config)
        ((dispatchDroppedCount request.config).setWidth 32) (run engine inputs d₀ k).bench := by
    intro k hk
    induction k, hk using Nat.le_induction with
    | base =>
        intro _
        have hlaunches : Bench.Launches (benchInputs engine (inputs (t.control + 1))
            (run engine inputs d₀ (t.control + 1))) (run engine inputs d₀ (t.control + 1)).bench := by
          refine ⟨hlaunch.1, Or.inl hlaunch.2, ?_⟩
          show (run engine inputs d₀ (t.control + 1)).regs.config.Launchable
          rw [hconfig _ (by omega) (by omega)]
          exact launchable_of_checkRequest ht.checked
        have hfirst := hlaunches.pending false jobBram (requestVerdict engine request) hlaunch.2
        rw [show (benchInputs engine (inputs (t.control + 1))
          (run engine inputs d₀ (t.control + 1))).config = request.config from
          hconfig _ (by omega) (by omega)] at hfirst
        exact Or.inl hfirst
    | succ k hk ih =>
        intro hk'
        obtain ⟨hstart, hreset⟩ := hlow k hk (by omega)
        have hsteady : Bench.Steady jobBram (requestVerdict engine request)
            (benchInputs engine (inputs k) (run engine inputs d₀ k)) :=
          ⟨hreset, (hcontents k (by omega) (by omega)).2, hverdict k (by omega) (by omega)⟩
        rcases ih (by omega) with hrun | hover
        · exact hrun.step hsteady
        · exact Or.inr (hover.step hreset hstart)
  refine ⟨jobBram, hjob, ?_⟩
  rcases hpending t.status horder le_rfl with hrun | hover
  · have hrunning := hrun.isOpen.running
    rw [hconcluded.idle] at hrunning
    contradiction
  · exact hover.reports

/-! ### The answer -/

/-- What the result of a call says about its request. -/
structure Delivers (engine : EngineVerdict) (request : HardwareBatchRequest)
    (result : HardwareBatchResult) : Prop where
  accepted : result.acceptedJobCount.toNat = acceptedJobs request.jobs.length request.dispatchLimit
  length : result.resultBits.length = result.acceptedJobCount.toNat
  /-- Without a watchdog error there is a verdict on each accepted job, in order. -/
  bits : result.error = false → result.resultBits =
    (request.jobs.take result.acceptedJobCount.toNat).map fun job =>
      requestVerdict engine request job.key
  verified : ∀ requestId parsedSummary,
    (successResponse requestId parsedSummary request.jobs.length request.verifyMode
        result).verification.verified = true ↔
      result.acceptedJobCount.toNat = request.jobs.length ∧ result.error = false ∧
        ∀ job ∈ request.jobs, requestVerdict engine request job.key = true

/-- The bits that a report of the verdicts gives. -/
theorem bits_of_marks {jobBram : JobMemory} {verdict : JobKey → Bool} {mask : BitVec 256}
    {jobs : List VerificationJob} {accepted : ℕ} (hjob : HoldsPayload jobBram (jobsBytes jobs))
    (hcount : jobs.length ≤ 255) (hle : accepted ≤ jobs.length)
    (hmask : Marks verdict jobBram (Finset.range accepted) mask) :
    (List.range accepted).map mask.getLsbD =
      (jobs.take accepted).map fun job => verdict job.key := by
  refine List.ext_getElem (by simp [hle]) fun i hi hi' => ?_
  have hlt : i < accepted := by simpa using hi
  have hget : jobs[i]? = some jobs[i] := List.getElem?_eq_getElem (by omega)
  rw [List.getElem_map, List.getElem_range, List.getElem_map, List.getElem_take, hmask i,
    jobKey_of_holds hjob hcount hget]
  simp [hlt]

/-- A call that returns `Ok` on a quiescent device delivers the verdicts on its own jobs,
keys and message read as the request writes them. -/
theorem verifyBatch_delivers (engine : EngineVerdict) (inputs : ℕ → Inputs) (dout : BitVec 32)
    (messageBram : MessagePort.Memory) (jobBram : JobMemory) (host : Host)
    (request : HardwareBatchRequest) (result : HardwareBatchResult) (c c' : ℕ)
    (hquiescent : Quiescent (run engine inputs (reset dout messageBram jobBram) c))
    (hcall : Program.Performs (history engine inputs (reset dout messageBram jobBram))
      (verifyBatch host request).run c c' (.ok result)) : Delivers engine request result := by
  obtain ⟨t, ht⟩ := of_verifyBatch hcall
  obtain ⟨jobs, hjob, hreports⟩ := reports_of_succeeds ht hquiescent hquiescent.idle
  have hresult := (serves_of_succeeds ht).result
  have hchecked := ht.checked
  obtain ⟨-, hpos, hcount⟩ := of_checkRequest hchecked
  have hmax : maxJobCount = 255 := rfl
  generalize status (run engine inputs (reset dout messageBram jobBram) t.status).bench.core = s at *
  have hnumber : result.acceptedJobCount = dispatchJobCount request.config := by
    rw [hresult]
    exact hreports.accepted
  have hle : result.acceptedJobCount.toNat ≤ request.jobs.length := by
    rw [hnumber, dispatchJobCount_config hchecked]
    exact Nat.min_le_left _ _
  have hbits : result.error = false → result.resultBits =
      (request.jobs.take result.acceptedJobCount.toNat).map fun job =>
        requestVerdict engine request job.key := by
    intro herror
    rw [hresult] at herror hle ⊢
    exact bits_of_marks hjob (by omega) hle (hreports.mask herror)
  refine ⟨?_, ?_, hbits, fun requestId parsedSummary => ?_⟩
  · rw [hnumber, dispatchJobCount_config hchecked]
  · rw [hresult]
    simp [report]
  · have hvalid : result.resultValid = true := by
      rw [hresult]
      exact hreports.valid
    have hdropped : result.jobsDropped = 0 ↔
        result.acceptedJobCount.toNat = request.jobs.length := by
      rw [hnumber, ← dispatchDroppedCount_config hchecked, ← hreports.dropped, hresult]
      exact Iff.rfl
    rw [successResponse_verified]
    constructor
    · rintro ⟨-, herror, haccepted, -, -, hall⟩
      refine ⟨haccepted, herror, fun job hjob => ?_⟩
      rw [hbits herror, haccepted, List.take_length] at hall
      exact hall _ (List.mem_map_of_mem hjob)
    · rintro ⟨haccepted, herror, hall⟩
      have hmap : result.resultBits =
          request.jobs.map fun job => requestVerdict engine request job.key := by
        rw [hbits herror, haccepted, List.take_length]
      refine ⟨hvalid, herror, haccepted, hdropped.mpr haccepted, ?_, ?_⟩
      · rw [hmap, Ne, List.map_eq_nil_iff]
        rintro hnil
        rw [hnil] at hpos
        exact absurd hpos (Nat.lt_irrefl 0)
      · rw [hmap]
        simpa using hall

/-- A call with one job on a device that has just been reset. -/
theorem verifyBatch_delivers_one_job : ∃ (inputs : ℕ → Inputs) (c' : ℕ)
    (result : HardwareBatchResult),
    Program.Performs (history (fun _ _ _ => true) inputs (reset 0 (fun _ => 0) fun _ => 0))
      (verifyBatch (plainHost 0) (zeroRequest 1)).run 0 c' (.ok result) ∧
      result.acceptedJobCount.toNat = 1 ∧ (result.error = false → result.resultBits = [true]) := by
  have hready : Idle Resting ⟨0, 0, 0, 0, 0⟩ (0 + 18446) (reset 0 (fun _ => 0) fun _ => 0) :=
    ⟨⟨rfl, rfl, rfl, rfl⟩, ⟨rfl, rfl⟩, ⟨rfl, rfl, rfl⟩, rfl⟩
  have hlaunchable : (zeroRequest 1).config.Launchable := ⟨by decide, by decide, by decide⟩
  have hplays : (machine fun _ _ _ => true).Plays (Idle Resting ⟨0, 0, 0, 0, 0⟩ (0 + 18446))
      (verifyBatch (plainHost 0) (zeroRequest 1)).run
      fun answer d => ∃ result, answer = .ok result ∧ d.regs.config = (zeroRequest 1).config := by
    refine plays_verifyBatch (resting_endures 0) rfl (by decide) rfl rfl 0 fun batchId => ?_
    exact succeeds_awaitResult (c := (zeroRequest 1).config) hlaunchable rfl 0
  obtain ⟨inputs, c', _, hperforms, result, rfl, -⟩ := hplays _ hready
  have hdelivers := verifyBatch_delivers (fun _ _ _ => true) inputs 0 (fun _ => 0) (fun _ => 0)
    (plainHost 0) (zeroRequest 1) result 0 c' ⟨rfl, rfl⟩ hperforms
  have haccepted : result.acceptedJobCount.toNat = 1 := hdelivers.accepted
  refine ⟨inputs, c', result, hperforms, haccepted, fun herror => ?_⟩
  rw [hdelivers.bits herror, haccepted]
  rfl

end Device

end Kv260Sigv
