import Kv260Sigv.System.Dispatch
import Kv260Sigv.System.HostAccess

/-!
# The batch a call is answered from

After a launch the core is `Underway` until it is `Concluded`, in the same cycle if
the launch is refused, and it stays so until the next launch.  A call whose status
load finds the core done or in error therefore reads one and the same report in all
of its loads: the report of the batch launched by its own store to `REG_CONTROL`.
-/

set_option autoImplicit false

namespace Kv260Sigv

namespace SigvKv260Core

/-- Batch `id` is running. -/
structure Underway (id : BitVec 32) (s : State) : Prop where
  running : s.state = .run
  busy : s.busy = true
  done : s.done = false
  error : s.error = false
  batchId : s.batchId = id

/-- Batch `id` is over and the outputs show it. -/
structure Concluded (id : BitVec 32) (s : State) : Prop where
  idle : s.state = .idle
  busy : s.busy = false
  done : s.done = true
  batchId : s.batchId = id
  snapshot : s.snapshot.batchId = id

section

variable {en : Bool} {i : Inputs} {s m : State} {id : BitVec 32}

/-- A launch, accepted or refused. -/
theorem launchBatch_result (clearCounters : Bool) (c : Config) :
    Underway (s.batchId + 1) (launchBatch clearCounters c s m) ∨
      Concluded (s.batchId + 1) (launchBatch clearCounters c s m) := by
  unfold launchBatch
  dsimp only
  split
  · exact Or.inr ⟨rfl, rfl, rfl, rfl, rfl⟩
  · split
    · exact Or.inr ⟨rfl, rfl, rfl, rfl, rfl⟩
    · split
      · exact Or.inr ⟨rfl, rfl, rfl, rfl, rfl⟩
      · exact Or.inl ⟨rfl, rfl, rfl, rfl, rfl⟩

theorem afterDispatch_error (s n : State) : (afterDispatch s n).error = n.error := by
  unfold afterDispatch
  dsimp only
  split <;> rfl

theorem afterDispatch_batchId (s n : State) : (afterDispatch s n).batchId = n.batchId := by
  unfold afterDispatch
  dsimp only
  split <;> rfl

theorem Underway.afterDispatch (h : Underway id m) (s : State) :
    Underway id (afterDispatch s m) := by
  refine ⟨?_, ?_, ?_, ?_, ?_⟩
  · rw [afterDispatch_state]
    exact h.running
  · rw [afterDispatch_busy]
    exact h.busy
  · rw [afterDispatch_done]
    exact h.done
  · rw [afterDispatch_error]
    exact h.error
  · rw [afterDispatch_batchId]
    exact h.batchId

/-- One cycle of a running batch. -/
theorem Underway.step (h : Underway id s) (hreset : i.softReset = false) :
    Underway id (step en i s) ∨ Concluded id (step en i s) := by
  have hstep := step_run en i s h.running hreset
  obtain ⟨hrun, hbusy, hdone, herror, hid⟩ := h
  generalize SigvKv260Core.step en i s = s' at hstep
  cases hstep with
  | timeout => exact Or.inr ⟨rfl, rfl, rfl, hid, hid⟩
  | complete => exact Or.inr ⟨rfl, rfl, rfl, hid, hid⟩
  | hand0 =>
      refine Or.inl (Underway.afterDispatch ?_ s)
      exact ⟨hrun, hbusy, hdone, herror, hid⟩
  | hand1 =>
      refine Or.inl (Underway.afterDispatch ?_ s)
      exact ⟨hrun, hbusy, hdone, herror, hid⟩
  | wait => exact Or.inl ⟨hrun, hbusy, hdone, herror, hid⟩

/-- Without a start the outputs of an idle core stand still. -/
theorem step_rest (en : Bool) (hidle : s.state = .idle) (hbusy : s.busy = false)
    (hreset : i.softReset = false) (hstart : i.start = false) :
    (SigvKv260Core.step en i s).state = .idle ∧ status (SigvKv260Core.step en i s) = status s := by
  rw [step_idle en i s hidle hreset, hstart,
    stepLoader_eq i s (n := tick en s) rfl rfl rfl rfl]
  refine ⟨hidle, ?_⟩
  simp [status, tick, hbusy]

/-- A core that is not started stays idle, with or without a soft reset. -/
theorem step_unstarted (en : Bool) (hidle : s.state = .idle) (hbusy : s.busy = false)
    (hstart : i.start = false) :
    (SigvKv260Core.step en i s).state = .idle ∧ (SigvKv260Core.step en i s).busy = false := by
  cases hreset : i.softReset with
  | true =>
      rw [SigvKv260Core.step, hreset, hstart]
      exact ⟨rfl, rfl⟩
  | false =>
      obtain ⟨hidle', hstatus⟩ := step_rest en hidle hbusy hreset hstart
      exact ⟨hidle', (congrArg CoreStatus.busy hstatus).trans hbusy⟩

theorem Concluded.of_status {s' : State} (h : Concluded id s) (hidle : s'.state = .idle)
    (hstatus : status s' = status s) : Concluded id s' := by
  have hbusy : s'.busy = s.busy := congrArg CoreStatus.busy hstatus
  have hdone : s'.done = s.done := congrArg CoreStatus.done hstatus
  have hid : s'.batchId = s.batchId := congrArg CoreStatus.batchId hstatus
  have hsnapshot : s'.snapshot = s.snapshot := congrArg CoreStatus.snapshot hstatus
  refine ⟨hidle, hbusy.trans h.busy, hdone.trans h.done, hid.trans h.batchId, ?_⟩
  rw [hsnapshot]
  exact h.snapshot

theorem Concluded.step (h : Concluded id s) (hreset : i.softReset = false)
    (hstart : i.start = false) :
    Concluded id (step en i s) ∧ status (SigvKv260Core.step en i s) = status s := by
  obtain ⟨hidle, hstatus⟩ := step_rest en h.idle h.busy hreset hstart
  exact ⟨h.of_status hidle hstatus, hstatus⟩

/-- Without a start no batch gets a number. -/
theorem step_batchId (hstart : i.start = false) : (step en i s).batchId = s.batchId := by
  cases hreset : i.softReset with
  | true =>
      rw [SigvKv260Core.step, hreset, hstart]
      rfl
  | false =>
      cases hstate : s.state with
      | idle =>
          rw [step_idle en i s hstate hreset, hstart,
            stepLoader_eq i s (n := tick en s) rfl rfl rfl rfl]
          rfl
      | run =>
          have hstep := step_run en i s hstate hreset
          generalize SigvKv260Core.step en i s = s' at hstep
          cases hstep with
          | timeout => rfl
          | complete => rfl
          | hand0 => exact afterDispatch_batchId _ _
          | hand1 => exact afterDispatch_batchId _ _
          | wait => rfl

end

end SigvKv260Core

/-! ### The report of a core at rest -/

open Accelerator SigvAxiRegs

/-- The words of a result mask. -/
def maskWords (mask : BitVec 256) : List (BitVec 32) :=
  (List.range 8).map fun index => mask.extractLsb' (index * 32) 32

/-- What a call makes of the outputs of a core at rest. -/
def report (s : CoreStatus) : HardwareBatchResult where
  batchId := s.snapshot.batchId
  acceptedJobCount := s.snapshot.acceptedJobCount
  jobsCompleted := s.snapshot.jobsCompleted
  jobsDropped := s.snapshot.jobsDropped
  error := s.snapshot.error
  resultValid := s.snapshot.resultValid
  errorCode := s.snapshot.errorCode
  resultMaskHex := resultMaskHex (maskWords s.resultMask)
  resultBits := (List.range s.snapshot.acceptedJobCount.toNat).map s.resultMask.getLsbD
  lastJobCycles := s.lastJobCycles
  lastBatchCycles := s.lastBatchCycles

/-- The test for the lowest bit. -/
theorem and_one_ne_zero (x : BitVec 32) : decide (x &&& 1 ≠ 0) = x.getLsbD 0 := by
  rw [show (1 : BitVec 32) = 1#32 from rfl, BitVec.and_one_eq_setWidth_ofBool_getLsbD]
  cases x.getLsbD 0 <;> decide

/-- The fields of the word of `ADDR_SNAPSHOT_ERR_STATUS`. -/
theorem errStatus_fields (valid error : Bool) (code : BitVec 8) :
    let word := (0 : BitVec 22) ++ (BitVec.ofBool valid ++ (BitVec.ofBool error ++ code))
    decide ((word >>> 8) &&& 1 ≠ 0) = error ∧ decide ((word >>> 9) &&& 1 ≠ 0) = valid ∧
      word.extractLsb' 0 8 = code := by
  intro word
  rw [and_one_ne_zero, and_one_ne_zero]
  have hbit : ∀ j, word.getLsbD j =
      if j < 8 then code.getLsbD j else if j = 8 then error else if j = 9 then valid else false := by
    intro j
    simp only [word, BitVec.getLsbD_append, BitVec.getLsbD_ofBool]
    split_ifs <;> simp_all
    all_goals omega
  refine ⟨?_, ?_, ?_⟩
  · rw [BitVec.getLsbD_ushiftRight, hbit]
    rfl
  · rw [BitVec.getLsbD_ushiftRight, hbit]
    rfl
  · apply BitVec.eq_of_getLsbD_eq
    intro j hj
    rw [BitVec.getLsbD_extractLsb', Nat.zero_add, hbit, if_pos hj]
    simp [hj]

/-- Cutting the mask into words and the words into bits gives the bits. -/
theorem maskBits_maskWords (mask : BitVec 256) {n : ℕ} (hn : n ≤ 256) :
    maskBits (maskWords mask) n = (List.range n).map mask.getLsbD := by
  rw [maskBits]
  refine List.map_congr_left fun bit hbit => ?_
  have hbit' : bit < n := List.mem_range.mp hbit
  have hword : (maskWords mask).getD (bit / 32) 0 = mask.extractLsb' (bit / 32 * 32) 32 := by
    rw [maskWords, List.getD_eq_getElem?_getD, List.getElem?_map,
      List.getElem?_range (by omega)]
    rfl
  have hlt : bit % 32 < 32 := Nat.mod_lt _ (by decide)
  have hsplit : bit / 32 * 32 + bit % 32 = bit := by omega
  rw [and_one_ne_zero, hword, BitVec.getLsbD_ushiftRight, BitVec.getLsbD_extractLsb', Nat.add_zero, hsplit]
  simp [hlt]

theorem eq_map_of_forall₂ {α : Type} {R : ℕ → α → Prop} {f : ℕ → α} {n : ℕ} {l : List α}
    (hf : ∀ k < n, ∀ x, R k x → x = f k) (hl : List.Forall₂ R (List.range n) l) :
    l = (List.range n).map f := by
  have hlength := hl.length_eq
  refine List.ext_getElem (by rw [List.length_map, hlength]) fun k hk hk' => ?_
  have hget := hl.get (i := k) (by omega) hk
  rw [List.length_map, List.length_range] at hk'
  simp only [List.get_eq_getElem, List.getElem_range, List.getElem_map] at hget ⊢
  exact hf k hk' _ hget

namespace Device

open SigvKv260Core (Underway Concluded status)

variable {engine : EngineVerdict} {inputs : ℕ → Inputs} {d₀ : Device}

/-- No pulse reaches the core in the cycles from `k` to `k'`. -/
def Unpulsed (d : ℕ → Device) (k k' : ℕ) : Prop :=
  ∀ j, k ≤ j → j < k' → (d j).regs.startPulse = false ∧ (d j).regs.softResetPulse = false

/-- `L` launches the batch whose report, complete in cycle `r`, is the result of a call
that ends in cycle `c'`. -/
structure Serves (d : ℕ → Device) (L r c' : ℕ) (result : HardwareBatchResult) : Prop where
  launch : (d L).regs.startPulse = true ∧ (d L).regs.softResetPulse = true
  last : Unpulsed d (L + 1) c'
  order : L < r ∧ r < c'
  concluded : Concluded (d (L + 1)).bench.core.batchId (d r).bench.core
  result : result = report (status (d r).bench.core)

theorem run_succ (k : ℕ) :
    run engine inputs d₀ (k + 1) = step engine (inputs k) (run engine inputs d₀ k) := rfl

/-- The core and its engine run on their own. -/
theorem bench_run (k : ℕ) :
    (run engine inputs d₀ k).bench =
      Clocked.run (Bench.step false)
        (fun k => benchInputs engine (inputs k) (run engine inputs d₀ k)) d₀.bench k := by
  induction k with
  | zero => rfl
  | succ k ih =>
      rw [Clocked.run_succ, ← ih]
      rfl

/-- The batch is under way or over from its launch on. -/
theorem launched {L k : ℕ}
    (hlaunch : (run engine inputs d₀ L).regs.startPulse = true ∧
      (run engine inputs d₀ L).regs.softResetPulse = true)
    (hlow : Unpulsed (run engine inputs d₀) (L + 1) k) (hk : L < k) :
    Underway ((run engine inputs d₀ L).bench.core.batchId + 1) (run engine inputs d₀ k).bench.core ∨
      Concluded ((run engine inputs d₀ L).bench.core.batchId + 1)
        (run engine inputs d₀ k).bench.core := by
  induction k, hk using Nat.le_induction with
  | base =>
      obtain ⟨m, -, hcore⟩ := Bench.core_start (b := (run engine inputs d₀ L).bench)
        (i := benchInputs engine (inputs L) (run engine inputs d₀ L)) false hlaunch.1
        (Or.inl hlaunch.2)
      have hnext : (run engine inputs d₀ (L + 1)).bench.core = _ := hcore
      rw [Nat.succ_eq_add_one, hnext]
      exact SigvKv260Core.launchBatch_result _ _
  | succ k hk ih =>
      obtain ⟨hstart, hreset⟩ := hlow k hk (Nat.lt_succ_self k)
      rw [run_succ]
      rcases ih fun j hj hj' => hlow j hj (Nat.lt_succ_of_lt hj') with hrun | hover
      · exact hrun.step hreset
      · exact Or.inr (hover.step hreset hstart).1

/-- What is over stays as it is. -/
theorem concluded_stays {id : BitVec 32} {r k : ℕ}
    (hover : Concluded id (run engine inputs d₀ r).bench.core)
    (hlow : Unpulsed (run engine inputs d₀) r k) (hk : r ≤ k) :
    Concluded id (run engine inputs d₀ k).bench.core ∧
      status (run engine inputs d₀ k).bench.core = status (run engine inputs d₀ r).bench.core := by
  induction k, hk using Nat.le_induction with
  | base => exact ⟨hover, rfl⟩
  | succ k hk ih =>
      obtain ⟨hstart, hreset⟩ := hlow k hk (Nat.lt_succ_self k)
      obtain ⟨hbefore, hstatus⟩ := ih fun j hj hj' => hlow j hj (Nat.lt_succ_of_lt hj')
      have hstep : Concluded id (run engine inputs d₀ (k + 1)).bench.core ∧
          status (run engine inputs d₀ (k + 1)).bench.core =
            status (run engine inputs d₀ k).bench.core := hbefore.step hreset hstart
      exact ⟨hstep.1, hstep.2.trans hstatus⟩

/-- All loads of a result read the outputs of the core at rest. -/
theorem collects_report {c c' : ℕ} {id : BitVec 32} {result : HardwareBatchResult}
    {s : CoreStatus} (hc : Collects (history engine inputs d₀) c c' id result)
    (hs : ∀ k, c ≤ k → k < c' → status (run engine inputs d₀ k).bench.core = s) :
    result = report s := by
  have hread : ∀ {offset word}, Loaded (history engine inputs d₀) c c' offset word →
      ∃ regs, word = readWord 0 s regs (BitVec.ofNat 8 offset) := by
    intro offset word hl
    obtain ⟨k, hk, hk', -, hword⟩ := hl
    refine ⟨(run engine inputs d₀ k).regs, ?_⟩
    rw [← hs k hk hk']
    exact hword
  obtain ⟨accepted, haccepted, haccepted'⟩ := hc.accepted
  obtain ⟨errStatus, herr, herror, hvalid, hcode⟩ := hc.errStatus
  obtain ⟨words, hwords, hhex, hbits⟩ := hc.mask
  obtain ⟨_, hid⟩ := hread hc.batchId.2
  obtain ⟨_, hacc⟩ := hread haccepted
  obtain ⟨_, hcompleted⟩ := hread hc.completed
  obtain ⟨_, hdropped⟩ := hread hc.dropped
  obtain ⟨_, herrStatus⟩ := hread herr
  obtain ⟨_, hjob⟩ := hread hc.lastJobCycles
  obtain ⟨_, hbatch⟩ := hread hc.lastBatchCycles
  have hmask : words = maskWords s.resultMask := by
    rw [List.forall₂_map_left_iff] at hwords
    refine eq_map_of_forall₂ (fun index hindex word hl => ?_) hwords
    obtain ⟨regs, rfl⟩ := hread hl
    interval_cases index <;> rfl
  have haccepted : result.acceptedJobCount = s.snapshot.acceptedJobCount := by
    rw [haccepted', hacc]
    show (s.snapshot.acceptedJobCount.setWidth 32).extractLsb' 0 8 = _
    apply BitVec.eq_of_getLsbD_eq
    intro j hj
    simp [hj, show j < 32 by omega]
  obtain ⟨batchId, acceptedJobCount, jobsCompleted, jobsDropped, error, resultValid, errorCode,
    resultMaskHex, resultBits, lastJobCycles, lastBatchCycles⟩ := result
  obtain ⟨herror', hvalid', hcode'⟩ :=
    errStatus_fields s.snapshot.resultValid s.snapshot.error s.snapshot.errorCode
  dsimp only at *
  subst herrStatus hmask
  have hcount := s.snapshot.acceptedJobCount.isLt
  rw [hid, hcompleted, hdropped, hjob, hbatch, haccepted, hhex, hbits, herror, hvalid, hcode,
    haccepted, maskBits_maskWords _ (by omega)]
  rw [report]
  congr 1

/-- A harmless stretch holds no pulse but perhaps in its first cycle. -/
theorem unpulsed_of_calm {k k' : ℕ} (hcalm : Calm (history engine inputs d₀) k k') :
    Unpulsed (run engine inputs d₀) (k + 1) (k' + 1) := by
  intro j hj hj'
  exact pulses_of_calm hcalm hj (by omega)

/-- The store to `REG_CONTROL` launches a batch in the next cycle, and until then the
status shows neither completion nor error. -/
theorem launch_of_control {g : ℕ}
    (hevent : (history engine inputs d₀).events g =
      [storeTo regControl controlCmdResetThenStart]) :
    (run engine inputs d₀ (g + 1)).regs.startPulse = true ∧
      (run engine inputs d₀ (g + 1)).regs.softResetPulse = true ∧
      (run engine inputs d₀ (g + 1)).regs.statusClearHold = true := by
  obtain ⟨-, hstart, hreset, hhold⟩ := step_store engine hevent
  exact ⟨hstart, hreset, hhold⟩

/-- What `decode_status` makes of the status word. -/
theorem decodeStatus_statusWord (core : CoreStatus) (s : SigvAxiRegs.State) :
    (decodeStatus (statusWord core s)).done = statusDone core s ∧
      (decodeStatus (statusWord core s)).error = statusError core s := by
  have hdone : ∀ x : BitVec 32, decide (x &&& 2 ≠ 0) = x.getLsbD 1 := by
    intro x
    rw [show (2 : BitVec 32) = BitVec.twoPow 32 1 from rfl, BitVec.and_twoPow]
    cases x.getLsbD 1 <;> decide
  have herror : ∀ x : BitVec 32, decide (x &&& 4 ≠ 0) = x.getLsbD 2 := by
    intro x
    rw [show (4 : BitVec 32) = BitVec.twoPow 32 2 from rfl, BitVec.and_twoPow]
    cases x.getLsbD 2 <;> decide
  constructor
  · show decide (statusWord core s &&& 2 ≠ 0) = _
    rw [hdone]
    simp only [statusWord, BitVec.getLsbD_append, BitVec.getLsbD_ofBool]
    simp
  · show decide (statusWord core s &&& 4 ≠ 0) = _
    rw [herror]
    simp only [statusWord, BitVec.getLsbD_append, BitVec.getLsbD_ofBool]
    simp

/-- A call that returns `Ok` is served by the batch it has launched. -/
theorem serves_of_succeeds {t : Timeline} {c c' : ℕ} {request : HardwareBatchRequest}
    {result : HardwareBatchResult}
    (ht : t.Succeeds (history engine inputs d₀) c c' request result) :
    Serves (run engine inputs d₀) (t.control + 1) t.status c' result := by
  obtain ⟨hstart, hreset, hhold⟩ := launch_of_control ht.control
  have hlow : Unpulsed (run engine inputs d₀) (t.control + 1 + 1) (c' + 1) :=
    unpulsed_of_calm ht.waited.2.2.calm
  have hle := ht.waited.1
  have hle' := ht.waited.2.1
  have hlook : statusDone (status (run engine inputs d₀ t.status).bench.core)
      (run engine inputs d₀ t.status).regs = true ∨
      statusError (status (run engine inputs d₀ t.status).bench.core)
        (run engine inputs d₀ t.status).regs = true := by
    obtain ⟨hdone, herror⟩ := decodeStatus_statusWord
      (status (run engine inputs d₀ t.status).bench.core) (run engine inputs d₀ t.status).regs
    rw [← hdone, ← herror, ← Bool.or_eq_true]
    exact ht.status.2
  -- the first status load cannot see the outputs of the batch before
  have hlt : t.control + 1 < t.status := by
    refine Nat.lt_of_le_of_ne hle ?_
    intro heq
    rw [heq] at hhold
    simp [statusDone, statusError, hhold] at hlook
  have hbefore : Unpulsed (run engine inputs d₀) (t.control + 1 + 1) t.status :=
    fun j hj hj' => hlow j hj (by omega)
  have hover : Concluded ((run engine inputs d₀ (t.control + 1)).bench.core.batchId + 1)
      (run engine inputs d₀ t.status).bench.core := by
    rcases launched ⟨hstart, hreset⟩ hbefore hlt with hrun | hover
    · simp [statusDone, statusError, status, hrun.done, hrun.error] at hlook
    · exact hover
  have hnumber : (run engine inputs d₀ (t.control + 1 + 1)).bench.core.batchId =
      (run engine inputs d₀ (t.control + 1)).bench.core.batchId + 1 := by
    rcases launched (k := t.control + 1 + 1) ⟨hstart, hreset⟩
      (fun j hj hj' => by omega) (Nat.lt_succ_self _) with hrun | hover
    · exact hrun.batchId
    · exact hover.batchId
  refine ⟨⟨hstart, hreset⟩, fun j hj hj' => hlow j hj (by omega), ⟨hlt, hle'⟩, ?_, ?_⟩
  · rw [hnumber]
    exact hover
  · refine collects_report ht.collects ?_
    intro k hk hk'
    exact (concluded_stays hover (fun j hj hj' => hlow j (by omega) (by omega)) (by omega)).2

end Device

end Kv260Sigv
