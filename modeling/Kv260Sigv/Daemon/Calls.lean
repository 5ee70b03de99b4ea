import Kv260Sigv.Daemon.Accelerator
import Mathlib.Data.List.Forall2

/-!
# What a successful call has done

A call that returns `Ok` has made all of its accesses, in order.  `Call` lists the
ones that matter with the cycles they happened in: the four configuration stores,
the load of the batch id, the control store, the load of a completed status, and
what was read after it.  Every other access of the call leaves the configuration and
the command register alone.
-/

set_option autoImplicit false

namespace Kv260Sigv

open Program (Performs)

namespace Accelerator

variable {h : History Access Answer} {c c' : ℕ}

/-! ### Single steps -/

theorem of_check {α : Type} {result : Except ServiceError α} {a : α}
    (hm : Performs h (Driver.check result).run c c' (.ok a)) :
    result = .ok a ∧ c ≤ c' ∧ h.Quiet c c' := by
  cases result with
  | error e => cases hm
  | ok b =>
      obtain ⟨rfl, hle, hquiet⟩ := Performs.of_pure_ok (a := b) hm
      exact ⟨rfl, hle, hquiet⟩

theorem of_access {o : Access} {a : Answer o}
    (hm : Performs h (Driver.access o).run c c' (.ok a)) :
    ∃ r, c ≤ r ∧ r < c' ∧ h.Quiet c r ∧ h.events r = [o] ∧ a = h.answer r o ∧
      h.Quiet (r + 1) c' := by
  obtain ⟨b, d, hfirst, hsecond⟩ := Performs.of_bind hm
  obtain ⟨r, hle, hlt, hquiet, hevent, rfl, hafter⟩ := Performs.of_access hfirst
  obtain ⟨hb, hle', hquiet'⟩ := Performs.of_pure_ok hsecond
  exact ⟨r, hle, by omega, hquiet, hevent, hb.symm, hafter.append hquiet'⟩

/-! ### Accesses that leave configuration and command alone -/

/-- No store to a control register other than the interrupt register. -/
def Harmless : Access → Prop
  | .load .. => True
  | .store .control offset _ _ => offset = regIrqCtrlStatus
  | .store .message .. => True
  | .store .job .. => True

/-- A load, or a store to the interrupt register. -/
def Gentle : Access → Prop
  | .load .. => True
  | .store .control offset _ _ => offset = regIrqCtrlStatus
  | .store .message .. => False
  | .store .job .. => False

theorem Gentle.harmless : ∀ {o : Access}, Gentle o → Harmless o
  | .load .., _ => trivial
  | .store .control .., h => h
  | .store .message .., _ => trivial
  | .store .job .., _ => trivial

/-- Only harmless accesses in the cycles from `c` to `c'`. -/
def Calm (h : History Access Answer) (c c' : ℕ) : Prop :=
  ∀ k, c ≤ k → k < c' → ∀ o ∈ h.events k, Harmless o

/-- Only gentle accesses in the cycles from `c` to `c'`. -/
def Still (h : History Access Answer) (c c' : ℕ) : Prop :=
  ∀ k, c ≤ k → k < c' → ∀ o ∈ h.events k, Gentle o

theorem Still.calm (hs : Still h c c') : Calm h c c' :=
  fun k hk hk' o ho => (hs k hk hk' o ho).harmless

theorem Still.append {d : ℕ} (h₁ : Still h c d) (h₂ : Still h d c') : Still h c c' := by
  intro k hk hk'
  rcases Nat.lt_or_ge k d with hd | hd
  · exact h₁ k hk hd
  · exact h₂ k hd hk'

theorem Calm.append {d : ℕ} (h₁ : Calm h c d) (h₂ : Calm h d c') : Calm h c c' := by
  intro k hk hk'
  rcases Nat.lt_or_ge k d with hd | hd
  · exact h₁ k hk hd
  · exact h₂ k hd hk'

theorem still_of_quiet (hquiet : h.Quiet c c') : Still h c c' := by
  intro k hk hk' o ho
  rw [hquiet k hk hk'] at ho
  contradiction

/-- A program of gentle accesses. -/
abbrev Mild {α : Type} (m : Driver α) : Prop := m.run.All Gentle

theorem still_of_mild {α : Type} {m : Driver α} {a : Except ServiceError α} (hmild : Mild m)
    (hm : Performs h m.run c c' a) : Still h c c' := hm.all hmild

theorem mild_check {α : Type} (result : Except ServiceError α) : Mild (Driver.check result) :=
  trivial

theorem mild_access {o : Access} (ho : Gentle o) : Mild (Driver.access o) := ⟨ho, fun _ => trivial⟩

theorem mild_bind {α β : Type} {m : Driver α} {f : α → Driver β} (hm : Mild m)
    (hf : ∀ a, Mild (f a)) : Mild (m >>= f) := Program.All.bind_run hm hf

theorem mild_ite {α : Type} {p : Prop} [Decidable p] {m m' : Driver α} (hm : Mild m)
    (hm' : Mild m') : Mild (if p then m else m') := by
  split
  · exact hm
  · exact hm'

theorem mild_readU32 (r : MappedRegion) (offset : ℕ) : Mild (r.readU32 offset) :=
  mild_bind (mild_check _) fun _ => mild_access trivial

theorem mild_writeIrq {r : MappedRegion} (hr : r.region = .control) {value : BitVec 32} :
    Mild (r.writeU32 regIrqCtrlStatus value) := by
  refine mild_bind (mild_check _) fun _ => mild_access ?_
  rw [hr]
  rfl

/-- Storing a payload makes nothing but stores of whole words to its region. -/
theorem all_writeBytes {S : Access → Prop} {r : MappedRegion}
    (hS : ∀ offset value, S (.store r.region offset value 0xF)) (data : Bytes) :
    (r.writeBytes data).run.All S := by
  have hstore : ∀ offset value, (r.writeU32 offset value).run.All S := fun offset value =>
    Program.All.bind_run trivial fun _ => ⟨hS offset value, fun _ => trivial⟩
  have hwords : ∀ (words : List (BitVec 32)) (offset : ℕ),
      (writeWords r.writeU32 offset words).run.All S := by
    intro words
    induction words with
    | nil =>
        intro offset
        exact trivial
    | cons word words ih =>
        intro offset
        exact Program.All.bind_run (hstore _ _) fun _ => ih _
  rw [MappedRegion.writeBytes, writeBytesAsU32Words]
  dsimp only
  split
  · exact trivial
  · split
    · exact trivial
    · exact hwords _ _

theorem mild_open (host : Host) (region : Region) (spec : RegionSpec) (size : ℕ) :
    Mild (MappedRegion.open host region spec size) :=
  mild_bind (mild_check _) fun _ => trivial

theorem mild_probeHardwareIdentity (control : MappedRegion) :
    Mild (probeHardwareIdentity control) := by
  refine mild_bind (mild_readU32 _ _) fun magic => mild_ite trivial ?_
  exact mild_bind (mild_readU32 _ _) fun build => trivial

theorem mild_lookOr {control : MappedRegion} {later : Driver (BitVec 32)} (h : Mild later) :
    Mild (lookOr control later) :=
  mild_bind (mild_readU32 _ _) fun _ => mild_ite trivial h

theorem mild_pollUntilComplete (control : MappedRegion) :
    ∀ polls, Mild (pollUntilComplete control polls) := by
  intro polls
  induction polls with
  | zero => exact mild_lookOr trivial
  | succ polls ih => exact mild_lookOr ih

theorem mild_readWords (control : MappedRegion) (offsets : List ℕ) :
    Mild (readWords control offsets) := by
  induction offsets with
  | nil => exact trivial
  | cons offset offsets ih =>
      exact mild_bind (mild_readU32 _ _) fun word => mild_bind ih fun words => trivial

theorem mild_readSnapshot (control : MappedRegion) : Mild (readSnapshot control) :=
  mild_bind (mild_readU32 _ _) fun _ => mild_bind (mild_readU32 _ _) fun _ =>
    mild_bind (mild_readU32 _ _) fun _ => mild_bind (mild_readU32 _ _) fun _ =>
      mild_bind (mild_readU32 _ _) fun _ => trivial

theorem mild_collectResult (control : MappedRegion) (expectedBatchId : BitVec 32) :
    Mild (collectResult control expectedBatchId) := by
  refine mild_bind (mild_readSnapshot _) fun snapshot => mild_ite trivial ?_
  refine mild_bind (mild_readWords _ _) fun maskWords => ?_
  exact mild_bind (mild_readU32 _ _) fun _ => mild_bind (mild_readU32 _ _) fun _ => trivial

/-! ### What a call has read and stored -/

/-- In the cycles from `c` to `c'` the word at a control offset was loaded once, with
this answer, and nothing else happened. -/
def Loaded (h : History Access Answer) (c c' offset : ℕ) (word : BitVec 32) : Prop :=
  ∃ r, c ≤ r ∧ r < c' ∧ h.events r = [.load .control offset] ∧
    word = h.answer r (.load .control offset)

/-- The region is the control region. -/
abbrev IsControl (r : MappedRegion) : Prop := r.region = .control

theorem of_readU32 {r : MappedRegion} {offset : ℕ} {word : BitVec 32}
    (hm : Performs h (r.readU32 offset).run c c' (.ok word)) :
    ∃ k, c ≤ k ∧ k < c' ∧ h.Quiet c k ∧ h.events k = [.load r.region offset] ∧
      word = h.answer k (.load r.region offset) ∧ h.Quiet (k + 1) c' := by
  obtain ⟨_, d, hcheck, haccess⟩ := Performs.of_bind_ok hm
  obtain ⟨-, hle, hquiet⟩ := of_check hcheck
  obtain ⟨k, hk, hlt, hbefore, hevent, hword, hafter⟩ := of_access haccess
  refine ⟨k, by omega, hlt, hquiet.append hbefore, hevent, hword, hafter⟩

theorem of_writeU32 {r : MappedRegion} {offset : ℕ} {value : BitVec 32} {u : Unit}
    (hm : Performs h (r.writeU32 offset value).run c c' (.ok u)) :
    ∃ k, c ≤ k ∧ k < c' ∧ h.Quiet c k ∧ h.events k = [.store r.region offset value 0xF] ∧
      h.Quiet (k + 1) c' := by
  obtain ⟨_, d, hcheck, haccess⟩ := Performs.of_bind_ok hm
  obtain ⟨-, hle, hquiet⟩ := of_check hcheck
  obtain ⟨k, hk, hlt, hbefore, hevent, -, hafter⟩ := of_access haccess
  exact ⟨k, by omega, hlt, hquiet.append hbefore, hevent, hafter⟩

/-- A store of the driver to a control register. -/
def storeTo (offset : ℕ) (value : BitVec 32) : Access := .store .control offset value 0xF

/-- Gentle accesses, then one store to a control register. -/
theorem of_writeControl {r : MappedRegion} (hr : IsControl r) {offset : ℕ} {value : BitVec 32}
    {u : Unit} (hm : Performs h (r.writeU32 offset value).run c c' (.ok u)) :
    ∃ k, c ≤ k ∧ k < c' ∧ Still h c k ∧ h.events k = [storeTo offset value] ∧
      Still h (k + 1) c' := by
  obtain ⟨k, hk, hlt, hbefore, hevent, hafter⟩ := of_writeU32 hm
  rw [hr] at hevent
  exact ⟨k, hk, hlt, still_of_quiet hbefore, hevent, still_of_quiet hafter⟩

theorem of_readControl {r : MappedRegion} (hr : IsControl r) {offset : ℕ} {word : BitVec 32}
    (hm : Performs h (r.readU32 offset).run c c' (.ok word)) : Loaded h c c' offset word := by
  obtain ⟨k, hk, hlt, -, hevent, hword, -⟩ := of_readU32 hm
  rw [hr] at hevent hword
  exact ⟨k, hk, hlt, hevent, hword⟩

theorem Loaded.mono {b b' offset : ℕ} {word : BitVec 32} (hl : Loaded h b b' offset word)
    (hle : c ≤ b) (hle' : b' ≤ c') : Loaded h c c' offset word := by
  obtain ⟨r, hr, hlt, hrest⟩ := hl
  exact ⟨r, by omega, by omega, hrest⟩

/-- The status load that ends the wait. -/
def Completes (h : History Access Answer) (c c' : ℕ) (word : BitVec 32) : Prop :=
  ∃ s, c ≤ s ∧ s < c' ∧ h.events s = [.load .control regStatus] ∧
    word = h.answer s (.load .control regStatus) ∧
    ((decodeStatus word).done || (decodeStatus word).error) = true

theorem of_lookOr {control : MappedRegion} (hr : IsControl control) {later : Driver (BitVec 32)}
    {word : BitVec 32} (hm : Performs h (lookOr control later).run c c' (.ok word)) :
    Completes h c c' word ∨ ∃ d, c ≤ d ∧ Performs h later.run d c' (.ok word) := by
  obtain ⟨statusWord, d, hread, hrest⟩ := Performs.of_bind_ok hm
  obtain ⟨s, hle, hlt, hevent, hword⟩ := of_readControl hr hread
  dsimp only at hrest
  split at hrest
  · next hover =>
      obtain ⟨rfl, hle', -⟩ := Performs.of_pure_ok hrest
      exact Or.inl ⟨s, hle, by omega, hevent, hword, hover⟩
  · exact Or.inr ⟨d, by omega, hrest⟩

theorem of_pollUntilComplete {control : MappedRegion} (hr : IsControl control) {polls : ℕ}
    {word : BitVec 32} (hm : Performs h (pollUntilComplete control polls).run c c' (.ok word)) :
    Completes h c c' word := by
  induction polls generalizing c with
  | zero =>
      rcases of_lookOr hr hm with hdone | ⟨d, -, hthrow⟩
      · exact hdone
      · exact (Performs.of_throw_ok hthrow).elim
  | succ polls ih =>
      rcases of_lookOr hr hm with hdone | ⟨d, hle, hlater⟩
      · exact hdone
      · obtain ⟨s, hs, hrest⟩ := ih hlater
        exact ⟨s, by omega, hrest⟩

/-- The control store and the wait. -/
theorem of_runBatch {host : Host} {waitMode : WaitMode} {control : MappedRegion}
    (hr : IsControl control) {word : BitVec 32}
    (hm : Performs h (runBatch host waitMode control).run c c' (.ok word)) :
    ∃ g, c ≤ g ∧ Still h c g ∧ h.events g = [storeTo regControl controlCmdResetThenStart] ∧
      Still h (g + 1) c' ∧ Completes h (g + 1) c' word := by
  cases waitMode with
  | irq =>
      obtain ⟨_, d₁, hopen, hm⟩ := Performs.of_bind_ok hm
      obtain ⟨_, d₂, hack, hm⟩ := Performs.of_bind_ok hm
      obtain ⟨_, d₃, harm, hm⟩ := Performs.of_bind_ok hm
      obtain ⟨_, d₄, hgo, hm⟩ := Performs.of_bind_ok hm
      obtain ⟨_, d₅, hwait, hm⟩ := Performs.of_bind_ok hm
      obtain ⟨_, d₆, hack', hlook⟩ := Performs.of_bind_ok hm
      have hacks : Mild (control.writeU32 regIrqCtrlStatus irqCtrlEnableAndAck) := mild_writeIrq hr
      obtain ⟨g, hle, hlt, hbefore, hevent, hafter⟩ := of_writeControl hr hgo
      have hcalm := (((still_of_mild (mild_check _) hopen).append (still_of_mild hacks hack)).append
        (still_of_mild (mild_check _) harm)).append hbefore
      have hrest := ((hafter.append (still_of_mild (mild_check _) hwait)).append
        (still_of_mild hacks hack')).append
        (still_of_mild (mild_lookOr (mild_pollUntilComplete _ _)) hlook)
      have h₁ := hopen.le
      have h₂ := hack.le
      have h₃ := harm.le
      have h₅ := hwait.le
      have h₆ := hack'.le
      have hdone : Completes h d₆ c' word := by
        rcases of_lookOr hr hlook with hdone | ⟨d, hle', hpoll⟩
        · exact hdone
        · obtain ⟨s, hs, hrest⟩ := of_pollUntilComplete hr hpoll
          exact ⟨s, by omega, hrest⟩
      obtain ⟨s, hs, hdone⟩ := hdone
      exact ⟨g, by omega, hcalm, hevent, hrest, s, by omega, hdone⟩
  | poll | auto =>
      obtain ⟨_, d, hgo, hpoll⟩ := Performs.of_bind_ok hm
      obtain ⟨g, hle, hlt, hbefore, hevent, hafter⟩ := of_writeControl hr hgo
      obtain ⟨s, hs, hdone⟩ := of_pollUntilComplete hr hpoll
      exact ⟨g, hle, hbefore, hevent,
        hafter.append (still_of_mild (mild_pollUntilComplete _ _) hpoll), s, by omega, hdone⟩

/-! ### The timeline of a successful call -/

/-- What the checks of a request let through. -/
theorem of_checkRequest {request : HardwareBatchRequest} (h : checkRequest request = .ok ()) :
    (0 < request.message.length ∧ request.message.length ≤ messageSize) ∧
      0 < request.jobs.length ∧ request.jobs.length ≤ maxJobCount := by
  unfold checkRequest at h
  dsimp only [bind, Except.bind, pure, Except.pure, throw, throwThe, MonadExceptOf.throw] at h
  split_ifs at h with hmessage hjobs hsize hcount
  rw [List.isEmpty_iff_length_eq_zero] at hmessage hjobs
  omega

/-- The cycles in which the stores and loads of a call took effect. -/
structure Timeline where
  /-- The memories are stored. -/
  stored : ℕ
  messageLen : ℕ
  jobCount : ℕ
  verifyCfg : ℕ
  jobTimeout : ℕ
  batchId : ℕ
  /-- The store to `REG_CONTROL`. -/
  control : ℕ
  /-- The load of the completed status. -/
  status : ℕ

/-- The configuration stores of a call. -/
structure Timeline.Stores (t : Timeline) (h : History Access Answer) (c c' : ℕ)
    (request : HardwareBatchRequest) : Prop where
  memories : ∃ (message job : MappedRegion) (a b : ℕ), c ≤ a ∧ Calm h c t.stored ∧
    (message.region = .message ∧ message.size = messageSize) ∧
    (job.region = .job ∧ job.size = jobSize) ∧
    Performs h (message.writeBytes request.message).run a b (.ok ()) ∧
    Performs h (job.writeBytes (jobsBytes request.jobs)).run b t.stored (.ok ())
  messageLen : t.stored ≤ t.messageLen ∧ Still h t.stored t.messageLen ∧
    h.events t.messageLen = [storeTo regMessageLen (BitVec.ofNat 32 request.message.length)]
  jobCount : t.messageLen < t.jobCount ∧ Still h (t.messageLen + 1) t.jobCount ∧
    h.events t.jobCount = [storeTo regJobCount (BitVec.ofNat 32 request.jobs.length)]
  verifyCfg : t.jobCount < t.verifyCfg ∧ Still h (t.jobCount + 1) t.verifyCfg ∧
    h.events t.verifyCfg = [storeTo regVerifyCfg (verifyCfgWord request)]
  jobTimeout : t.verifyCfg < t.jobTimeout ∧ Still h (t.verifyCfg + 1) t.jobTimeout ∧
    h.events t.jobTimeout = [storeTo regJobTimeoutCycles request.jobTimeoutCycles]
  after : t.jobTimeout < c' ∧ Still h (t.jobTimeout + 1) c'

theorem of_writeBytes {r : MappedRegion} (hr : r.region ≠ .control) {data : Bytes} {u : Unit}
    (hm : Performs h (r.writeBytes data).run c c' (.ok u)) : Calm h c c' := by
  refine hm.all (all_writeBytes (fun offset value => ?_) data)
  cases hregion : r.region with
  | control => exact absurd hregion hr
  | message => exact trivial
  | job => exact trivial

/-- The stores of a request that has been stored. -/
theorem of_storeRequest {control message job : MappedRegion} {request : HardwareBatchRequest}
    {b : ℕ} (hcontrol : IsControl control)
    (hmessage : message.region = .message ∧ message.size = messageSize)
    (hjob : job.region = .job ∧ job.size = jobSize) (hb : b ≤ c) (hcalm : Calm h b c) {u : Unit}
    (hm : Performs h (storeRequest control message job request).run c c' (.ok u)) :
    ∃ t : Timeline, t.Stores h b c' request := by
  obtain ⟨_, d₁, hwrite, hm⟩ := Performs.of_bind_ok hm
  obtain ⟨_, d₂, hwrite', hm⟩ := Performs.of_bind_ok hm
  obtain ⟨_, d₃, hlen, hm⟩ := Performs.of_bind_ok hm
  obtain ⟨_, d₄, hcount, hm⟩ := Performs.of_bind_ok hm
  obtain ⟨_, d₅, hcfg, htimeout⟩ := Performs.of_bind_ok hm
  obtain ⟨w₁, hle₁, hlt₁, hbefore₁, hevent₁, hafter₁⟩ := of_writeControl hcontrol hlen
  obtain ⟨w₂, hle₂, hlt₂, hbefore₂, hevent₂, hafter₂⟩ := of_writeControl hcontrol hcount
  obtain ⟨w₃, hle₃, hlt₃, hbefore₃, hevent₃, hafter₃⟩ := of_writeControl hcontrol hcfg
  obtain ⟨w₄, hle₄, hlt₄, hbefore₄, hevent₄, hafter₄⟩ := of_writeControl hcontrol htimeout
  have hmemories : Calm h b d₂ := (hcalm.append (of_writeBytes (by simp [hmessage.1]) hwrite)).append
    (of_writeBytes (by simp [hjob.1]) hwrite')
  refine ⟨⟨d₂, w₁, w₂, w₃, w₄, 0, 0, 0⟩, ?_, ?_, ?_, ?_, ?_, ?_⟩
  · exact ⟨message, job, c, d₁, hb, hmemories, hmessage, hjob, hwrite, hwrite'⟩
  · exact ⟨hle₁, hbefore₁, hevent₁⟩
  · exact ⟨by show w₁ < w₂; omega, hafter₁.append hbefore₂, hevent₂⟩
  · exact ⟨by show w₂ < w₃; omega, hafter₂.append hbefore₃, hevent₃⟩
  · exact ⟨by show w₃ < w₄; omega, hafter₃.append hbefore₄, hevent₄⟩
  · exact ⟨hlt₄, hafter₄⟩

/-- What was read after the completion, and the result made of it. -/
structure Collects (h : History Access Answer) (c c' : ℕ) (expectedBatchId : BitVec 32)
    (result : HardwareBatchResult) : Prop where
  batchId : result.batchId = expectedBatchId ∧ Loaded h c c' regSnapshotBatchId result.batchId
  accepted : ∃ word, Loaded h c c' regSnapshotAccepted word ∧
    result.acceptedJobCount = word.extractLsb' 0 8
  completed : Loaded h c c' regSnapshotCompleted result.jobsCompleted
  dropped : Loaded h c c' regSnapshotDropped result.jobsDropped
  errStatus : ∃ word, Loaded h c c' regSnapshotErrStatus word ∧
    result.error = decide ((word >>> 8) &&& 1 ≠ 0) ∧
    result.resultValid = decide ((word >>> 9) &&& 1 ≠ 0) ∧ result.errorCode = word.extractLsb' 0 8
  mask : ∃ words : List (BitVec 32),
    List.Forall₂ (Loaded h c c') ((List.range 8).map fun index => regResultMaskBase + index * 4)
      words ∧
    result.resultMaskHex = resultMaskHex words ∧
    result.resultBits = maskBits words result.acceptedJobCount.toNat
  lastJobCycles : Loaded h c c' regLastJobCycles result.lastJobCycles
  lastBatchCycles : Loaded h c c' regLastBatchCycles result.lastBatchCycles

theorem of_readWords {control : MappedRegion} (hr : IsControl control) {offsets : List ℕ}
    {words : List (BitVec 32)} (hm : Performs h (readWords control offsets).run c c' (.ok words)) :
    List.Forall₂ (Loaded h c c') offsets words := by
  induction offsets generalizing c c' words with
  | nil =>
      obtain ⟨rfl, -⟩ := Performs.of_pure_ok hm
      exact .nil
  | cons offset offsets ih =>
      obtain ⟨word, d, hread, hm⟩ := Performs.of_bind_ok hm
      obtain ⟨rest, d', hrest, hm⟩ := Performs.of_bind_ok hm
      obtain ⟨rfl, hle, -⟩ := Performs.of_pure_ok hm
      have h₁ := hread.le
      have h₂ := hrest.le
      refine .cons ((of_readControl hr hread).mono le_rfl (by omega)) ?_
      exact (ih hrest).imp fun _ _ hl => hl.mono (by omega) hle

theorem of_collectResult {control : MappedRegion} (hr : IsControl control)
    {expectedBatchId : BitVec 32} {result : HardwareBatchResult}
    (hm : Performs h (collectResult control expectedBatchId).run c c' (.ok result)) :
    Collects h c c' expectedBatchId result := by
  obtain ⟨snapshot, d, hsnapshot, hm⟩ := Performs.of_bind_ok hm
  dsimp only at hm
  split at hm
  · exact (Performs.of_throw_ok hm).elim
  next hid =>
  obtain ⟨words, d₆, hwords, hm⟩ := Performs.of_bind_ok hm
  obtain ⟨lastJob, d₇, hjob, hm⟩ := Performs.of_bind_ok hm
  obtain ⟨lastBatch, d₈, hbatch, hm⟩ := Performs.of_bind_ok hm
  obtain ⟨rfl, hle₈, -⟩ := Performs.of_pure_ok hm
  obtain ⟨errStatus, d₁, herr, hm⟩ := Performs.of_bind_ok hsnapshot
  obtain ⟨batchId, d₂, hbatchId, hm⟩ := Performs.of_bind_ok hm
  obtain ⟨accepted, d₃, haccepted, hm⟩ := Performs.of_bind_ok hm
  obtain ⟨completed, d₄, hcompleted, hm⟩ := Performs.of_bind_ok hm
  obtain ⟨dropped, d₅, hdropped, hm⟩ := Performs.of_bind_ok hm
  obtain ⟨rfl, hle₅, -⟩ := Performs.of_pure_ok hm
  have h₁ := herr.le
  have h₂ := hbatchId.le
  have h₃ := haccepted.le
  have h₄ := hcompleted.le
  have h₅ := hdropped.le
  have h₆ := hwords.le
  have h₇ := hjob.le
  have h₈ := hbatch.le
  exact {
    batchId := ⟨not_not.mp hid, (of_readControl hr hbatchId).mono (by omega) (by omega)⟩
    accepted := ⟨accepted, (of_readControl hr haccepted).mono (by omega) (by omega), rfl⟩
    completed := (of_readControl hr hcompleted).mono (by omega) (by omega)
    dropped := (of_readControl hr hdropped).mono (by omega) (by omega)
    errStatus := ⟨errStatus, (of_readControl hr herr).mono (by omega) (by omega), rfl, rfl, rfl⟩
    mask := ⟨words, (of_readWords hr hwords).imp fun _ _ hl => hl.mono (by omega) (by omega), rfl, rfl⟩
    lastJobCycles := (of_readControl hr hjob).mono (by omega) (by omega)
    lastBatchCycles := (of_readControl hr hbatch).mono (by omega) hle₈ }

theorem Collects.mono {b : ℕ} {expectedBatchId : BitVec 32} {result : HardwareBatchResult}
    (hle : c ≤ b) (hc : Collects h b c' expectedBatchId result) :
    Collects h c c' expectedBatchId result := by
  have hmono : ∀ {offset word}, Loaded h b c' offset word → Loaded h c c' offset word :=
    fun hl => hl.mono hle le_rfl
  obtain ⟨accepted, haccepted, haccepted'⟩ := hc.accepted
  obtain ⟨errStatus, herr, herr'⟩ := hc.errStatus
  obtain ⟨words, hwords, hwords'⟩ := hc.mask
  exact ⟨⟨hc.batchId.1, hmono hc.batchId.2⟩, ⟨accepted, hmono haccepted, haccepted'⟩,
    hmono hc.completed, hmono hc.dropped, ⟨errStatus, hmono herr, herr'⟩,
    ⟨words, hwords.imp fun _ _ hl => hmono hl, hwords'⟩, hmono hc.lastJobCycles,
    hmono hc.lastBatchCycles⟩

/-- What a call that returns `Ok` has done. -/
structure Timeline.Succeeds (t : Timeline) (h : History Access Answer) (c c' : ℕ)
    (request : HardwareBatchRequest) (result : HardwareBatchResult) : Prop where
  checked : checkRequest request = .ok ()
  stores : ∃ d, t.Stores h c d request ∧ d ≤ t.batchId
  calm : Still h (t.jobTimeout + 1) t.batchId
  batchId : h.events t.batchId = [.load .control regBatchId]
  prepared : t.batchId < t.control ∧ Still h (t.batchId + 1) t.control
  control : h.events t.control = [storeTo regControl controlCmdResetThenStart]
  waited : t.control < t.status ∧ t.status < c' ∧ Still h (t.control + 1) c'
  status : h.events t.status = [.load .control regStatus] ∧
    ((decodeStatus (h.answer t.status (.load .control regStatus))).done ||
      (decodeStatus (h.answer t.status (.load .control regStatus))).error) = true
  collects : Collects h (t.status + 1) c' (h.answer t.batchId (.load .control regBatchId) + 1) result

/-- The order of events. -/
theorem Timeline.Succeeds.order {t : Timeline} {request : HardwareBatchRequest}
    {result : HardwareBatchResult} (ht : t.Succeeds h c c' request result) :
    c ≤ t.stored ∧ t.stored ≤ t.messageLen ∧ t.messageLen < t.jobCount ∧
      t.jobCount < t.verifyCfg ∧ t.verifyCfg < t.jobTimeout ∧ t.jobTimeout < t.batchId ∧
      t.batchId < t.control ∧ t.control < t.status ∧ t.status < c' := by
  obtain ⟨d, hstores, hle⟩ := ht.stores
  obtain ⟨_, _, a, b, hle_a, -, -, -, hwrite, hwrite'⟩ := hstores.memories
  have hle_b := hwrite.le
  have hle_s := hwrite'.le
  have hlt := hstores.after.1
  exact ⟨by omega, hstores.messageLen.1, hstores.jobCount.1, hstores.verifyCfg.1,
    hstores.jobTimeout.1, by omega, ht.prepared.1, ht.waited.1, ht.waited.2.1⟩

/-- What happens in a cycle of a call that returns `Ok`. -/
inductive Timeline.Event (t : Timeline) (h : History Access Answer) (k : ℕ) : Prop
  /-- The memories are being stored. -/
  | storing (before : k < t.stored) (harmless : ∀ o ∈ h.events k, Harmless o)
  | gentle (gentle : ∀ o ∈ h.events k, Gentle o)
  | config (offset : ℕ) (value : BitVec 32) (event : h.events k = [storeTo offset value])
      (config : offset ∈ [regMessageLen, regJobCount, regVerifyCfg, regJobTimeoutCycles])
  | control (event : h.events k = [storeTo regControl controlCmdResetThenStart])
      (launch : k = t.control)

/-- Every cycle of such a call is of one of these kinds. -/
theorem Timeline.Succeeds.event {t : Timeline} {request : HardwareBatchRequest}
    {result : HardwareBatchResult} (ht : t.Succeeds h c c' request result) {k : ℕ} (hk : c ≤ k)
    (hk' : k < c') : t.Event h k := by
  obtain ⟨d, hstores, -⟩ := ht.stores
  obtain ⟨_, _, _, _, -, hmemories, -⟩ := hstores.memories
  have hload : k = t.batchId → t.Event h k := by
    rintro rfl
    refine .gentle fun o ho => ?_
    rw [ht.batchId, List.mem_singleton] at ho
    rw [ho]
    trivial
  rcases Nat.lt_or_ge k t.stored with hlt | hge
  · exact .storing hlt (hmemories k hk hlt)
  rcases Nat.lt_trichotomy k t.messageLen with hlt₁ | rfl | hgt₁
  · exact .gentle (hstores.messageLen.2.1 k hge hlt₁)
  · exact .config _ _ hstores.messageLen.2.2 (by simp)
  rcases Nat.lt_trichotomy k t.jobCount with hlt₂ | rfl | hgt₂
  · exact .gentle (hstores.jobCount.2.1 k hgt₁ hlt₂)
  · exact .config _ _ hstores.jobCount.2.2 (by simp)
  rcases Nat.lt_trichotomy k t.verifyCfg with hlt₃ | rfl | hgt₃
  · exact .gentle (hstores.verifyCfg.2.1 k hgt₂ hlt₃)
  · exact .config _ _ hstores.verifyCfg.2.2 (by simp)
  rcases Nat.lt_trichotomy k t.jobTimeout with hlt₄ | rfl | hgt₄
  · exact .gentle (hstores.jobTimeout.2.1 k hgt₃ hlt₄)
  · exact .config _ _ hstores.jobTimeout.2.2 (by simp)
  rcases Nat.lt_trichotomy k t.batchId with hlt₅ | heq₅ | hgt₅
  · exact .gentle (ht.calm k hgt₄ hlt₅)
  · exact hload heq₅
  rcases Nat.lt_trichotomy k t.control with hlt₆ | rfl | hgt₆
  · exact .gentle (ht.prepared.2 k hgt₅ hlt₆)
  · exact .control ht.control rfl
  · exact .gentle (ht.waited.2.2 k hgt₆ hk')

theorem of_open {host : Host} {region : Region} {spec : RegionSpec} {size : ℕ} {r : MappedRegion}
    (hm : Performs h (MappedRegion.open host region spec size).run c c' (.ok r)) :
    r.region = region ∧ r.size = size := by
  obtain ⟨_, d, -, hm⟩ := Performs.of_bind_ok hm
  obtain ⟨rfl, -⟩ := Performs.of_pure_ok hm
  exact ⟨rfl, rfl⟩

/-- Every call that returns `Ok` has a timeline. -/
theorem of_verifyBatch {host : Host} {request : HardwareBatchRequest}
    {result : HardwareBatchResult}
    (hm : Performs h (verifyBatch host request).run c c' (.ok result)) :
    ∃ t : Timeline, t.Succeeds h c c' request result := by
  obtain ⟨⟨⟩, d₁, hcheck, hm⟩ := Performs.of_bind_ok hm
  obtain ⟨controlSpec, d₂, hspec, hm⟩ := Performs.of_bind_ok hm
  obtain ⟨messageSpec, d₃, hspec', hm⟩ := Performs.of_bind_ok hm
  obtain ⟨jobSpec, d₄, hspec'', hm⟩ := Performs.of_bind_ok hm
  obtain ⟨waitMode, d₅, hmode, hm⟩ := Performs.of_bind_ok hm
  dsimp only at hm
  split at hm
  · exact (Performs.of_throw_ok hm).elim
  obtain ⟨control, d₆, hopen, hm⟩ := Performs.of_bind_ok hm
  obtain ⟨identity, d₇, hidentity, hm⟩ := Performs.of_bind_ok hm
  obtain ⟨_, d₈, hfull, hm⟩ := Performs.of_bind_ok hm
  obtain ⟨message, d₉, hopen', hm⟩ := Performs.of_bind_ok hm
  obtain ⟨job, d₁₀, hopen'', hm⟩ := Performs.of_bind_ok hm
  obtain ⟨_, d₁₁, hstore, hm⟩ := Performs.of_bind_ok hm
  obtain ⟨batchId, d₁₂, hbatchId, hm⟩ := Performs.of_bind_ok hm
  obtain ⟨statusWord, d₁₃, hrun, hm⟩ := Performs.of_bind_ok hm
  split at hm
  · exact (Performs.of_throw_ok hm).elim
  have hcontrol : IsControl control := (of_open hopen).1
  have hbefore : Still h c d₁₀ :=
    ((((((((((still_of_mild (mild_check _) hcheck).append (still_of_mild (mild_check _) hspec)).append
      (still_of_mild (mild_check _) hspec')).append (still_of_mild (mild_check _) hspec'')).append
      (still_of_mild (mild_check _) hmode)).append (still_of_mild (mild_open _ _ _ _) hopen)).append
      (still_of_mild (mild_probeHardwareIdentity _) hidentity)).append
      (still_of_mild (mild_check _) hfull)).append (still_of_mild (mild_open _ _ _ _) hopen')).append
      (still_of_mild (mild_open _ _ _ _) hopen''))
  have hle : c ≤ d₁₀ := by
    have h₁ := hcheck.le
    have h₂ := hspec.le
    have h₃ := hspec'.le
    have h₄ := hspec''.le
    have h₅ := hmode.le
    have h₆ := hopen.le
    have h₇ := hidentity.le
    have h₈ := hfull.le
    have h₉ := hopen'.le
    have h₁₀ := hopen''.le
    omega
  obtain ⟨t, ht⟩ := of_storeRequest hcontrol (of_open hopen') (of_open hopen'') hle hbefore.calm hstore
  obtain ⟨e, hle_e, hlt_e, hquiet_e, hevent_e, hword_e, hafter_e⟩ := of_readU32 hbatchId
  obtain ⟨g, hle_g, hcalm_g, hevent_g, hafter_g, s, hle_s, hlt_s, hevent_s, hword_s, hdone⟩ :=
    of_runBatch hcontrol hrun
  rw [hcontrol] at hevent_e hword_e
  have hcollect := of_collectResult hcontrol hm
  have hle_end := hm.le
  refine ⟨{ t with batchId := e, control := g, status := s }, ?_⟩
  refine {
    checked := (of_check hcheck).1
    stores := ⟨d₁₁, ?_, hle_e⟩
    calm := ht.after.2.append (still_of_quiet hquiet_e)
    batchId := hevent_e
    prepared := ⟨by show e < g; omega, (still_of_quiet hafter_e).append hcalm_g⟩
    control := hevent_g
    waited := ⟨hle_s, by show s < c'; omega,
      hafter_g.append (still_of_mild (mild_collectResult _ _) hm)⟩
    status := ⟨hevent_s, by rw [← hword_s]; exact hdone⟩
    collects := ?_ }
  · obtain ⟨h₁, h₂, h₃, h₄, h₅, h₆⟩ := ht
    exact ⟨h₁, h₂, h₃, h₄, h₅, h₆⟩
  · rw [hword_e] at hcollect
    exact hcollect.mono hlt_s

end Accelerator

end Kv260Sigv
