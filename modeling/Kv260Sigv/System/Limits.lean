import Kv260Sigv.System.FrozenConfig

/-!
# Requests out of range

The limits are checked by the core, on the registers; the registers are written by the
bus.  `JOB_COUNT` is as wide as the bus.  `MESSAGE_LEN` has 16 bits, so of a word `L` the
core checks `L % 2 ^ 16`: a length that is out of range is refused as such exactly when
what is left of it is out of range too.
-/

set_option autoImplicit false

namespace Kv260Sigv

namespace SigvAxiRegs

variable {busy : Bool} {w : Write} {c : Config}

/-- A write elsewhere leaves the message length alone. -/
theorem newConfig_messageLength (h : alignedAddr w.addr ≠ addrMessageLen) :
    (newConfig busy w c).messageLength = c.messageLength := by
  unfold newConfig
  dsimp only
  rw [if_neg h]
  split_ifs <;> rfl

/-- A write elsewhere leaves the job count alone. -/
theorem newConfig_requestedJobCount (h : alignedAddr w.addr ≠ addrJobCount) :
    (newConfig busy w c).requestedJobCount = c.requestedJobCount := by
  unfold newConfig
  dsimp only
  rw [if_neg h]
  split_ifs <;> rfl

end SigvAxiRegs

namespace SigvKv260Core

/-- The core refuses with `code`, in its live registers and in the snapshot, and neither
loads nor starts a job. -/
structure ShowsRefusal (code : BitVec 8) (s : State) : Prop where
  busy : s.busy = false
  done : s.done = true
  error : s.error = true
  resultValid : s.resultValid = false
  errorCode : s.errorCode = code
  snapshotError : s.snapshot.error = true
  snapshotResultValid : s.snapshot.resultValid = false
  snapshotErrorCode : s.snapshot.errorCode = code
  loader : s.loaderState = .idle ∧ s.shadowValid = false
  starts : s.engine0.startPulse = false ∧ s.engine1.startPulse = false

variable {en : Bool} {i : Inputs} {s : State} {code : BitVec 8}

theorem showsRefusal_of_refuses (h : Refuses i s) :
    ShowsRefusal (refusalCode i.config) (step en i s) := by
  obtain ⟨m, -, hstep⟩ := step_of_refuses en h
  rw [hstep]
  exact ⟨rfl, rfl, rfl, rfl, rfl, rfl, rfl, rfl, ⟨rfl, rfl⟩, rfl, rfl⟩

/-- The refusal stays until the next command. -/
theorem ShowsRefusal.step (h : ShowsRefusal code s) (horderly : Orderly s)
    (hreset : i.softReset = false) (hstart : i.start = false) :
    ShowsRefusal code (step en i s) := by
  rw [step_of_rests (horderly.idle_of_done h.done) h.loader.1 hreset hstart]
  exact ⟨h.busy, h.done, h.error, h.resultValid, h.errorCode, h.snapshotError,
    h.snapshotResultValid, h.snapshotErrorCode, h.loader, rfl, rfl⟩

end SigvKv260Core

namespace ControlPlane

open SigvKv260Core SigvAxiRegs

section

variable (hwBuildMode : BitVec 32) (en : Bool) (inputs : ℕ → Inputs)

/-- The write that cycle `n` of the run applies. -/
def writtenAt (n : ℕ) : Option Write :=
  written (inputs n).axi (trace hwBuildMode en inputs n).regs

/-- Cycle `n` of the run writes `data` with all strobes to the register at `addr` while the
core is not busy, and no later write before cycle `c` touches that register. -/
structure Stores (addr : BitVec 8) (data : BitVec 32) (n c : ℕ) : Prop where
  before : n < c
  write : ∃ a, writtenAt hwBuildMode en inputs n = some ⟨a, data, 0xF⟩ ∧ alignedAddr a = addr
  idle : (trace hwBuildMode en inputs n).core.busy = false
  kept : ∀ j, n < j → j < c → ∀ w, writtenAt hwBuildMode en inputs j = some w →
    alignedAddr w.addr ≠ addr

/-- From cycle `n` on the core shows a refusal with `code`, until the next command. -/
def RefusedFrom (n : ℕ) (code : BitVec 8) : Prop :=
  ∀ m, n ≤ m → (∀ j, n ≤ j → j < m → (trace hwBuildMode en inputs j).regs.startPulse = false ∧
    (trace hwBuildMode en inputs j).regs.softResetPulse = false) →
      ShowsRefusal code (trace hwBuildMode en inputs m).core

/-- A launch with message length `L` and job count `J` out of range, commanded in cycle
`c`, is refused with the code of the value that is out of range. -/
def Guarded (L J : BitVec 32) (c : ℕ) : Prop :=
  ¬ (L.toNat ≤ 4096 ∧ 1 ≤ J.toNat ∧ J.toNat ≤ 255) →
    RefusedFrom hwBuildMode en inputs (c + 2)
      (if L.toNat > 4096 then errMessageLen else errJobCount)

end

variable {hwBuildMode : BitVec 32} {en : Bool} {inputs : ℕ → Inputs} {n c m : ℕ}
  {addr : BitVec 8} {L J : BitVec 32}

/-- The configuration after a cycle, by the write of the cycle. -/
theorem configAt_succ (n : ℕ) :
    configAt hwBuildMode en inputs (n + 1) =
      match writtenAt hwBuildMode en inputs n with
      | none => configAt hwBuildMode en inputs n
      | some w => newConfig (trace hwBuildMode en inputs n).core.busy w
          (configAt hwBuildMode en inputs n) := by
  cases hwritten : writtenAt hwBuildMode en inputs n with
  | none => exact (step_of_none _ _ hwritten).1
  | some w => exact (step_of_some _ _ hwritten).1

/-- What a stored register holds when the command comes. -/
theorem Stores.field {α : Type} {field : Config → α} (h : Stores hwBuildMode en inputs addr L n c)
    {value : α} (hother : ∀ busy w c, alignedAddr w.addr ≠ addr →
      field (newConfig busy w c) = field c)
    (hstore : ∀ a c, alignedAddr a = addr → field (newConfig false ⟨a, L, 0xF⟩ c) = value) :
    field (configAt hwBuildMode en inputs c) = value := by
  obtain ⟨hbefore, ⟨a, hwrite, haddr⟩, hidle, hkept⟩ := h
  induction c, hbefore using Nat.le_induction with
  | base =>
      rw [configAt_succ, hwrite]
      dsimp only
      rw [hidle]
      exact hstore a _ haddr
  | succ k hk ih =>
      have hlast := ih fun j hj hj' => hkept j hj (by omega)
      rw [configAt_succ]
      cases hwritten : writtenAt hwBuildMode en inputs k with
      | none => exact hlast
      | some w => exact (hother _ w _ (hkept k hk (Nat.lt_succ_self k) w hwritten)).trans hlast

theorem Stores.messageLength (h : Stores hwBuildMode en inputs addrMessageLen L n c) :
    (configAt hwBuildMode en inputs c).messageLength = L.setWidth 16 :=
  h.field (fun _ _ _ => newConfig_messageLength) fun a c ha => by
    rw [newConfig_messageLen ha]
    rfl

theorem Stores.requestedJobCount (h : Stores hwBuildMode en inputs addrJobCount J n c) :
    (configAt hwBuildMode en inputs c).requestedJobCount = J :=
  h.field (fun _ _ _ => newConfig_requestedJobCount) fun a c ha => by
    rw [newConfig_jobCount ha]
    rfl

/-- The cycle of a command leaves the configuration alone. -/
theorem configAt_of_command {k : ℕ} (h : commandAt hwBuildMode en inputs k c = true) :
    configAt hwBuildMode en inputs (c + 1) = configAt hwBuildMode en inputs c := by
  refine configAt_of_other fun w hw hconfig => ?_
  have hbit : commandBit w k = true := by
    rw [commandAt, command, hw] at h
    exact h
  by_cases hcontrol : alignedAddr w.addr = addrControl
  · rw [hcontrol] at hconfig
    revert hconfig
    decide
  · rw [commandBit_other hcontrol] at hbit
    cases hbit

/-- A refused launch shows its refusal until the next command. -/
theorem refusedFrom_of_refuses
    (h : Refuses (coreInputs (inputs n) (trace hwBuildMode en inputs n))
      (trace hwBuildMode en inputs n).core) :
    RefusedFrom hwBuildMode en inputs (n + 1)
      (refusalCode (configAt hwBuildMode en inputs n)) := by
  intro m hm hquiet
  induction m, hm using Nat.le_induction with
  | base => exact showsRefusal_of_refuses h
  | succ k hk ih =>
      obtain ⟨hstart, hreset⟩ := hquiet k hk (Nat.lt_succ_self k)
      exact (ih fun j hj hj' => hquiet j hj (by omega)).step
        (Linked.trace hwBuildMode en inputs k).orderly hreset hstart

/-- The launch checks on a stored request. -/
theorem launchable_iff {config : Config} (hL : config.messageLength = L.setWidth 16)
    (hJ : config.requestedJobCount = J) :
    config.Launchable ↔ L.toNat % 65536 ≤ 4096 ∧ 1 ≤ J.toNat ∧ J.toNat ≤ 255 := by
  have hlength : config.messageLength ≤ maxMessageBytes ↔ L.toNat % 65536 ≤ 4096 := by
    rw [hL, BitVec.le_def, BitVec.toNat_setWidth]
    rfl
  have hpos : config.requestedJobCount ≠ 0 ↔ 1 ≤ J.toNat := by
    rw [hJ, Nat.one_le_iff_ne_zero]
    exact not_congr ⟨fun h => by rw [h]; rfl, fun h => BitVec.eq_of_toNat_eq h⟩
  have hcount : config.requestedJobCount ≤ maxJobCount ↔ J.toNat ≤ 255 := by
    rw [hJ, BitVec.le_def]
    rfl
  rw [Config.Launchable, hlength, hpos, hcount]

theorem refusalCode_eq {config : Config} (hL : config.messageLength = L.setWidth 16) :
    refusalCode config = if L.toNat % 65536 > 4096 then errMessageLen else errJobCount := by
  have hlength : config.messageLength > maxMessageBytes ↔ L.toNat % 65536 > 4096 := by
    rw [hL, gt_iff_lt, BitVec.lt_def, BitVec.toNat_setWidth]
    rfl
  unfold refusalCode
  by_cases hlarge : L.toNat % 65536 > 4096
  · rw [if_pos hlarge, if_pos (hlength.mpr hlarge)]
  · rw [if_neg hlarge, if_neg fun h => hlarge (hlength.mp h)]

/-- An out-of-range request is refused as such exactly when its message length is in range
or does not come into range by losing its upper half. -/
theorem guarded_iff (hwBuildMode : BitVec 32) (en : Bool) (inputs : ℕ → Inputs)
    (L J : BitVec 32) (a b c : ℕ)
    (hL : Stores hwBuildMode en inputs addrMessageLen L a c)
    (hJ : Stores hwBuildMode en inputs addrJobCount J b c)
    (hlaunch : LaunchCommand hwBuildMode en inputs c) :
    Guarded hwBuildMode en inputs L J c ↔ L.toNat ≤ 4096 ∨ 4096 < L.toNat % 65536 := by
  have hconfig := configAt_of_command hlaunch.1
  have hlength : (configAt hwBuildMode en inputs (c + 1)).messageLength = L.setWidth 16 := by
    rw [hconfig, hL.messageLength]
  have hcount : (configAt hwBuildMode en inputs (c + 1)).requestedJobCount = J := by
    rw [hconfig, hJ.requestedJobCount]
  have hcheck := launchable_iff hlength hcount
  have hcode := refusalCode_eq hlength
  constructor
  · intro hguarded
    by_contra hcond
    obtain ⟨hbig, hwrapped⟩ := not_or.mp hcond
    have hrefusal := hguarded (fun hrange => hbig hrange.1) (c + 2) le_rfl
      fun j hj hj' => absurd hj' (by omega)
    rw [if_pos (by omega)] at hrefusal
    by_cases hfits : (configAt hwBuildMode en inputs (c + 1)).Launchable
    · have hfresh := step_of_accepts en ⟨hlaunch.starts, hfits⟩
      exact absurd (hfresh.busy.symm.trans hrefusal.busy) (by decide)
    · have hother := (refusedFrom_of_refuses ⟨hlaunch.starts, hfits⟩) (c + 2) le_rfl
        fun j hj hj' => absurd hj' (by omega)
      rw [hcode, if_neg (by omega)] at hother
      exact absurd (hrefusal.errorCode.symm.trans hother.errorCode) (by decide)
  · intro hcond hrange
    have hrefused : ¬ (configAt hwBuildMode en inputs (c + 1)).Launchable := by
      rw [hcheck]
      omega
    have hfrom := refusedFrom_of_refuses ⟨hlaunch.starts, hrefused⟩
    rw [hcode] at hfrom
    have hsame : (if L.toNat % 65536 > 4096 then errMessageLen else errJobCount) =
        if L.toNat > 4096 then errMessageLen else errJobCount := by
      have hiff : L.toNat % 65536 > 4096 ↔ L.toNat > 4096 := by omega
      simp only [hiff]
    rw [← hsame]
    exact hfrom

/-! ### Two lengths out of range -/

/-- A message length and one job, then a launch. -/
def requestOf (L : BitVec 32) : ℕ → Inputs :=
  scripted [busWrite addrMessageLen L, quietBus, busWrite addrJobCount 1, quietBus,
    busWrite addrControl 1]

/-- The later writes, checked one by one. -/
theorem Stores.of_all (hbefore : n < c)
    (hwrite : writtenAt hwBuildMode en inputs n = some ⟨addr, L, 0xF⟩)
    (haddr : alignedAddr addr = addr)
    (hidle : (trace hwBuildMode en inputs n).core.busy = false)
    (hkept : ∀ j < c, n < j → (writtenAt hwBuildMode en inputs j).all
      (fun w => decide (alignedAddr w.addr ≠ addr)) = true) :
    Stores hwBuildMode en inputs addr L n c := by
  refine ⟨hbefore, ⟨addr, hwrite, haddr⟩, hidle, ?_⟩
  intro j hj hj' w hw
  have hall := hkept j hj' hj
  rw [hw] at hall
  exact of_decide_eq_true hall

theorem guarded_iff_70000 :
    Guarded 0 false (requestOf 70000) 70000 1 4 ↔
      (70000 : BitVec 32).toNat ≤ 4096 ∨ 4096 < (70000 : BitVec 32).toNat % 65536 := by
  refine guarded_iff 0 false (requestOf 70000) 70000 1 0 2 4 ?_ ?_ ?_
  · exact .of_all (by decide) (by decide +kernel) (by decide) (by decide +kernel)
      (by decide +kernel)
  · exact .of_all (by decide) (by decide +kernel) (by decide) (by decide +kernel)
      (by decide +kernel)
  · exact ⟨by decide +kernel, Or.inr (by decide +kernel)⟩

/-- A message of 65536 bytes is taken for an empty one, and its job is run. -/
theorem oversized_accepted :
    ¬ ∀ (hwBuildMode : BitVec 32) (en : Bool) (inputs : ℕ → Inputs) (L J : BitVec 32)
      (a b c : ℕ), Stores hwBuildMode en inputs addrMessageLen L a c →
        Stores hwBuildMode en inputs addrJobCount J b c →
          LaunchCommand hwBuildMode en inputs c → Guarded hwBuildMode en inputs L J c := by
  intro h
  have hguarded := h 0 false (requestOf 65536) 65536 1 0 2 4
    (.of_all (by decide) (by decide +kernel) (by decide) (by decide +kernel) (by decide +kernel))
    (.of_all (by decide) (by decide +kernel) (by decide) (by decide +kernel) (by decide +kernel))
    ⟨by decide +kernel, Or.inr (by decide +kernel)⟩ (by decide) 6 le_rfl
    fun j hj hj' => absurd hj' (by omega)
  have hbusy : (trace 0 false (requestOf 65536) 6).core.busy = true := by decide +kernel
  exact Bool.false_ne_true (hguarded.busy.symm.trans hbusy)

end ControlPlane

end Kv260Sigv
