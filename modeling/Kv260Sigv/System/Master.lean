import Kv260Sigv.Daemon.Conduct
import Kv260Sigv.Daemon.Payload
import Kv260Sigv.System.Batch
import Kv260Sigv.System.Session

/-!
# A bus master

That a driver program can be performed on the device at all: from a bus at rest, a
store or a load takes one cycle and the answer channel one more.  A property of the
device that endures such cycles, counted down if need be, survives the storing of a
request; that is all a call needs up to its launch.
-/

set_option autoImplicit false

namespace Kv260Sigv

open Accelerator SigvAxiRegs
open SigvKv260Core (Underway Concluded status)

namespace Device

/-! ### The bus -/

/-- Nothing under way on the bus. -/
structure Ready (d : Device) : Prop where
  awSeen : d.regs.awSeen = false
  wSeen : d.regs.wSeen = false
  bvalid : d.regs.bvalid = false
  rvalid : d.regs.rvalid = false

/-- A master that only takes answers. -/
def rest (latency : ℕ) : Inputs where
  axi := ⟨0, false, 0, 0, false, true, 0, false, true⟩
  messageStore := none
  jobStore := none
  latency := latency

/-- The cycle in which an access is made. -/
def drive (latency : ℕ) : Access → Inputs
  | .load _ offset =>
      { rest latency with axi := ⟨0, false, 0, 0, false, true, BitVec.ofNat 8 offset, true, true⟩ }
  | .store .control offset value strobe =>
      { rest latency with axi := ⟨BitVec.ofNat 8 offset, true, value, strobe, true, true, 0, false, true⟩ }
  | .store .message offset value _ => { rest latency with messageStore := some (offset, value) }
  | .store .job offset value _ => { rest latency with jobStore := some (offset, value) }

/-- The accesses a master can make. -/
def Offered : Access → Prop
  | .load region offset => region = .control ∧ offset < 256
  | .store .control offset _ _ => offset < 256
  | .store .message _ _ strobe => strobe = 0xF
  | .store .job _ _ strobe => strobe = 0xF

variable {engine : EngineVerdict} {d : Device} {o : Access} {latency : ℕ}

theorem accesses_drive (hd : Ready d) (ho : Offered o) : accesses (drive latency o) d = [o] := by
  obtain ⟨haw, hw, hb, hr⟩ := hd
  cases o with
  | load region offset =>
      obtain ⟨rfl, hlt⟩ := ho
      simp [accesses, drive, rest, written, accepted, awHandshake, wHandshake, arHandshake, haw, hw,
        hb, hr, Nat.mod_eq_of_lt hlt]
  | store region offset value strobe =>
      cases region with
      | control =>
          simp [accesses, drive, rest, written, accepted, awHandshake, wHandshake, arHandshake, haw,
            hw, hb, Nat.mod_eq_of_lt (show offset < 256 from ho)]
      | message =>
          have hstrobe : strobe = 0xF := ho
          simp [accesses, drive, rest, written, accepted, awHandshake, wHandshake, arHandshake, haw,
            hw, hstrobe]
      | job =>
          have hstrobe : strobe = 0xF := ho
          simp [accesses, drive, rest, written, accepted, awHandshake, wHandshake, arHandshake, haw,
            hw, hstrobe]

/-- No write is half way. -/
def Unwritten (d : Device) : Prop := d.regs.awSeen = false ∧ d.regs.wSeen = false

theorem accesses_rest (hd : Unwritten d) : accesses (rest latency) d = [] := by
  simp [accesses, rest, written, accepted, awHandshake, wHandshake, arHandshake, hd.1, hd.2]

theorem ready_rest (hd : Unwritten d) : Ready (step engine (rest latency) d) := by
  have hnone : written (rest latency).axi d.regs = none := by
    simp [rest, written, awHandshake, wHandshake, hd.1, hd.2]
  have hregs : (step engine (rest latency) d).regs =
      SigvAxiRegs.step 0 (status d.bench.core) (rest latency).axi d.regs := rfl
  constructor <;> rw [hregs, SigvAxiRegs.step, hnone] <;>
    simp [rest, awHandshake, wHandshake, arHandshake, hd.1, hd.2]

theorem unwritten_drive (hd : Ready d) (ho : Offered o) :
    Unwritten (step engine (drive latency o) d) := by
  have hregs : (step engine (drive latency o) d).regs =
      SigvAxiRegs.step 0 (status d.bench.core) (drive latency o).axi d.regs := rfl
  rw [Unwritten, hregs, SigvAxiRegs.step]
  cases hwritten : written (drive latency o).axi d.regs with
  | some w => exact ⟨rfl, rfl⟩
  | none =>
      cases o with
      | load region offset => simp [drive, rest, awHandshake, wHandshake, hd.awSeen, hd.wSeen]
      | store region offset value strobe =>
          cases region with
          | control =>
              have hlt : offset < 256 := ho
              simp [drive, rest, written, awHandshake, wHandshake, hd.awSeen, hd.wSeen,
                hd.bvalid] at hwritten
          | message => simp [drive, rest, awHandshake, wHandshake, hd.awSeen, hd.wSeen]
          | job => simp [drive, rest, awHandshake, wHandshake, hd.awSeen, hd.wSeen]

/-- An access and the cycle in which its answer is taken. -/
theorem plays_access {P : Device → Prop} {Q : Answer o → Device → Prop} (latency : ℕ)
    (ho : Offered o)
    (h : ∀ d, Ready d → P d →
      Q (answer d o) (step engine (rest latency) (step engine (drive latency o) d))) :
    (machine engine).Plays (fun d => Ready d ∧ P d) (Program.access o)
      fun a d => Ready d ∧ Q a d := by
  refine Machine.Plays.access ?_
  rintro d ⟨hd, hP⟩
  have hmid : Unwritten (step engine (drive latency o) d) := unwritten_drive hd ho
  refine ⟨fun k => if k = 0 then drive latency o else rest latency, 1, accesses_drive hd ho, ?_,
    ready_rest hmid, h d hd hP⟩
  intro k hpos hlt
  obtain rfl : k = 1 := by omega
  exact accesses_rest hmid

/-- Cycles without an access. -/
theorem plays_wait {P Q : Device → Prop} (latency : ℕ)
    (h : ∀ d, Ready d → P d → ∃ n, Q (run engine (fun _ => rest latency) d n)) :
    (machine engine).Plays (fun d => Ready d ∧ P d) (.pure ())
      fun _ d => Ready d ∧ Q d := by
  refine Machine.Plays.wait ?_
  rintro d ⟨hd, hP⟩
  obtain ⟨n, hQ⟩ := h d hd hP
  have hready : ∀ k, Ready (run engine (fun _ => rest latency) d k) := by
    intro k
    induction k with
    | zero => exact hd
    | succ k ih => exact ready_rest ⟨ih.awSeen, ih.wSeen⟩
  exact ⟨fun _ => rest latency, n, fun k _ => accesses_rest ⟨(hready k).awSeen, (hready k).wSeen⟩,
    hready n, hQ⟩

/-! ### What endures -/

/-- No command is on its way to the core. -/
structure Calmed (d : Device) : Prop where
  start : d.regs.startPulse = false
  reset : d.regs.softResetPulse = false
  hold : d.regs.statusClearHold = false

/-- A property of the core and its engine that lasts, counted down by the cycles without
a command in which the watchdog is off. -/
structure Endures (latency : ℕ) (busy : Bool) (P : ℕ → Bench → Prop) : Prop where
  busy : ∀ {R b}, P R b → b.core.busy = busy
  step : ∀ {R b} {i : Bench.Inputs}, i.start = false → i.softReset = false →
    i.latency0 = latency → i.config.jobTimeoutCycles = 0 → P (R + 1) b →
    P R (Bench.step false i b)

/-- The property, and the configuration. -/
structure Holding (P : ℕ → Bench → Prop) (c : Config) (R : ℕ) (d : Device) : Prop where
  bench : P R d.bench
  calmed : Calmed d
  config : d.regs.config = c

section endures

variable {P : ℕ → Bench → Prop} {busy : Bool} {c : Config} {R : ℕ} {i : Inputs}

theorem Holding.bench_step (hP : Endures latency busy P) (hc : c.jobTimeoutCycles = 0)
    (hi : i.latency = latency) (h : Holding P c (R + 1) d) : P R (step engine i d).bench := by
  refine hP.step h.calmed.start h.calmed.reset hi ?_ h.bench
  show d.regs.config.jobTimeoutCycles = 0
  rw [h.config]
  exact hc

/-- A harmless cycle. -/
theorem Holding.harmless (hP : Endures latency busy P) (hc : c.jobTimeoutCycles = 0)
    (hi : i.latency = latency) (h : Holding P c (R + 1) d) (ho : ∀ o ∈ accesses i d, Harmless o) :
    Holding P c R (step engine i d) := by
  obtain ⟨hconfig, hstart, hreset, hhold⟩ := step_harmless engine ho
  exact ⟨h.bench_step hP hc hi, ⟨hstart, hreset, hhold⟩, hconfig.trans h.config⟩

theorem Holding.rest (hP : Endures latency busy P) (hc : c.jobTimeoutCycles = 0)
    (h : Holding P c (R + 1) d) (hd : Unwritten d) :
    Holding P c R (step engine (Device.rest latency) d) := by
  refine h.harmless hP hc rfl ?_
  rw [accesses_rest hd]
  intro o ho
  contradiction

/-- The cycle of a store to a configuration register. -/
theorem Holding.store (hP : Endures latency busy P) (hc : c.jobTimeoutCycles = 0) {offset : ℕ}
    {value : BitVec 32} (hi : i.latency = latency) (h : Holding P c (R + 1) d)
    (ho : accesses i d = [storeTo offset value])
    (hoffset : alignedAddr (BitVec.ofNat 8 offset) ≠ addrControl) :
    Holding P (newConfig busy ⟨BitVec.ofNat 8 offset, value, 0xF⟩ c) R (step engine i d) := by
  obtain ⟨hconfig, hstart, hreset, hhold⟩ := step_store engine ho
  have hlow : ∀ k, commandBit ⟨BitVec.ofNat 8 offset, value, 0xF⟩ k = false :=
    commandBit_other hoffset
  rw [hlow] at hstart hreset hhold
  rw [hlow] at hhold
  rw [hP.busy h.bench, h.config] at hconfig
  exact ⟨h.bench_step hP hc hi, ⟨hstart, hreset, hhold⟩, hconfig⟩

end endures

/-! ### Driver code on a ready device -/

instance : Inhabited Inputs := ⟨rest 0⟩

/-- A region at the start of its page. -/
def plainRegion (region : Region) (size : ℕ) : MappedRegion := ⟨region, 0, size⟩

theorem checkedWordStart_plain {region : Region} {size offset : ℕ} (operation : String)
    (hsize : size < 2 ^ 64) (hoffset : offset + 4 ≤ size) (halign : offset % 4 = 0) :
    (plainRegion region size).checkedWordStart offset operation = .ok offset := by
  have hlast : checkedAdd offset 4 = some (offset + 4) := if_pos (by omega)
  have hstart : checkedAdd 0 offset = some offset := by
    rw [checkedAdd, Nat.zero_add]
    exact if_pos (by omega)
  simp only [MappedRegion.checkedWordStart, hlast, plainRegion, hstart]
  rw [if_neg (by omega), if_neg (by omega)]
  rfl

section driver

variable {P : ℕ → Bench → Prop} {busy : Bool} {c : Config} {R : ℕ}

/-- The bus is at rest and the property holds. -/
abbrev Idle (P : ℕ → Bench → Prop) (c : Config) (R : ℕ) (d : Device) : Prop :=
  Ready d ∧ Holding P c R d

theorem succeeds_check {P : Device → Prop} {α : Type} (a : α) :
    (machine engine).Succeeds P (Driver.check (.ok a)) fun b d => b = a ∧ P d :=
  Machine.Succeeds.pure fun _ hd => ⟨rfl, hd⟩

/-- A harmless access. -/
theorem succeeds_harmless (hP : Endures latency busy P) (hc : c.jobTimeoutCycles = 0)
    (ho : Offered o) (hharmless : Harmless o) :
    (machine engine).Succeeds (Idle P c (R + 2)) (Driver.access o) fun a d =>
      Idle P c R d ∧ ∃ d' : Device, Holding P c (R + 2) d' ∧ a = answer d' o ∧
        d.bench.core.batchId = d'.bench.core.batchId := by
  refine Machine.Succeeds.lift ?_
  refine (plays_access latency ho (Q := fun a d => Holding P c R d ∧ ∃ d' : Device,
    Holding P c (R + 2) d' ∧ a = answer d' o ∧
      d.bench.core.batchId = d'.bench.core.batchId) ?_).mono (fun _ h => h) fun _ _ h => ?_
  · intro d hd h
    have hmid : Unwritten (step engine (drive latency o) d) := unwritten_drive hd ho
    have hfirst : Holding P c (R + 1) (step engine (drive latency o) d) := by
      refine h.harmless hP hc (by cases o with
        | load region offset => rfl
        | store region offset value strobe => cases region <;> rfl) ?_
      rw [accesses_drive hd ho]
      intro o' ho'
      rw [List.mem_singleton.mp ho']
      exact hharmless
    refine ⟨hfirst.rest hP hc hmid, d, h, rfl, ?_⟩
    exact (SigvKv260Core.step_batchId hfirst.calmed.start).trans
      (SigvKv260Core.step_batchId h.calmed.start)
  · exact ⟨⟨h.1, h.2.1⟩, h.2.2⟩

/-- A load from a control register. -/
theorem succeeds_readU32 (hP : Endures latency busy P) (hc : c.jobTimeoutCycles = 0) {offset : ℕ}
    (hoffset : offset < 256) (halign : offset % 4 = 0) :
    (machine engine).Succeeds (Idle P c (R + 2))
      ((plainRegion .control controlSize).readU32 offset) fun word d =>
      Idle P c R d ∧ ∃ d' : Device, Holding P c (R + 2) d' ∧ word = d'.loaded .control offset ∧
        d.bench.core.batchId = d'.bench.core.batchId := by
  have hsize : controlSize = 4096 := rfl
  rw [MappedRegion.readU32, checkedWordStart_plain "read" (by omega) (by omega) halign]
  refine Machine.Succeeds.bind (succeeds_check _) fun a => ?_
  have hoffered : Offered (.load .control offset) := ⟨rfl, hoffset⟩
  exact (succeeds_harmless hP hc hoffered trivial).mono (fun _ h => h.2) fun _ _ h => h

/-- A store to a memory. -/
theorem succeeds_writeMemory (hP : Endures latency busy P) (hc : c.jobTimeoutCycles = 0)
    {region : Region} (hregion : region ≠ .control) {size offset : ℕ} {value : BitVec 32}
    (hsize : size < 2 ^ 64) (hoffset : offset + 4 ≤ size) (halign : offset % 4 = 0) :
    (machine engine).Succeeds (Idle P c (R + 2))
      ((plainRegion region size).writeU32 offset value) fun _ d => Idle P c R d := by
  rw [MappedRegion.writeU32, checkedWordStart_plain "write" hsize hoffset halign]
  refine Machine.Succeeds.bind (succeeds_check _) fun a => ?_
  have hoffered : Offered (.store region offset value 0xF) := by
    cases region with
    | control => contradiction
    | message => rfl
    | job => rfl
  have hharmless : Harmless (.store region offset value 0xF) := by
    cases region with
    | control => contradiction
    | message => trivial
    | job => trivial
  exact (succeeds_harmless hP hc hoffered hharmless).mono (fun _ h => h.2) fun _ _ h => h.1

/-- A store to a configuration register. -/
theorem succeeds_writeConfig (hP : Endures latency busy P) (hc : c.jobTimeoutCycles = 0)
    {offset : ℕ} {value : BitVec 32} (c' : Config) (hlt : offset < 256) (halign : offset % 4 = 0)
    (hcontrol : alignedAddr (BitVec.ofNat 8 offset) ≠ addrControl)
    (hc' : newConfig busy ⟨BitVec.ofNat 8 offset, value, 0xF⟩ c = c')
    (hzero : c'.jobTimeoutCycles = 0) :
    (machine engine).Succeeds (Idle P c (R + 2))
      ((plainRegion .control controlSize).writeU32 offset value) fun _ d => Idle P c' R d := by
  have hsize : controlSize = 4096 := rfl
  rw [MappedRegion.writeU32, checkedWordStart_plain "write" (by omega) (by omega) halign]
  refine Machine.Succeeds.bind (succeeds_check _) fun a => ?_
  have hoffered : Offered (storeTo offset value) := hlt
  refine Machine.Succeeds.mono (Machine.Succeeds.lift (plays_access latency hoffered
    (P := Holding P c (R + 2)) (Q := fun _ d => Holding P c' R d) ?_)) (fun _ h => h.2) fun _ _ h => h
  intro d hd h
  have hfirst : Holding P (newConfig busy ⟨BitVec.ofNat 8 offset, value, 0xF⟩ c) (R + 1)
      (step engine (drive latency (storeTo offset value)) d) :=
    h.store hP hc rfl (accesses_drive hd hoffered) hcontrol
  rw [hc'] at hfirst
  exact hfirst.rest hP hzero (unwritten_drive hd hoffered)

/-- Storing words into a memory. -/
theorem succeeds_writeWords (hP : Endures latency busy P) (hc : c.jobTimeoutCycles = 0)
    {region : Region} (hregion : region ≠ .control) {size : ℕ} (hsize : size < 2 ^ 64)
    (words : List (BitVec 32)) :
    ∀ (offset R : ℕ), offset % 4 = 0 → offset + 4 * words.length ≤ size →
      (machine engine).Succeeds (Idle P c (R + 2 * words.length))
        (writeWords (plainRegion region size).writeU32 offset words) fun _ d => Idle P c R d := by
  induction words with
  | nil =>
      intro offset R _ _
      exact Machine.Succeeds.pure fun _ h => h
  | cons word words ih =>
      intro offset R halign hle
      rw [List.length_cons] at hle ⊢
      refine Machine.Succeeds.bind (succeeds_writeMemory hP hc hregion hsize (by omega) halign)
        fun _ => ?_
      exact ih (offset + 4) R (by omega) (by omega)

/-- Storing a payload. -/
theorem succeeds_writeBytes (hP : Endures latency busy P) (hc : c.jobTimeoutCycles = 0)
    {region : Region} (hregion : region ≠ .control) {size : ℕ} (hsize : size < 2 ^ 64)
    (halign : size % 4 = 0) {data : Bytes} (hdata : data.length ≤ size) {n : ℕ}
    (hn : n = R + 2 * (size / 4)) :
    (machine engine).Succeeds (Idle P c n)
      ((plainRegion region size).writeBytes data) fun _ d => Idle P c R d := by
  have hwords := length_payloadWords data
  have hlength : (payloadWords data ++
      List.replicate (size / 4 - (payloadWords data).length) (0 : BitVec 32)).length = size / 4 := by
    rw [List.length_append, List.length_replicate]
    omega
  have hstore : (machine engine).Succeeds (Idle P c (R + 2 * _))
      (writeWords (plainRegion region size).writeU32 0 _) fun _ d => Idle P c R d :=
    succeeds_writeWords hP hc hregion hsize
      (payloadWords data ++ List.replicate (size / 4 - (payloadWords data).length) 0) 0 R rfl
      (by omega)
  rw [hlength, ← hn] at hstore
  refine Machine.Plays.of_not (show ¬ data.length > size by omega) ?_
  exact Machine.Plays.of_not (show ¬ size % 4 ≠ 0 by omega) hstore

/-- A host on which everything works, and which polls. -/
def plainHost (polls : ℕ) : Host where
  waitMode := .poll
  resolveRegion := fun _ => .ok ⟨false, 0⟩
  pageSize := 4096
  openRegion := fun _ => .ok ()
  openInterrupt := .ok ()
  armInterrupt := .ok ()
  waitInterrupt := .ok ()
  polls := polls

theorem succeeds_open {P : Device → Prop} (polls : ℕ) (region : Region) (size : ℕ) :
    (machine engine).Succeeds P (MappedRegion.open (plainHost polls) region ⟨false, 0⟩ size)
      fun r d => r = plainRegion region size ∧ P d :=
  Machine.Succeeds.bind (succeeds_check ()) fun _ => Machine.Succeeds.pure fun _ h => ⟨rfl, h.2⟩

/-- The device is the full build. -/
theorem succeeds_identity (hP : Endures latency busy P) (hc : c.jobTimeoutCycles = 0) :
    (machine engine).Succeeds (Idle P c (R + 4))
      (probeHardwareIdentity (plainRegion .control controlSize)) fun identity d =>
      requireFullHardware identity = .ok () ∧ Idle P c R d := by
  refine Machine.Succeeds.bind (succeeds_readU32 (R := R + 2) hP hc (by decide) (by decide))
    fun magic => ?_
  by_cases hmagic : magic = Accelerator.hwMagic
  · refine Machine.Plays.of_not (not_not.mpr hmagic) ?_
    refine Machine.Succeeds.bind ((succeeds_readU32 (R := R) hP hc (by decide) (by decide)).mono
      (fun _ h => h.1) fun _ _ h => h) fun build => ?_
    refine Machine.Succeeds.pure ?_
    rintro d ⟨hidle, d', -, rfl, -⟩
    have hbuild : d'.loaded .control regHwBuild = 0x100 := rfl
    rw [hbuild]
    exact ⟨by decide, hidle⟩
  · intro d hd
    obtain ⟨-, d', -, rfl, -⟩ := hd
    exact absurd rfl hmagic

theorem merged_timeout {request c : Config} (hc : c.jobTimeoutCycles = 0)
    (hzero : request.jobTimeoutCycles = 0) (busy₁ busy₂ busy₃ busy₄ : Bool) :
    (merged request c busy₁ busy₂ busy₃ busy₄).jobTimeoutCycles = 0 := by
  rw [merged]
  dsimp only
  split
  · exact hc
  · exact hzero

/-- Storing a request. -/
theorem succeeds_storeRequest (hP : Endures latency busy P) {request : HardwareBatchRequest}
    (hmessage : request.message.length ≤ messageSize)
    (hjobs : (jobsBytes request.jobs).length ≤ jobSize) (hc : c.jobTimeoutCycles = 0)
    (hzero : request.jobTimeoutCycles = 0) :
    (machine engine).Succeeds (Idle P c (R + 18440))
      (storeRequest (plainRegion .control controlSize) (plainRegion .message messageSize)
        (plainRegion .job jobSize) request) fun _ d =>
      Idle P (merged request.config c busy busy busy busy) R d := by
  have htimeout : ∀ busy₁ busy₂ busy₃ busy₄ : Bool,
      (merged request.config c busy₁ busy₂ busy₃ busy₄).jobTimeoutCycles = 0 :=
    merged_timeout hc hzero
  have hsize : messageSize = 4096 := rfl
  have hsize' : jobSize = 32768 := rfl
  obtain ⟨hlimit, hmode⟩ := verifyCfg_fields request.config
  refine Machine.Succeeds.bind (succeeds_writeBytes (R := R + 16392) hP hc (by decide)
    (show messageSize < 2 ^ 64 by decide) (by decide) hmessage (by omega))
    fun _ => ?_
  refine Machine.Succeeds.bind (succeeds_writeBytes (R := R + 8) hP hc (by decide)
    (show jobSize < 2 ^ 64 by decide) (by decide) hjobs (by omega)) fun _ => ?_
  refine Machine.Succeeds.bind (succeeds_writeConfig (R := R + 6) hP hc
    (merged request.config c busy true true true) (by decide) (by decide) (by decide) ?_
    (htimeout _ _ _ _)) fun _ => ?_
  · rw [newConfig_messageLen alignedMessageLen, setWidth_length]
    cases busy <;> rfl
  refine Machine.Succeeds.bind (succeeds_writeConfig (R := R + 4) hP (htimeout _ _ _ _)
    (merged request.config c busy busy true true) (by decide) (by decide) (by decide) ?_
    (htimeout _ _ _ _)) fun _ => ?_
  · rw [newConfig_jobCount alignedJobCount]
    cases busy <;> rfl
  refine Machine.Succeeds.bind (succeeds_writeConfig (R := R + 2) hP (htimeout _ _ _ _)
    (merged request.config c busy busy busy true) (by decide) (by decide) (by decide) ?_
    (htimeout _ _ _ _)) fun _ => ?_
  · rw [newConfig_verifyCfg alignedVerifyCfg, verifyCfgWord_eq, hlimit, hmode]
    cases busy <;> rfl
  refine succeeds_writeConfig (R := R) hP (htimeout _ _ _ _) _ (by decide) (by decide)
    (by decide) ?_ (htimeout _ _ _ _)
  rw [newConfig_jobTimeoutCycles alignedJobTimeoutCycles]
  cases busy <;> rfl

/-- The rest of a call, once it has loaded the batch id. -/
def awaitResult (polls : ℕ) (batchId : BitVec 32) : Driver HardwareBatchResult := do
  let statusWord ← runBatch (plainHost polls) .poll (plainRegion .control controlSize)
  let status := decodeStatus statusWord
  if !(status.done || status.error) then
    throw ⟨.timeout, "completion_not_visible",
      "accelerator did not expose a terminal completion state before timeout"⟩
  collectResult (plainRegion .control controlSize) (batchId + 1)

/-- A call up to its look at the batch id. -/
theorem succeeds_prepareBatch (hP : Endures latency busy P) {request : HardwareBatchRequest}
    (hchecked : checkRequest request = .ok ())
    (hjobs : (jobsBytes request.jobs).length ≤ jobSize) (hc : c.jobTimeoutCycles = 0)
    (hzero : request.jobTimeoutCycles = 0) (polls : ℕ) :
    (machine engine).Succeeds (Idle P c (R + 18446)) (prepareBatch (plainHost polls) request)
      fun prepared d => prepared.1 = .poll ∧ prepared.2.1 = plainRegion .control controlSize ∧
        Idle P (merged request.config c busy busy busy busy) R d ∧
        d.bench.core.batchId = prepared.2.2 := by
  have hmessage := (of_checkRequest hchecked).1.2
  rw [prepareBatch, hchecked, show R + 18446 = R + 2 + 18440 + 4 by omega]
  refine (succeeds_check ()).bind_run_eq ?_
  refine (succeeds_check _).bind_run_eq ?_
  refine (succeeds_check _).bind_run_eq ?_
  refine (succeeds_check _).bind_run_eq ?_
  refine (succeeds_check WaitMode.poll).bind_run_eq ?_
  refine Machine.Plays.of_not (show ¬ (jobsBytes request.jobs).length > jobSize by omega) ?_
  refine (succeeds_open polls _ _).bind_run_eq ?_
  refine (succeeds_identity (R := R + 2 + 18440) hP hc).bind_run fun identity => ?_
  by_cases hfull : requireFullHardware identity = .ok ()
  · rw [hfull]
    refine (succeeds_check ()).bind_run_eq ?_
    refine (succeeds_open polls _ _).bind_run_eq ?_
    refine (succeeds_open polls _ _).bind_run_eq ?_
    refine ((succeeds_storeRequest (R := R + 2) hP hmessage hjobs hc hzero).mono
      (fun _ h => h.2) fun _ _ h => h).bind_run fun _ => ?_
    refine ((succeeds_readU32 hP (merged_timeout hc hzero _ _ _ _) (by decide)
      (by decide)).bind_run fun batchId => ?_)
    refine Machine.Succeeds.pure ?_
    rintro d ⟨hidle, d', -, rfl, hid⟩
    exact ⟨rfl, rfl, hidle, hid⟩
  · intro d hd
    exact absurd hd.1 hfull

/-- A call up to its launch. -/
theorem plays_verifyBatch (hP : Endures latency busy P) {request : HardwareBatchRequest}
    (hchecked : checkRequest request = .ok ())
    (hjobs : (jobsBytes request.jobs).length ≤ jobSize) (hc : c.jobTimeoutCycles = 0)
    (hzero : request.jobTimeoutCycles = 0) (polls : ℕ)
    {post : Except ServiceError HardwareBatchResult → Device → Prop}
    (hrest : ∀ batchId, (machine engine).Plays
      (fun d => Idle P (merged request.config c busy busy busy busy) R d ∧
        d.bench.core.batchId = batchId) (awaitResult polls batchId).run post) :
    (machine engine).Plays (Idle P c (R + 18446)) (verifyBatch (plainHost polls) request).run
      post := by
  rw [verifyBatch_eq]
  refine (succeeds_prepareBatch hP hchecked hjobs hc hzero polls).bind_run fun prepared => ?_
  obtain ⟨waitMode, control, batchId⟩ := prepared
  rintro d ⟨rfl, rfl, hidle, hid⟩
  exact hrest batchId d ⟨hidle, hid⟩

end driver

/-! ### The launch -/

/-- A device right after a launch with configuration `c` as batch `id`. -/
structure Fired (c : Config) (id : BitVec 32) (d : Device) : Prop where
  calmed : Calmed d
  config : d.regs.config = c
  launch : ∃ (b : Bench) (i : Bench.Inputs), i.start = true ∧ i.softReset = true ∧ i.config = c ∧
    d.bench = Bench.step false i b
  number : Underway id d.bench.core ∨ Concluded id d.bench.core

theorem alignedControl : alignedAddr (BitVec.ofNat 8 regControl) = addrControl := rfl

/-- The store to `REG_CONTROL`. -/
theorem succeeds_control {P : ℕ → Bench → Prop} {c : Config} {R : ℕ} (latency : ℕ)
    (batchId : BitVec 32) :
    (machine engine).Succeeds (fun d => Idle P c R d ∧ d.bench.core.batchId = batchId)
      ((plainRegion .control controlSize).writeU32 regControl controlCmdResetThenStart) fun _ d =>
      Ready d ∧ Fired c (batchId + 1) d := by
  have hsize : controlSize = 4096 := rfl
  have hlt : regControl < 256 := by decide
  rw [MappedRegion.writeU32, checkedWordStart_plain "write" (by omega) (by omega) rfl]
  refine Machine.Succeeds.bind (succeeds_check _) fun a => ?_
  have hoffered : Offered (storeTo regControl controlCmdResetThenStart) := hlt
  refine Machine.Succeeds.mono (Machine.Succeeds.lift (plays_access latency hoffered
    (P := fun d => Holding P c R d ∧ d.bench.core.batchId = batchId)
    (Q := fun _ d => Fired c (batchId + 1) d) ?_))
    (fun _ h => ⟨h.2.1.1, h.2.1.2, h.2.2⟩) fun _ _ h => h
  rintro d hd ⟨h, hid⟩
  have hmid : Unwritten (step engine
      (drive latency (storeTo regControl controlCmdResetThenStart)) d) := unwritten_drive hd hoffered
  have haccess : accesses (drive latency (storeTo regControl controlCmdResetThenStart)) d =
      [storeTo regControl controlCmdResetThenStart] := accesses_drive hd hoffered
  show Fired c (batchId + 1) (step engine (rest latency)
    (step engine (drive latency (storeTo regControl controlCmdResetThenStart)) d))
  generalize drive latency (storeTo regControl controlCmdResetThenStart) = i at hmid haccess ⊢
  obtain ⟨hconfig, hstart, hreset, -⟩ := step_store engine haccess
  rw [newConfig_other (by decide), h.config] at hconfig
  rw [commandBit_control alignedControl] at hstart hreset
  have hnumber : (step engine i d).bench.core.batchId = batchId :=
    (SigvKv260Core.step_batchId h.calmed.start).trans hid
  generalize step engine i d = d' at hmid hconfig hstart hreset hnumber ⊢
  have hrest : ∀ o ∈ accesses (rest latency) d', Harmless o := by
    rw [accesses_rest hmid]
    intro o ho
    contradiction
  obtain ⟨hconfig', hstart', hreset', hhold'⟩ := step_harmless engine hrest
  refine ⟨⟨hstart', hreset', hhold'⟩, hconfig'.trans hconfig,
    ⟨d'.bench, benchInputs engine (rest latency) d', hstart, hreset, hconfig, rfl⟩, ?_⟩
  obtain ⟨m, -, hcore⟩ := Bench.core_start (b := d'.bench)
    (i := benchInputs engine (rest latency) d') false hstart (Or.inl hreset)
  have hnext : (step engine (rest latency) d').bench.core = _ := hcore
  rw [hnext, ← hnumber]
  exact SigvKv260Core.launchBatch_result _ _

/-! ### A batch that keeps its engine busy -/

/-- The engine does not report within `R` cycles. -/
def Slow (R : ℕ) (e : Engine) : Prop := e.out.done = false ∧ ∀ r, e.remaining = some r → R ≤ r

theorem slow_of_quiet {e : Engine} (he : e.Quiet) (R : ℕ) : Slow R e := by
  refine ⟨he.2, ?_⟩
  intro r hr
  rw [he.1] at hr
  contradiction

theorem Slow.step {e : Engine} {R : ℕ} (h : Slow (R + 1) e) (start verdict : Bool)
    (hlatency : R < latency) : Slow R (e.step start verdict latency) := by
  obtain ⟨remaining, held, out⟩ := e
  obtain ⟨n, rfl⟩ : ∃ n, latency = n + 1 := ⟨latency - 1, by omega⟩
  cases start with
  | true =>
      refine ⟨rfl, ?_⟩
      intro r hr
      have hn : n = r := Option.some.inj hr
      omega
  | false =>
      cases remaining with
      | none => exact ⟨rfl, fun r hr => absurd hr (by simp [Engine.step])⟩
      | some m =>
          have hm : R + 1 ≤ m := h.2 m rfl
          obtain ⟨k, rfl⟩ : ∃ k, m = k + 1 := ⟨m - 1, by omega⟩
          refine ⟨rfl, ?_⟩
          intro r hr
          have hk : k = r := Option.some.inj hr
          omega

/-- A batch is under way whose first report is at least `R` cycles off. -/
structure Slowed (latency R : ℕ) (b : Bench) : Prop where
  le : R ≤ latency
  number : ∃ id, Underway id b.core
  accounted : ∃ sb n, Bench.Accounted false sb n b
  slow : Slow R b.live0

theorem slow_visible {e : Engine} {R : ℕ} (h : Slow R e) (abort : Bool) : Slow R (e.visible abort) := by
  cases abort with
  | false => exact h
  | true => exact slow_of_quiet ⟨rfl, rfl⟩ R

theorem slowed_endures (latency : ℕ) : Endures latency true (Slowed latency) := by
  refine ⟨?_, ?_⟩
  · intro R b h
    obtain ⟨sb, n, ha⟩ := h.accounted
    exact ha.accounts.underWay.1
  · intro R b i hstart hreset hlatency hzero h
    obtain ⟨sb, n, ha⟩ := h.accounted
    obtain ⟨id, hid⟩ := h.number
    have hle := h.le
    have hslow : Slow R (Bench.step false i b).engine0 := by
      show Slow R (Bench.stepEngine b.core.verifierAbort b.core.engine0 i.verdict i.latency0 b.engine0)
      have hnow := h.slow
      rw [Bench.live0] at hnow
      cases habort : b.core.verifierAbort with
      | true => exact slow_of_quiet ⟨rfl, rfl⟩ R
      | false =>
          rw [habort] at hnow
          exact hnow.step _ _ (by omega)
    have hquiet1 : b.live1.out.done = false :=
      (ha.accounts.attends1.of_free (ha.accounts.disabled rfl)).2.2
    have hnone : b.reported = ∅ := by
      rw [Bench.reported, SigvKv260Core.reports, SigvKv260Core.reports, h.slow.1, hquiet1]
      rfl
    have hnext : ∃ sb n, Bench.Accounted false sb n (Bench.step false i b) := by
      cases ha.step hreset with
      | timeout _ _ enabled _ _ => exact absurd hzero enabled
      | complete all _ _ =>
          have hunfinished := ha.unfinished
          have hcard := ha.card_finish
          rw [hnone] at all hcard
          rw [Finset.card_empty] at hcard
          omega
      | hand0 _ _ next => exact ⟨_, _, next⟩
      | hand1 _ _ next => exact ⟨_, _, next⟩
      | wait _ _ next => exact ⟨_, _, next⟩
    refine ⟨by omega, ⟨id, ?_⟩, hnext, slow_visible hslow _⟩
    obtain ⟨sb', n', ha'⟩ := hnext
    rcases hid.step (i := Bench.coreInputs i b) hreset with hrun | hover
    · exact hrun
    · have hrunning := ha'.accounts.running
      have hidle : (Bench.step false i b).core.state = .idle := hover.idle
      rw [hidle] at hrunning
      contradiction

/-- A launched batch keeps a slow engine busy. -/
theorem Fired.slowed {c : Config} {id : BitVec 32} (h : Fired c id d) (hc : c.Launchable)
    (latency : ℕ) : Holding (Slowed latency) c latency d := by
  obtain ⟨b, i, hstart, hreset, hconfig, hbench⟩ := h.launch
  have ha : Bench.Accounted false Scoreboard.empty _ (Bench.step false i b) :=
    Bench.Launches.accounted ⟨hstart, Or.inl hreset, by rw [hconfig]; exact hc⟩ (Or.inl hreset)
  have hquiet : (Bench.step false i b).live0.Quiet ∧ (Bench.step false i b).live1.Quiet :=
    Bench.start_quiet false hstart (Or.inl hreset)
  rw [← hbench] at ha hquiet
  refine ⟨⟨le_rfl, ⟨id, ?_⟩, ⟨_, _, ha⟩, slow_of_quiet hquiet.1 latency⟩, h.calmed, h.config⟩
  rcases h.number with hrun | hover
  · exact hrun
  · have hrunning := ha.accounts.running
    rw [hover.idle] at hrunning
    contradiction

/-! ### A batch that ends -/

/-- Batch `id` is over. -/
def Ended (id : BitVec 32) (_ : ℕ) (b : Bench) : Prop := Concluded id b.core

theorem ended_endures (latency : ℕ) (id : BitVec 32) : Endures latency false (Ended id) := by
  refine ⟨fun h => h.busy, ?_⟩
  intro R b i hstart hreset _ _ h
  exact (Concluded.step (i := Bench.coreInputs i b) h hreset hstart).1

/-- Nothing but the core and the engine moves. -/
structure Undisturbed (d d' : Device) : Prop where
  ready : Ready d'
  calmed : Calmed d'
  config : d'.regs.config = d.regs.config
  message : d'.messageBram = d.messageBram
  job : d'.jobBram = d.jobBram

theorem undisturbed_rest (hd : Ready d) (hcalmed : Calmed d) (k : ℕ) :
    Undisturbed d (run engine (fun _ => rest latency) d k) := by
  induction k with
  | zero => exact ⟨hd, hcalmed, rfl, rfl, rfl⟩
  | succ k ih =>
      have hmid : Unwritten (run engine (fun _ => rest latency) d k) :=
        ⟨ih.ready.awSeen, ih.ready.wSeen⟩
      have hrest : ∀ o ∈ accesses (rest latency) (run engine (fun _ => rest latency) d k),
          Harmless o := by
        rw [accesses_rest hmid]
        intro o ho
        contradiction
      obtain ⟨hconfig, hstart, hreset, hhold⟩ := step_harmless engine hrest
      exact ⟨ready_rest hmid, ⟨hstart, hreset, hhold⟩, hconfig.trans ih.config, ih.message, ih.job⟩

/-- Left alone, a launched batch ends. -/
theorem Fired.ends {c : Config} {id : BitVec 32} (latency : ℕ) (hd : Ready d) (h : Fired c id d)
    (hc : c.Launchable) (hzero : c.jobTimeoutCycles = 0) (R : ℕ) :
    ∃ n, Holding (Ended id) c R (run engine (fun _ => rest latency) d n) := by
  obtain ⟨b, i, hstart, hreset, hconfig, hbench⟩ := h.launch
  have hundisturbed : ∀ k, Undisturbed d (run engine (fun _ => rest latency) d k) :=
    undisturbed_rest hd h.calmed
  let verdict : JobKey → Bool := fun key =>
    engine key (messageBytes d.messageBram d.regs.config.messageLength.toNat) d.regs.config.verifyMode
  have hopen : Bench.Open false d.jobBram verdict d.bench
      (SigvKv260Core.dispatchJobCount c).toNat d.bench := by
    rw [hbench, ← hconfig]
    exact Bench.Launches.opens ⟨hstart, Or.inl hreset, by rw [hconfig]; exact hc⟩ (Or.inl hreset)
  have hsteady : ∀ k, Bench.Steady d.jobBram verdict
      (benchInputs engine (rest latency) (run engine (fun _ => rest latency) d k)) ∧
      (benchInputs engine (rest latency)
        (run engine (fun _ => rest latency) d k)).config.jobTimeoutCycles = 0 := by
    intro k
    obtain ⟨-, hcalmed, hsame, hmessage, hjob⟩ := hundisturbed k
    refine ⟨⟨hcalmed.reset, hjob, ?_⟩, ?_⟩
    · simp only [benchInputs, hsame, hmessage, verdict]
    · show (run engine (fun _ => rest latency) d k).regs.config.jobTimeoutCycles = 0
      rw [hsame, h.config]
      exact hzero
  have hnumber : ∀ k, Underway id (run engine (fun _ => rest latency) d k).bench.core ∨
      Concluded id (run engine (fun _ => rest latency) d k).bench.core := by
    intro k
    induction k with
    | zero => exact h.number
    | succ k ih =>
        have hcalmed := (hundisturbed k).calmed
        rcases ih with hrun | hover
        · exact hrun.step hcalmed.reset
        · exact Or.inr (hover.step hcalmed.reset hcalmed.start).1
  obtain ⟨T, hover, -⟩ := hopen.ends hsteady
  have hdone := hover.done
  have hbench' : (run engine (fun _ => rest latency) d (T + 1)).bench = _ := bench_run (T + 1)
  rw [← hbench'] at hdone
  obtain ⟨-, hcalmed, hsame, -, -⟩ := hundisturbed (T + 1)
  refine ⟨T + 1, ?_, hcalmed, hsame.trans h.config⟩
  rcases hnumber (T + 1) with hrun | hover
  · rw [hrun.done] at hdone
    contradiction
  · exact hover

/-! ### The end of a call -/

section finish

variable {c : Config} {id : BitVec 32} {R : ℕ}

/-- A look at the status after the end. -/
theorem succeeds_lookOr (hc : c.jobTimeoutCycles = 0) (later : Driver (BitVec 32)) :
    (machine engine).Succeeds (Idle (Ended id) c (R + 2))
      (lookOr (plainRegion .control controlSize) later) fun word d =>
      ((decodeStatus word).done || (decodeStatus word).error) = true ∧ Idle (Ended id) c R d := by
  refine Machine.Succeeds.bind (succeeds_readU32 (ended_endures 0 id) hc (by decide) (by decide))
    fun word => ?_
  by_cases hover : ((decodeStatus word).done || (decodeStatus word).error) = true
  · refine Machine.Plays.of_true hover ?_
    exact Machine.Succeeds.pure fun d hd => ⟨hover, hd.1⟩
  · rintro d ⟨-, d', hd', rfl, -⟩
    refine absurd ?_ hover
    have hdone : d'.bench.core.done = true := Concluded.done hd'.bench
    rw [Bool.or_eq_true]
    left
    rw [show d'.loaded .control regStatus = statusWord (status d'.bench.core) d'.regs from rfl,
      (decodeStatus_statusWord _ _).1, statusDone, hd'.calmed.hold]
    exact hdone

theorem succeeds_poll (hc : c.jobTimeoutCycles = 0) (polls : ℕ) :
    (machine engine).Succeeds (Idle (Ended id) c (R + 2))
      (pollUntilComplete (plainRegion .control controlSize) polls) fun word d =>
      ((decodeStatus word).done || (decodeStatus word).error) = true ∧ Idle (Ended id) c R d := by
  cases polls with
  | zero => exact succeeds_lookOr hc _
  | succ polls => exact succeeds_lookOr hc _

theorem succeeds_readWords {P : ℕ → Bench → Prop} {latency : ℕ} {busy : Bool}
    (hP : Endures latency busy P) (hc : c.jobTimeoutCycles = 0) (offsets : List ℕ)
    (hoffsets : ∀ offset ∈ offsets, offset < 256 ∧ offset % 4 = 0) :
    (machine engine).Succeeds (Idle P c (R + 2 * offsets.length))
      (readWords (plainRegion .control controlSize) offsets) fun _ d => Idle P c R d := by
  induction offsets with
  | nil => exact Machine.Succeeds.pure fun _ h => h
  | cons offset offsets ih =>
      obtain ⟨hlt, halign⟩ := hoffsets offset List.mem_cons_self
      refine Machine.Succeeds.bind ((succeeds_readU32 (R := R + 2 * offsets.length)
        hP hc hlt halign).mono (fun _ h => h) fun _ _ h => h.1) fun word => ?_
      refine Machine.Succeeds.bind (ih fun offset h => hoffsets offset (List.mem_cons_of_mem _ h))
        fun words => ?_
      exact Machine.Succeeds.pure fun _ h => h

/-- Reading the snapshot after the end. -/
theorem succeeds_readSnapshot (hc : c.jobTimeoutCycles = 0) :
    (machine engine).Succeeds (Idle (Ended id) c (R + 10))
      (readSnapshot (plainRegion .control controlSize)) fun snapshot d =>
      snapshot.batchId = id ∧ Idle (Ended id) c R d := by
  have hread : ∀ {R offset}, offset < 256 → offset % 4 = 0 →
      (machine engine).Succeeds (Idle (Ended id) c (R + 2))
        ((plainRegion .control controlSize).readU32 offset) fun _ d => Idle (Ended id) c R d :=
    fun hlt halign => (succeeds_readU32 (ended_endures 0 id) hc hlt halign).mono (fun _ h => h)
      fun _ _ h => h.1
  refine Machine.Succeeds.bind (hread (R := R + 8) (by decide) (by decide)) fun errStatus => ?_
  refine Machine.Succeeds.bind (succeeds_readU32 (R := R + 6) (ended_endures 0 id) hc (by decide)
    (by decide)) fun batchId => ?_
  by_cases hid : batchId = id
  · subst hid
    refine Machine.Succeeds.bind ((hread (R := R + 4) (by decide) (by decide)).mono
      (fun _ h => h.1) fun _ _ h => h) fun accepted => ?_
    refine Machine.Succeeds.bind (hread (R := R + 2) (by decide) (by decide)) fun completed => ?_
    refine Machine.Succeeds.bind (hread (R := R) (by decide) (by decide)) fun dropped => ?_
    exact Machine.Succeeds.pure fun _ h => ⟨rfl, h⟩
  · rintro d ⟨-, d', hd', rfl, -⟩
    exact absurd (Concluded.snapshot hd'.bench) hid

/-- What a call reads after its snapshot. -/
theorem succeeds_readRest {P : ℕ → Bench → Prop} {latency : ℕ} {busy : Bool}
    (hP : Endures latency busy P) (hc : c.jobTimeoutCycles = 0) (snapshot : SnapshotStatus) :
    (machine engine).Succeeds (Idle P c (R + 20))
      (readRest (plainRegion .control controlSize) snapshot) fun _ d => Idle P c R d := by
  have hread : ∀ {R offset}, offset < 256 → offset % 4 = 0 →
      (machine engine).Succeeds (Idle P c (R + 2))
        ((plainRegion .control controlSize).readU32 offset) fun _ d => Idle P c R d :=
    fun hlt halign => (succeeds_readU32 hP hc hlt halign).mono (fun _ h => h) fun _ _ h => h.1
  have hwords : ∀ offset ∈ (List.range 8).map fun index => regResultMaskBase + index * 4,
      offset < 256 ∧ offset % 4 = 0 := by decide
  refine Machine.Succeeds.bind (succeeds_readWords (R := R + 4) hP hc _ hwords) fun words => ?_
  refine Machine.Succeeds.bind (hread (R := R + 2) (by decide) (by decide)) fun lastJob => ?_
  refine Machine.Succeeds.bind (hread (R := R) (by decide) (by decide)) fun lastBatch => ?_
  exact Machine.Succeeds.pure fun _ h => h

theorem succeeds_collectResult (hc : c.jobTimeoutCycles = 0) :
    (machine engine).Succeeds (Idle (Ended id) c 30)
      (collectResult (plainRegion .control controlSize) id) fun _ d => d.regs.config = c := by
  refine Machine.Succeeds.bind (succeeds_readSnapshot (R := 20) hc) fun snapshot => ?_
  by_cases hid : snapshot.batchId = id
  · refine Machine.Plays.of_not (not_not.mpr hid) ?_
    exact (succeeds_readRest (R := 0) (ended_endures 0 id) hc snapshot).mono (fun _ h => h.2)
      fun _ _ h => h.2.config
  · intro d hd
    exact absurd hd.1 hid

/-- A batch whose configuration can be launched, without a watchdog, can be seen to end. -/
theorem succeeds_runBatch {P : ℕ → Bench → Prop} {n : ℕ} (hc : c.Launchable)
    (hzero : c.jobTimeoutCycles = 0) (polls : ℕ) :
    (machine engine).Succeeds (fun d => Idle P c n d ∧ d.bench.core.batchId = id)
      (runBatch (plainHost polls) .poll (plainRegion .control controlSize)) fun word d =>
      ((decodeStatus word).done || (decodeStatus word).error) = true ∧
        Idle (Ended (id + 1)) c R d := by
  have hended : (machine engine).Plays (fun d => Ready d ∧ Fired c (id + 1) d) (.pure ())
      fun _ d => Idle (Ended (id + 1)) c (R + 2) d :=
    plays_wait 0 fun d hd h => h.ends 0 hd hc hzero (R + 2)
  refine Machine.Succeeds.bind (succeeds_control 0 id) fun _ => ?_
  exact Machine.Plays.later hended (succeeds_poll hzero polls)

/-- A call whose configuration can be launched, without a watchdog, can be made to
succeed. -/
theorem succeeds_awaitResult {P : ℕ → Bench → Prop} (hc : c.Launchable)
    (hzero : c.jobTimeoutCycles = 0) (polls : ℕ) :
    (machine engine).Succeeds (fun d => Idle P c R d ∧ d.bench.core.batchId = id)
      (awaitResult polls id) fun _ d => d.regs.config = c := by
  refine Machine.Succeeds.bind (succeeds_runBatch (R := 30) hc hzero polls) fun word => ?_
  by_cases hover : ((decodeStatus word).done || (decodeStatus word).error) = true
  · refine Machine.Plays.of_not (by simp [hover]) ?_
    exact (succeeds_collectResult hzero).mono (fun _ h => h.2) fun _ _ h => h
  · intro d hd
    exact absurd hd.1 hover

/-- A call that is out of patience at its first look at a slow batch fails and leaves it
running. -/
theorem fails_awaitResult {P : ℕ → Bench → Prop} {latency : ℕ} (hc : c.Launchable)
    (hzero : c.jobTimeoutCycles = 0) (hlatency : latency = R + 2) {n : ℕ} :
    (machine engine).Fails (fun d => Idle P c n d ∧ d.bench.core.batchId = id)
      (awaitResult 0 id) (Idle (Slowed latency) c R) := by
  have hlaunch : (machine engine).Succeeds (fun d => Idle P c n d ∧ d.bench.core.batchId = id)
      ((plainRegion .control controlSize).writeU32 regControl controlCmdResetThenStart) fun _ d =>
      Idle (Slowed latency) c latency d :=
    (succeeds_control latency id).mono (fun _ h => h) fun _ _ h => ⟨h.1, h.2.slowed hc latency⟩
  refine Machine.Fails.bind (Machine.Succeeds.fails hlaunch fun _ => ?_)
  show (machine engine).Fails _ (lookOr _ (throw _)) _
  rw [hlatency]
  refine Machine.Succeeds.fails (succeeds_readU32 (slowed_endures _) hzero (by decide) (by decide))
    fun word => ?_
  by_cases hover : ((decodeStatus word).done || (decodeStatus word).error) = true
  · rintro d ⟨-, d', hd', rfl, -⟩
    obtain ⟨id', hid⟩ := hd'.bench.number
    rw [show d'.loaded .control regStatus = statusWord (status d'.bench.core) d'.regs from rfl,
      (decodeStatus_statusWord _ _).1, (decodeStatus_statusWord _ _).2, statusDone, statusError] at hover
    simp [status, hid.done, hid.error] at hover
  · refine Machine.Plays.of_not hover ?_
    exact Machine.Plays.pure fun d hd => ⟨⟨_, rfl⟩, hd.1⟩

end finish

/-! ### A call on an idle core -/

/-- A request with a message of `length` zeros and one job. -/
def zeroRequest (length : ℕ) : HardwareBatchRequest where
  message := List.replicate length 0
  jobs := [⟨⟨List.replicate 32 0, rfl⟩, ⟨List.replicate 64 0, rfl⟩⟩]
  verifyMode := .strict
  dispatchLimit := 0
  jobTimeoutCycles := 0

/-- An idle core. -/
def Resting (_ : ℕ) (b : Bench) : Prop := b.core.state = .idle ∧ b.core.busy = false

theorem resting_endures (latency : ℕ) : Endures latency false Resting := by
  refine ⟨fun h => h.2, ?_⟩
  intro R b i hstart hreset _ _ h
  obtain ⟨hidle, hstatus⟩ :=
    SigvKv260Core.step_rest (i := Bench.coreInputs i b) false h.1 h.2 hreset hstart
  exact ⟨hidle, (congrArg CoreStatus.busy hstatus).trans h.2⟩

end Device

end Kv260Sigv
