import Kv260Sigv.Daemon.Payload
import Kv260Sigv.System.Device
import Mathlib.Data.List.GetD
import Mathlib.Data.Nat.Digits.Defs

/-!
# What the memories hold for a request

The driver packs bytes into words, the loader packs words into keys, and the hash
engine picks bytes from words.  Together they deliver what a request names: the keys
of its jobs, read little-endian, and the bytes of its message.
-/

set_option autoImplicit false

namespace Kv260Sigv

open Accelerator

/-- A number from its bytes, the lowest first. -/
def littleEndian (bytes : Bytes) : ℕ := Nat.ofDigits 256 (bytes.map UInt8.toNat)

/-- The key of a job. -/
def Accelerator.VerificationJob.key (job : VerificationJob) : JobKey where
  pubkey := BitVec.ofNat 256 (littleEndian job.pubkey.1)
  sigR := BitVec.ofNat 256 (littleEndian (job.signature.1.take 32))
  sigS := BitVec.ofNat 256 (littleEndian (job.signature.1.drop 32))

/-! ### Bits of bytes -/

theorem testBit_littleEndian (bytes : Bytes) (k : ℕ) :
    (littleEndian bytes).testBit k = (bytes.getD (k / 8) 0).toNat.testBit (k % 8) := by
  induction bytes generalizing k with
  | nil => simp [littleEndian]
  | cons byte bytes ih =>
      have hcons : littleEndian (byte :: bytes) = 2 ^ 8 * littleEndian bytes + byte.toNat := by
        rw [littleEndian, List.map_cons, Nat.ofDigits_cons, Nat.add_comm]
        rfl
      rw [hcons, Nat.testBit_two_pow_mul_add _ byte.toNat_lt]
      split
      · next hlow =>
          rw [Nat.div_eq_of_lt hlow, Nat.mod_eq_of_lt hlow]
          rfl
      · next hhigh =>
          rw [ih, show k / 8 = (k - 8) / 8 + 1 by omega, show (k - 8) % 8 = k % 8 by omega]
          rfl

theorem getLsbD_littleEndian (bytes : Bytes) {k : ℕ} (hk : k < 256) :
    (BitVec.ofNat 256 (littleEndian bytes)).getLsbD k =
      (bytes.getD (k / 8) 0).toBitVec.getLsbD (k % 8) := by
  rw [BitVec.getLsbD_ofNat, decide_eq_true hk, Bool.true_and, testBit_littleEndian]
  rfl

/-- The bits of eight words. -/
theorem getLsbD_packWords (f : ℕ → BitVec 32) {k : ℕ} (hk : k < 256) :
    (packWords f).getLsbD k = (f (k / 32)).getLsbD (k % 32) := by
  have hlt : k % 32 < 32 := Nat.mod_lt _ (by decide)
  rw [← extractLsb_packWords f (show k / 32 < 8 by omega), BitVec.getLsbD_extractLsb',
    decide_eq_true hlt, Bool.true_and, show k / 32 * 32 + k % 32 = k by omega]

/-! ### The jobs in their payload -/

theorem length_jobBytes (job : VerificationJob) :
    (job.pubkey.1 ++ job.signature.1).length = 96 := by
  rw [List.length_append, job.pubkey.2, job.signature.2]

theorem length_jobsBytes (jobs : List VerificationJob) :
    (jobsBytes jobs).length = 96 * jobs.length := by
  induction jobs with
  | nil => rfl
  | cons job jobs ih =>
      have hcons : jobsBytes (job :: jobs) = (job.pubkey.1 ++ job.signature.1) ++ jobsBytes jobs := rfl
      rw [hcons, List.length_append, length_jobBytes, ih, List.length_cons]
      omega

/-- Job `i` starts at byte `96 * i`. -/
theorem getD_jobsBytes {jobs : List VerificationJob} {i q : ℕ} {job : VerificationJob}
    (hjob : jobs[i]? = some job) (hq : q < 96) :
    (jobsBytes jobs).getD (96 * i + q) 0 = (job.pubkey.1 ++ job.signature.1).getD q 0 := by
  induction jobs generalizing i with
  | nil => simp at hjob
  | cons first jobs ih =>
      have hcons : jobsBytes (first :: jobs) =
          (first.pubkey.1 ++ first.signature.1) ++ jobsBytes jobs := rfl
      have hlength := length_jobBytes first
      rw [hcons]
      cases i with
      | zero =>
          obtain rfl : first = job := by simpa using hjob
          rw [Nat.mul_zero, Nat.zero_add, List.getD_append _ _ _ _ (by omega)]
      | succ i =>
          rw [List.getD_append_right _ _ _ _ (by omega), hlength,
            show 96 * (i + 1) + q - 96 = 96 * i + q by omega]
          exact ih (by simpa using hjob)

/-- The words of the job memory hold the payload. -/
def HoldsPayload {w : ℕ} (mem : BitVec w → BitVec 32) (data : Bytes) : Prop :=
  ∀ x : BitVec w, mem x = (payloadWords data).getD x.toNat 0

/-- Eight words of the job memory are 32 bytes of the payload. -/
theorem getLsbD_word {mem : JobMemory} {data : Bytes} (hmem : HoldsPayload mem data) (base : ℕ)
    (hbase : 4 * base + 32 ≤ data.length) (hfits : base + 8 ≤ 2 ^ 13) {k : ℕ} (hk : k < 256) :
    (packWords fun w => mem (BitVec.ofNat 13 (base + w))).getLsbD k =
      (data.getD (4 * base + k / 8) 0).toBitVec.getLsbD (k % 8) := by
  have hbyte := getLsbD_payloadWords data (k := 4 * base + k / 8) (by omega)
    (Nat.mod_lt k (show 0 < 8 by decide))
  rw [getLsbD_packWords _ hk, hmem, BitVec.toNat_ofNat, Nat.mod_eq_of_lt (by omega), ← hbyte,
    show (4 * base + k / 8) / 4 = base + k / 32 by omega,
    show (4 * base + k / 8) % 4 * 8 + k % 8 = k % 32 by omega]

/-- A memory that holds the jobs of a request holds their keys. -/
theorem jobKey_of_holds {mem : JobMemory} {jobs : List VerificationJob}
    (hmem : HoldsPayload mem (jobsBytes jobs)) (hcount : jobs.length ≤ 255) {i : ℕ}
    {job : VerificationJob} (hjob : jobs[i]? = some job) : jobKey mem i = job.key := by
  have hi : i < jobs.length := (List.getElem?_eq_some_iff.mp hjob).1
  have hlength := length_jobsBytes jobs
  have hpubkey := job.pubkey.2
  have hsignature := job.signature.2
  have hbits : ∀ (base : ℕ) (bytes : Bytes), base + 8 ≤ 24 →
      (∀ q < 32, bytes.getD q 0 = (job.pubkey.1 ++ job.signature.1).getD (4 * base + q) 0) →
      (packWords fun w => mem (BitVec.ofNat 13 (24 * i + (base + w)))) =
        BitVec.ofNat 256 (littleEndian bytes) := by
    intro base bytes hbase hbytes
    apply BitVec.eq_of_getLsbD_eq
    intro k hk
    have hword := getLsbD_word hmem (24 * i + base) (by omega) (by omega) hk
    simp only [Nat.add_assoc] at hword
    rw [hword, getLsbD_littleEndian _ hk, hbytes _ (by omega),
      ← getD_jobsBytes hjob (by omega),
      show 4 * (24 * i + base) + k / 8 = 96 * i + (4 * base + k / 8) by omega]
  have hR : ∀ q < 32, (job.signature.1.take 32).getD q 0 =
      (job.pubkey.1 ++ job.signature.1).getD (4 * 8 + q) 0 := by
    intro q hq
    rw [List.getD_append_right _ _ _ _ (by omega), hpubkey, Nat.add_sub_cancel_left,
      List.getD_eq_getElem?_getD, List.getElem?_take_of_lt hq, List.getD_eq_getElem?_getD]
  have hS : ∀ q < 32, (job.signature.1.drop 32).getD q 0 =
      (job.pubkey.1 ++ job.signature.1).getD (4 * 16 + q) 0 := by
    intro q hq
    rw [List.getD_append_right _ _ _ _ (by omega), hpubkey, show 4 * 16 + q - 32 = 32 + q by omega,
      List.getD_eq_getElem?_getD, List.getElem?_drop, List.getD_eq_getElem?_getD]
  have hA : ∀ q < 32, job.pubkey.1.getD q 0 =
      (job.pubkey.1 ++ job.signature.1).getD (4 * 0 + q) 0 := by
    intro q hq
    rw [List.getD_append _ _ _ _ (by omega), Nat.mul_zero, Nat.zero_add]
  have hfirst := hbits 0 _ (by omega) hA
  simp only [Nat.zero_add] at hfirst
  rw [jobKey, VerificationJob.key, hfirst, hbits 8 _ (by omega) hR, hbits 16 _ (by omega) hS]

/-- A memory that holds a message gives its bytes. -/
theorem messageBytes_of_holds {mem : MessagePort.Memory} {message : Bytes}
    (hmem : HoldsPayload mem message) (hsize : message.length ≤ messageSize) :
    messageBytes mem message.length = message.map UInt8.toBitVec := by
  have hsize' : messageSize = 4096 := rfl
  refine List.ext_getElem (by simp [messageBytes]) fun k hk hk' => ?_
  have hlt : k < message.length := by simpa using hk'
  simp only [messageBytes, List.getElem_map, List.getElem_range, messageByte, hmem _]
  have hword : (MessagePort.wordAddr (BitVec.ofNat 12 k)).toNat = k / 4 := by
    rw [MessagePort.wordAddr, BitVec.extractLsb'_toNat, BitVec.toNat_ofNat]
    omega
  have hselect : ((BitVec.ofNat 12 k).setWidth 2).toNat = k % 4 := by
    rw [BitVec.toNat_setWidth, BitVec.toNat_ofNat]
    omega
  have hbyte := byteOf_payloadWords message hlt
  rw [byteOf, Nat.mul_comm] at hbyte
  rw [Sha512StreamEngine.wordByte, hword, hselect]
  rw [hbyte, List.getD_eq_getElem?_getD, List.getElem?_eq_getElem hlt]
  rfl

/-! ### The memories along a call -/

/-- A store of another region, or a load. -/
def Spares (region : Region) : Access → Prop
  | .load .. => True
  | .store region' .. => region' ≠ region

theorem spares_of_gentle {region : Region} (hregion : region ≠ .control) :
    ∀ {o : Access}, Gentle o → Spares region o
  | .load .., _ => trivial
  | .store .control .., _ => hregion.symm

/-- Once the memories are stored a call leaves them alone. -/
theorem spares_of_succeeds {h : History Access Answer} {t : Timeline} {c c' : ℕ}
    {request : HardwareBatchRequest} {result : HardwareBatchResult}
    (ht : t.Succeeds h c c' request result) {region : Region} (hregion : region ≠ .control) {k : ℕ}
    (hk : t.stored ≤ k) (hk' : k < c') : ∀ o ∈ h.events k, Spares region o := by
  have hstore : ∀ {offset value}, h.events k = [storeTo offset value] →
      ∀ o ∈ h.events k, Spares region o := by
    intro offset value hevent o ho
    rw [hevent, List.mem_singleton] at ho
    rw [ho]
    exact hregion.symm
  cases ht.event (ht.order.1.trans hk) hk' with
  | storing before _ => exact absurd before (Nat.not_lt_of_le hk)
  | gentle gentle => exact fun o ho => spares_of_gentle hregion (gentle o ho)
  | config _ _ event _ => exact hstore event
  | control event _ => exact hstore event

namespace Accelerator.Remembers

variable {h : History Access Answer} {w c c' : ℕ} {region : Region} {mem : ℕ → BitVec w → BitVec 32}

theorem spared (hmem : Remembers h region mem) (hle : c ≤ c')
    (hspares : ∀ k, c ≤ k → k < c' → ∀ o ∈ h.events k, Spares region o) : mem c' = mem c :=
  hmem.stays hle fun k hk hk' _ _ _ hin => hspares k hk hk' _ hin rfl

end Accelerator.Remembers

namespace Device

variable {engine : EngineVerdict} {inputs : ℕ → Inputs} {d₀ : Device}

/-- A memory that takes the stores of its region. -/
theorem remembers_of {h : History Access Answer} {w : ℕ} {region : Region}
    {mem : ℕ → BitVec w → BitVec 32} (store : ℕ → Option (ℕ × BitVec 32))
    (hnext : ∀ k, mem (k + 1) = stored (mem k) (store k))
    (hevents : ∀ k offset value strobe, .store region offset value strobe ∈ h.events k ↔
      store k = some (offset, value) ∧ 0xF = strobe) : Remembers h region mem := by
  refine ⟨fun k hnone => ?_, fun k offset value hevent => ?_⟩
  · rw [hnext]
    cases hstore : store k with
    | none => rfl
    | some x => exact absurd ((hevents k x.1 x.2 0xF).mpr ⟨hstore, rfl⟩) (hnone x.1 x.2 0xF)
  · have hstore := ((hevents k offset value 0xF).mp (by rw [hevent]; exact List.mem_singleton.mpr rfl)).1
    rw [hnext, hstore]
    rfl

theorem remembers_message :
    Remembers (history engine inputs d₀) .message fun k => (run engine inputs d₀ k).messageBram := by
  refine remembers_of (fun k => (inputs k).messageStore) (fun k => rfl) ?_
  intro k offset value strobe
  show _ ∈ accesses (inputs k) (run engine inputs d₀ k) ↔ _
  simp [accesses]

theorem remembers_job :
    Remembers (history engine inputs d₀) .job fun k => (run engine inputs d₀ k).jobBram := by
  refine remembers_of (fun k => (inputs k).jobStore) (fun k => rfl) ?_
  intro k offset value strobe
  show _ ∈ accesses (inputs k) (run engine inputs d₀ k) ↔ _
  simp [accesses]

/-- From then on the memories hold the request. -/
theorem contents_of_succeeds {t : Timeline} {c c' : ℕ} {request : HardwareBatchRequest}
    {result : HardwareBatchResult}
    (ht : t.Succeeds (history engine inputs d₀) c c' request result) :
    ∃ (messageBram : MessagePort.Memory) (jobBram : JobMemory),
      HoldsPayload messageBram request.message ∧ HoldsPayload jobBram (jobsBytes request.jobs) ∧
        ∀ k, t.stored ≤ k → k ≤ c' → (run engine inputs d₀ k).messageBram = messageBram ∧
          (run engine inputs d₀ k).jobBram = jobBram := by
  obtain ⟨_, hstores, -⟩ := ht.stores
  obtain ⟨message, job, a, b, -, -, ⟨hmessage, hsize⟩, ⟨hjob, hsize'⟩, hwrite, hwrite'⟩ :=
    hstores.memories
  have hother : ∀ k, b ≤ k → k < t.stored →
      ∀ o ∈ (history engine inputs d₀).events k, Spares .message o := by
    refine hwrite'.all (all_writeBytes (fun offset value => ?_) _)
    rw [hjob]
    exact Region.noConfusion
  refine ⟨(run engine inputs d₀ t.stored).messageBram, (run engine inputs d₀ t.stored).jobBram,
    fun x => ?_, fun x => ?_, fun k hk hk' => ⟨?_, ?_⟩⟩
  · rw [remembers_message.spared hwrite'.le hother]
    exact of_storePayload hmessage (hsize.trans rfl) remembers_message hwrite x
  · exact of_storePayload hjob (hsize'.trans rfl) remembers_job hwrite' x
  · exact remembers_message.spared hk fun j hj hj' =>
      spares_of_succeeds ht Region.noConfusion hj (by omega)
  · exact remembers_job.spared hk fun j hj hj' =>
      spares_of_succeeds ht Region.noConfusion hj (by omega)

end Device

end Kv260Sigv
