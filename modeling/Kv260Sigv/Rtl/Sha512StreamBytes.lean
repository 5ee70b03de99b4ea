import Kv260Sigv.Library.Clocked
import Kv260Sigv.Rtl.Sha512CompressResult
import Kv260Sigv.Rtl.Sha512StreamEngine

/-!
# The bytes a hash engine has still to absorb

The engine feeds one byte at a time into its block buffer, from four sources in turn.
`todo` is the stream that is left in a phase, read off the shift registers and counters,
so that a push takes one byte from the stream to the buffer and changes nothing else.
The number of bytes in the buffer and in the stream is always a whole number of blocks;
so the buffer fills exactly when a block ends, whatever the phase, and the stream ends
with a block.
-/

set_option autoImplicit false

namespace Kv260Sigv

namespace Sha512StreamEngine

variable {w : ℕ}

/-! ### The sources -/

/-- `msg_rd_addr[MESSAGE_ADDR_WIDTH-1:2]`. -/
def wordAddr (addr : BitVec w) : BitVec (w - 2) := addr.extractLsb' 2 (w - 2)

/-- The message byte at an address. -/
def memoryByte (mem : BitVec (w - 2) → BitVec 32) (addr : BitVec w) : BitVec 8 :=
  wordByte (mem (wordAddr addr)) (addr.setWidth 2)

/-- The next `n` message bytes. -/
def memoryBytes (mem : BitVec (w - 2) → BitVec 32) : ℕ → BitVec w → List (BitVec 8)
  | 0, _ => []
  | n + 1, addr => memoryByte mem addr :: memoryBytes mem n (addr + 1)

/-- The next `n` bytes of a prefix, from the low end. -/
def prefixBytes : ℕ → BitVec 256 → List (BitVec 8)
  | 0, _ => []
  | n + 1, x => x.extractLsb' 0 8 :: prefixBytes n (x >>> 8)

/-- The next `n` bytes of the length, from the high end. -/
def lengthTail : ℕ → BitVec 64 → List (BitVec 8)
  | 0, _ => []
  | n + 1, x => x.extractLsb' 56 8 :: lengthTail n (x <<< 8)

/-- The zeros of the padding and the length. -/
def zerosAndLength (s : State w) : List (BitVec 8) :=
  List.replicate s.zeroPadBytesLeft.toNat 0 ++ lengthTail s.lengthBytesLeft.toNat s.lengthShift

/-- The message and the padding. -/
def messageAndPadding (mem : BitVec (w - 2) → BitVec 32) (s : State w) : List (BitVec 8) :=
  memoryBytes mem s.messageBytesLeft.toNat s.messageAddr ++ (0x80 :: zerosAndLength s)

/-- The stream that is left in a phase. -/
def todo (prefix1 : BitVec 256) (mem : BitVec (w - 2) → BitVec 32) (s : State w) :
    Phase → List (BitVec 8)
  | .prefix0 => prefixBytes s.prefixBytesLeft.toNat s.prefixShift ++
      (prefixBytes 32 prefix1 ++ messageAndPadding mem s)
  | .prefix1 => prefixBytes s.prefixBytesLeft.toNat s.prefixShift ++ messageAndPadding mem s
  | .msgReq => messageAndPadding mem s
  | .msgWait => messageAndPadding mem s
  | .msgLatch => messageAndPadding mem s
  | .msgRead => messageAndPadding mem s
  | .pad80 => 0x80 :: zerosAndLength s
  | .padZero => zerosAndLength s
  | .length => lengthTail s.lengthBytesLeft.toNat s.lengthShift
  | .idle => []
  | .compress => []

/-- What the source of a phase needs for its next byte; `data` is on `msg_rd_data`. -/
def Source (mem : BitVec (w - 2) → BitVec 32) (data : BitVec 32) (s : State w) : Phase → Prop
  | .prefix0 => 0 < s.prefixBytesLeft.toNat ∧ s.messageAddr = 0
  | .prefix1 => 0 < s.prefixBytesLeft.toNat ∧ s.messageAddr = 0
  | .msgReq => 0 < s.messageBytesLeft.toNat ∧ s.messageAddr.setWidth 2 = (0 : BitVec 2)
  | .msgWait => 0 < s.messageBytesLeft.toNat ∧ s.messageAddr.setWidth 2 = (0 : BitVec 2) ∧
      s.msgRdEn = true ∧ s.msgRdAddr = s.messageAddr
  | .msgLatch => 0 < s.messageBytesLeft.toNat ∧ s.messageAddr.setWidth 2 = (0 : BitVec 2) ∧
      data = mem (wordAddr s.messageAddr)
  | .msgRead => 0 < s.messageBytesLeft.toNat ∧ s.msgByteSel = s.messageAddr.setWidth 2 ∧
      s.msgByteSel ≠ 0 ∧ s.msgWordBuf = mem (wordAddr s.messageAddr)
  | .pad80 => True
  | .padZero => 0 < s.zeroPadBytesLeft.toNat
  | .length => True
  | .idle => True
  | .compress => True

/-- A phase can take its next byte, and the length is still to come. -/
structure Supplied (mem : BitVec (w - 2) → BitVec 32) (data : BitVec 32) (s : State w)
    (t : Phase) : Prop where
  source : Source mem data s t
  length : t ≠ .idle → 0 < s.lengthBytesLeft.toNat

/-- A phase in which the machine goes on after a byte. -/
def Target (t : Phase) : Prop := t ≠ .compress ∧ t ≠ .msgWait ∧ t ≠ .msgLatch

instance (t : Phase) : Decidable (Target t) := inferInstanceAs (Decidable (_ ∧ _ ∧ _))

/-! ### The next byte of a source -/

/-- `1` in a counter that can hold it. -/
theorem toNat_one {k : ℕ} (h : 1 < 2 ^ k) : (1 : BitVec k).toNat = 1 := by
  show (BitVec.ofNat k 1).toNat = 1
  rw [BitVec.toNat_ofNat, Nat.mod_eq_of_lt h]

/-- A counter that is not zero, one down. -/
theorem toNat_sub_one {k : ℕ} {x : BitVec k} (h : 0 < x.toNat) : (x - 1).toNat + 1 = x.toNat := by
  have hone := toNat_one (lt_of_le_of_lt h x.isLt)
  have hle : (1 : BitVec k) ≤ x := by
    rw [BitVec.le_def, hone]
    exact h
  rw [BitVec.toNat_sub_of_le hle, hone]
  omega

/-- A counter is at one when nothing is left below it. -/
theorem eq_one_iff {k : ℕ} {x : BitVec k} (h : 0 < x.toNat) : x = 1 ↔ (x - 1).toNat = 0 := by
  have hstep := toNat_sub_one h
  constructor
  · rintro rfl
    rw [BitVec.sub_self]
    rfl
  · intro hzero
    apply BitVec.eq_of_toNat_eq
    rw [toNat_one (lt_of_le_of_lt h x.isLt)]
    omega

/-- A counter that goes down and is not at one does not end. -/
theorem sub_one_pos {k : ℕ} {x : BitVec k} (h : 0 < x.toNat) (hlast : x ≠ 1) :
    0 < (x - 1).toNat :=
  Nat.pos_of_ne_zero fun hzero => hlast ((eq_one_iff h).mpr hzero)

theorem prefixBytes_next {x : BitVec 6} (h : 0 < x.toNat) (y : BitVec 256) :
    prefixBytes x.toNat y = y.extractLsb' 0 8 :: prefixBytes (x - 1).toNat (y >>> 8) := by
  rw [← toNat_sub_one h]
  rfl

theorem memoryBytes_next (mem : BitVec (w - 2) → BitVec 32) {x : BitVec 16} (h : 0 < x.toNat)
    (addr : BitVec w) :
    memoryBytes mem x.toNat addr =
      memoryByte mem addr :: memoryBytes mem (x - 1).toNat (addr + 1) := by
  rw [← toNat_sub_one h]
  rfl

theorem lengthTail_next {x : BitVec 4} (h : 0 < x.toNat) (y : BitVec 64) :
    lengthTail x.toNat y = y.extractLsb' 56 8 :: lengthTail (x - 1).toNat (y <<< 8) := by
  rw [← toNat_sub_one h]
  rfl

theorem replicate_next {x : BitVec 32} (h : 0 < x.toNat) :
    List.replicate x.toNat (0 : BitVec 8) = 0 :: List.replicate (x - 1).toNat 0 := by
  rw [← toNat_sub_one h]
  rfl

/-! ### Consecutive addresses -/

theorem low_succ (hw : 2 ≤ w) (addr : BitVec w) :
    (addr + 1).setWidth 2 = addr.setWidth 2 + (1 : BitVec 2) := by
  rw [BitVec.setWidth_add addr 1 hw]
  congr 1
  apply BitVec.eq_of_toNat_eq
  rw [BitVec.toNat_setWidth, toNat_one (Nat.one_lt_two_pow (by omega))]
  rfl

/-- The next byte is in the same word, unless this one is the last of its word. -/
theorem wordAddr_succ (hw : 2 ≤ w) {addr : BitVec w} (h : addr.setWidth 2 ≠ (3 : BitVec 2)) :
    wordAddr (addr + 1) = wordAddr addr := by
  have hlow : addr.toNat % 4 ≠ 3 := by
    intro hlow
    apply h
    apply BitVec.eq_of_toNat_eq
    rw [BitVec.toNat_setWidth]
    exact hlow
  have hfour : 2 ^ w % 4 = 0 := by
    obtain ⟨k, rfl⟩ := Nat.exists_eq_add_of_le hw
    rw [pow_add]
    exact Nat.mul_mod_right 4 (2 ^ k)
  have hlt := addr.isLt
  have hone := toNat_one (Nat.one_lt_two_pow (show w ≠ 0 by omega))
  have hsum : (addr + 1).toNat = addr.toNat + 1 := by
    rw [BitVec.toNat_add, hone]
    exact Nat.mod_eq_of_lt (by omega)
  apply BitVec.eq_of_toNat_eq
  unfold wordAddr
  rw [BitVec.extractLsb'_toNat, BitVec.extractLsb'_toNat, hsum, Nat.shiftRight_eq_div_pow,
    Nat.shiftRight_eq_div_pow]
  congr 1
  omega

/-! ### The streams as byte strings -/

/-- A prefix in little-endian byte order. -/
theorem prefixBytes_eq (n : ℕ) (x : BitVec 256) :
    prefixBytes n x = (List.range n).map fun k => x.extractLsb' (8 * k) 8 := by
  induction n generalizing x with
  | zero => rfl
  | succ n ih =>
      rw [prefixBytes, ih, List.range_succ_eq_map, List.map_cons, List.map_map]
      congr 1
      apply List.map_congr_left
      intro k _
      apply BitVec.eq_of_getLsbD_eq
      intro j hj
      simp only [Function.comp_apply, BitVec.getLsbD_extractLsb', BitVec.getLsbD_ushiftRight]
      congr 2
      omega

/-- The bytes of the message memory from an address on. -/
theorem memoryBytes_eq (mem : BitVec (w - 2) → BitVec 32) (n : ℕ) (addr : BitVec w) :
    memoryBytes mem n addr =
      (List.range n).map fun k => memoryByte mem (addr + BitVec.ofNat w k) := by
  induction n generalizing addr with
  | zero => rfl
  | succ n ih =>
      rw [memoryBytes, ih, List.range_succ_eq_map, List.map_cons, List.map_map]
      congr 1
      · exact congrArg (memoryByte mem) (BitVec.add_zero addr).symm
      · apply List.map_congr_left
        intro k _
        rw [Function.comp_apply, Nat.succ_eq_add_one, BitVec.ofNat_add, BitVec.add_assoc,
          BitVec.add_comm (BitVec.ofNat w k)]
        rfl

/-- The length from the high end. -/
theorem lengthTail_eq {n : ℕ} (h : n ≤ 8) (x : BitVec 64) :
    lengthTail n x = (List.range n).map fun k => x.extractLsb' (56 - 8 * k) 8 := by
  induction n generalizing x with
  | zero => rfl
  | succ n ih =>
      rw [lengthTail, ih (by omega), List.range_succ_eq_map, List.map_cons, List.map_map]
      congr 1
      apply List.map_congr_left
      intro k hk
      have hk := List.mem_range.mp hk
      apply BitVec.eq_of_getLsbD_eq
      intro j hj
      simp only [Function.comp_apply, BitVec.getLsbD_extractLsb', BitVec.getLsbD_shiftLeft,
        show 56 - 8 * k + j < 64 by omega, show ¬ 56 - 8 * k + j < 8 by omega,
        decide_true, decide_false, Bool.not_false, Bool.true_and]
      congr 2
      omega

/-! ### Cycles that leave the sources alone -/

/-- The registers that the streams are read off. -/
structure SameSources (s n : State w) : Prop where
  prefixShift : n.prefixShift = s.prefixShift
  prefixBytesLeft : n.prefixBytesLeft = s.prefixBytesLeft
  messageBytesLeft : n.messageBytesLeft = s.messageBytesLeft
  zeroPadBytesLeft : n.zeroPadBytesLeft = s.zeroPadBytesLeft
  lengthShift : n.lengthShift = s.lengthShift
  lengthBytesLeft : n.lengthBytesLeft = s.lengthBytesLeft
  messageAddr : n.messageAddr = s.messageAddr
  msgWordBuf : n.msgWordBuf = s.msgWordBuf
  msgByteSel : n.msgByteSel = s.msgByteSel

theorem sameSources_pushByte (s n : State w) (byte : BitVec 8) (target : Phase) :
    SameSources n (pushByte s byte target n) := by
  unfold pushByte
  dsimp only
  split
  · exact ⟨rfl, rfl, rfl, rfl, rfl, rfl, rfl, rfl, rfl⟩
  · exact ⟨rfl, rfl, rfl, rfl, rfl, rfl, rfl, rfl, rfl⟩

variable {prefix1 : BitVec 256} {mem : BitVec (w - 2) → BitVec 32} {data data' : BitVec 32}
  {s n : State w} {t : Phase}

theorem SameSources.todo_eq (h : SameSources s n) (prefix1 : BitVec 256)
    (mem : BitVec (w - 2) → BitVec 32) (t : Phase) :
    todo prefix1 mem n t = todo prefix1 mem s t := by
  have hzeros : zerosAndLength n = zerosAndLength s := by
    rw [zerosAndLength, h.zeroPadBytesLeft, h.lengthBytesLeft, h.lengthShift]
    rfl
  have hmessage : messageAndPadding mem n = messageAndPadding mem s := by
    rw [messageAndPadding, h.messageBytesLeft, h.messageAddr, hzeros]
    rfl
  cases t
  case length => rw [todo, todo, h.lengthBytesLeft, h.lengthShift]
  all_goals simp only [todo, h.prefixBytesLeft, h.prefixShift, hzeros, hmessage]

/-- A phase that follows a byte waits for nothing but its registers. -/
theorem SameSources.supplied (h : SameSources s n) (ht : Target t) (hs : Supplied mem data s t) :
    Supplied mem data' n t := by
  obtain ⟨hsource, hlength⟩ := hs
  refine ⟨?_, by rw [h.lengthBytesLeft]; exact hlength⟩
  cases t
  case compress => exact absurd rfl ht.1
  case msgWait => exact absurd rfl ht.2.1
  case msgLatch => exact absurd rfl ht.2.2
  all_goals
    simp only [Source, h.prefixBytesLeft, h.messageAddr, h.messageBytesLeft, h.msgByteSel,
      h.msgWordBuf, h.zeroPadBytesLeft] at hsource ⊢
  all_goals exact hsource

/-! ### The byte of a cycle -/

/-- The registers that every cycle writes. -/
def entry (s : State w) : State w :=
  { s with
    blockStart := false
    msgRdEn := false
    done := false
    blockCore :=
      Sha512CompressCore.step ⟨s.blockStart, s.hashState, s.blockBuffer⟩ s.blockCore }

theorem step_eq (i : Inputs) (s : State w) : step i s = stepState i s (entry s) := rfl

/-- The registers of the hash computation are as every cycle leaves them. -/
structure SameHash (s n : State w) : Prop where
  blocksRemaining : n.blocksRemaining = s.blocksRemaining
  hashState : n.hashState = s.hashState
  blockStart : n.blockStart = false
  done : n.done = false
  error : n.error = s.error
  blockCore : n.blockCore = (entry s).blockCore

/-- A byte leaves the stream; the machine goes on in `target`. -/
structure Takes (prefix1 : BitVec 256) (mem : BitVec (w - 2) → BitVec 32) (s n : State w)
    (byte : BitVec 8) (target : Phase) : Prop where
  stream : todo prefix1 mem s s.state = byte :: todo prefix1 mem n target
  supplied : Supplied mem 0 n target
  target : Target target
  same : SameHash s n

/-- The cycle moves the next byte of the stream into the block. -/
def Pushes (prefix1 : BitVec 256) (mem : BitVec (w - 2) → BitVec 32) (i : Inputs) (s : State w) :
    Prop :=
  ∃ byte target n, step i s = pushByte s byte target n ∧ Takes prefix1 mem s n byte target

/-- The phases that take a byte in every cycle. -/
def Feeds (t : Phase) : Prop := t ≠ .idle ∧ t ≠ .compress ∧ t ≠ .msgReq ∧ t ≠ .msgWait

theorem prefix0_takes {i : Inputs} (hphase : s.state = .prefix0)
    (hs : Supplied mem data s s.state) (hheld : i.prefix1 = prefix1) :
    Pushes prefix1 mem i s := by
  rw [hphase] at hs
  obtain ⟨⟨hleft, haddr⟩, hlength⟩ := hs
  have hlength := hlength (by decide)
  have hstream := congrArg (· ++ (prefixBytes 32 prefix1 ++ messageAndPadding mem s))
    (prefixBytes_next hleft s.prefixShift)
  rw [Pushes, step_eq, stepState, hphase]
  dsimp only
  by_cases hlast : s.prefixBytesLeft = 1
  · rw [if_pos hlast]
    refine ⟨_, _, _, rfl, ?_, ⟨⟨Nat.succ_pos 31, haddr⟩, fun _ => hlength⟩,
      by decide, rfl, rfl, rfl, rfl, rfl, rfl⟩
    rw [hphase, hheld]
    rw [(eq_one_iff hleft).mp hlast] at hstream
    exact hstream
  · rw [if_neg hlast]
    refine ⟨_, _, _, rfl, ?_, ⟨⟨?_, haddr⟩, fun _ => hlength⟩, by decide,
      rfl, rfl, rfl, rfl, rfl, rfl⟩
    · rw [hphase]
      exact hstream
    · exact sub_one_pos hleft hlast

theorem prefix1_takes {i : Inputs} (hphase : s.state = .prefix1)
    (hs : Supplied mem data s s.state) :
    Pushes prefix1 mem i s := by
  rw [hphase] at hs
  obtain ⟨⟨hleft, haddr⟩, hlength⟩ := hs
  have hlength := hlength (by decide)
  have hstream := congrArg (· ++ messageAndPadding mem s) (prefixBytes_next hleft s.prefixShift)
  rw [Pushes, step_eq, stepState, hphase]
  dsimp only
  by_cases hlast : s.prefixBytesLeft = 1
  · rw [if_pos hlast]
    rw [(eq_one_iff hleft).mp hlast] at hstream
    by_cases hmessage : s.messageBytesLeft = 0
    · rw [if_neg (not_not.mpr hmessage)]
      refine ⟨_, _, _, rfl, ?_, ⟨trivial, fun _ => hlength⟩, by decide,
        rfl, rfl, rfl, rfl, rfl, rfl⟩
      have hempty : messageAndPadding mem s = 0x80 :: zerosAndLength s := by
        rw [messageAndPadding, hmessage]
        rfl
      rw [hphase]
      exact hstream.trans (congrArg _ hempty)
    · rw [if_pos hmessage]
      refine ⟨_, _, _, rfl, ?_, ⟨⟨?_, ?_⟩, fun _ => hlength⟩, by decide,
        rfl, rfl, rfl, rfl, rfl, rfl⟩
      · rw [hphase]
        exact hstream
      · exact Nat.pos_of_ne_zero fun hzero => hmessage (BitVec.eq_of_toNat_eq hzero)
      · show s.messageAddr.setWidth 2 = (0 : BitVec 2)
        rw [haddr]
        exact BitVec.setWidth_zero 2 w
  · rw [if_neg hlast]
    refine ⟨_, _, _, rfl, ?_, ⟨⟨?_, haddr⟩, fun _ => hlength⟩, by decide,
      rfl, rfl, rfl, rfl, rfl, rfl⟩
    · rw [hphase]
      exact hstream
    · exact sub_one_pos hleft hlast

/-- The first byte of a word. -/
theorem msgLatch_takes {i : Inputs} (hw : 2 ≤ w) (hphase : s.state = .msgLatch)
    (hs : Supplied mem i.msgRdData s s.state) :
    Pushes prefix1 mem i s := by
  rw [hphase] at hs
  obtain ⟨⟨hleft, haddr, hdata⟩, hlength⟩ := hs
  have hlength := hlength (by decide)
  have hstream := congrArg (· ++ (0x80 :: zerosAndLength s))
    (memoryBytes_next mem hleft s.messageAddr)
  rw [memoryByte, ← hdata] at hstream
  rw [Pushes, step_eq, stepState, hphase]
  dsimp only
  by_cases hlast : s.messageBytesLeft = 1
  · rw [if_pos hlast]
    refine ⟨_, _, _, rfl, ?_, ⟨trivial, fun _ => hlength⟩, by decide,
      rfl, rfl, rfl, rfl, rfl, rfl⟩
    rw [hphase]
    rw [(eq_one_iff hleft).mp hlast] at hstream
    exact hstream
  · rw [if_neg hlast]
    refine ⟨_, _, _, rfl, ?_, ⟨⟨?_, ?_, ?_, ?_⟩, fun _ => hlength⟩, by decide,
      rfl, rfl, rfl, rfl, rfl, rfl⟩
    · rw [hphase]
      exact hstream
    · exact sub_one_pos hleft hlast
    · exact (low_succ hw s.messageAddr).symm
    · show s.messageAddr.setWidth 2 + 1 ≠ (0 : BitVec 2)
      rw [haddr]
      decide
    · show i.msgRdData = mem (wordAddr (s.messageAddr + 1))
      rw [wordAddr_succ hw (by rw [haddr]; decide)]
      exact hdata

/-- The other bytes of a word. -/
theorem msgRead_takes {i : Inputs} (hw : 2 ≤ w) (hphase : s.state = .msgRead)
    (hs : Supplied mem data s s.state) :
    Pushes prefix1 mem i s := by
  rw [hphase] at hs
  obtain ⟨⟨hleft, hsel, hne, hbuf⟩, hlength⟩ := hs
  have hlength := hlength (by decide)
  have hstream := congrArg (· ++ (0x80 :: zerosAndLength s))
    (memoryBytes_next mem hleft s.messageAddr)
  rw [memoryByte, ← hbuf, ← hsel] at hstream
  rw [Pushes, step_eq, stepState, hphase]
  dsimp only
  by_cases hlast : s.messageBytesLeft = 1
  · rw [if_pos hlast]
    refine ⟨_, _, _, rfl, ?_, ⟨trivial, fun _ => hlength⟩, by decide,
      rfl, rfl, rfl, rfl, rfl, rfl⟩
    rw [hphase]
    rw [(eq_one_iff hleft).mp hlast] at hstream
    exact hstream
  · rw [if_neg hlast]
    by_cases hword : s.msgByteSel = 3
    · rw [if_pos hword]
      refine ⟨_, _, _, rfl, ?_, ⟨⟨sub_one_pos hleft hlast, ?_⟩, fun _ => hlength⟩,
        by decide, rfl, rfl, rfl, rfl, rfl, rfl⟩
      · rw [hphase]
        exact hstream
      · show (s.messageAddr + 1).setWidth 2 = (0 : BitVec 2)
        rw [low_succ hw, ← hsel, hword]
        rfl
    · rw [if_neg hword]
      refine ⟨_, _, _, rfl, ?_, ⟨⟨sub_one_pos hleft hlast, ?_, ?_, ?_⟩, fun _ => hlength⟩,
        by decide, rfl, rfl, rfl, rfl, rfl, rfl⟩
      · rw [hphase]
        exact hstream
      · show s.msgByteSel + 1 = (s.messageAddr + 1).setWidth 2
        rw [low_succ hw, hsel]
      · intro hwrap
        apply hword
        exact add_right_cancel (hwrap.trans (by decide : (0 : BitVec 2) = 3 + 1))
      · show s.msgWordBuf = mem (wordAddr (s.messageAddr + 1))
        rw [wordAddr_succ hw (by rw [← hsel]; exact hword)]
        exact hbuf

theorem pad80_takes {i : Inputs} (hphase : s.state = .pad80) (hs : Supplied mem data s s.state) :
    Pushes prefix1 mem i s := by
  rw [hphase] at hs
  have hlength := hs.length (by decide)
  rw [Pushes, step_eq, stepState, hphase]
  dsimp only
  by_cases hzeros : s.zeroPadBytesLeft = 0
  · rw [if_neg (not_not.mpr hzeros)]
    refine ⟨_, _, _, rfl, ?_, ⟨trivial, fun _ => hlength⟩, by decide,
      rfl, rfl, rfl, rfl, rfl, rfl⟩
    rw [hphase, todo, zerosAndLength, hzeros]
    rfl
  · rw [if_pos hzeros]
    refine ⟨_, _, _, rfl, ?_, ⟨?_, fun _ => hlength⟩, by decide,
      rfl, rfl, rfl, rfl, rfl, rfl⟩
    · rw [hphase]
      rfl
    · exact Nat.pos_of_ne_zero fun hzero => hzeros (BitVec.eq_of_toNat_eq hzero)

theorem padZero_takes {i : Inputs} (hphase : s.state = .padZero)
    (hs : Supplied mem data s s.state) :
    Pushes prefix1 mem i s := by
  rw [hphase] at hs
  have hleft : 0 < s.zeroPadBytesLeft.toNat := hs.source
  have hlength := hs.length (by decide)
  have hstream := congrArg (· ++ lengthTail s.lengthBytesLeft.toNat s.lengthShift)
    (replicate_next hleft)
  rw [Pushes, step_eq, stepState, hphase]
  dsimp only
  by_cases hlast : s.zeroPadBytesLeft = 1
  · rw [if_pos hlast]
    refine ⟨_, _, _, rfl, ?_, ⟨trivial, fun _ => hlength⟩, by decide,
      rfl, rfl, rfl, rfl, rfl, rfl⟩
    rw [hphase]
    rw [(eq_one_iff hleft).mp hlast] at hstream
    exact hstream
  · rw [if_neg hlast]
    refine ⟨_, _, _, rfl, ?_, ⟨?_, fun _ => hlength⟩, by decide,
      rfl, rfl, rfl, rfl, rfl, rfl⟩
    · rw [hphase]
      exact hstream
    · exact sub_one_pos hleft hlast

theorem length_takes {i : Inputs} (hphase : s.state = .length) (hs : Supplied mem data s s.state) :
    Pushes prefix1 mem i s := by
  rw [hphase] at hs
  have hleft := hs.length (by decide)
  have hstream := lengthTail_next hleft s.lengthShift
  rw [Pushes, step_eq, stepState, hphase]
  dsimp only
  by_cases hlast : s.lengthBytesLeft = 1
  · rw [if_pos hlast]
    refine ⟨_, _, _, rfl, ?_, ⟨trivial, fun h => absurd rfl h⟩, by decide,
      rfl, rfl, rfl, rfl, rfl, rfl⟩
    rw [hphase]
    rw [(eq_one_iff hleft).mp hlast] at hstream
    exact hstream
  · rw [if_neg hlast]
    refine ⟨_, _, _, rfl, ?_, ⟨trivial, fun _ => ?_⟩, by decide,
      rfl, rfl, rfl, rfl, rfl, rfl⟩
    · rw [hphase]
      exact hstream
    · exact sub_one_pos hleft hlast

/-- A supplied phase that feeds pushes the next byte of the stream. -/
theorem step_takes {i : Inputs} (hw : 2 ≤ w) (hfeeds : Feeds s.state)
    (hs : Supplied mem i.msgRdData s s.state) (hheld : i.prefix1 = prefix1) :
    Pushes prefix1 mem i s := by
  cases hphase : s.state with
  | idle => exact absurd hphase hfeeds.1
  | compress => exact absurd hphase hfeeds.2.1
  | msgReq => exact absurd hphase hfeeds.2.2.1
  | msgWait => exact absurd hphase hfeeds.2.2.2
  | prefix0 => exact prefix0_takes hphase hs hheld
  | prefix1 => exact prefix1_takes hphase hs
  | msgLatch => exact msgLatch_takes hw hphase hs
  | msgRead => exact msgRead_takes hw hphase hs
  | pad80 => exact pad80_takes hphase hs
  | padZero => exact padZero_takes hphase hs
  | length => exact length_takes hphase hs

end Sha512StreamEngine

end Kv260Sigv
