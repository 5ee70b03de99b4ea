import Kv260Sigv.Rtl.Sha512CompressCore

/-!
# `sha512_stream_engine`

Hashes `prefix0 || prefix1 || message`, byte by byte: the prefixes come from a shift
register, the message from the message port a word at a time, then the padding.
Every byte goes through `pushByte`, which starts a compression when it fills the
block.
-/

set_option autoImplicit false

namespace Kv260Sigv

namespace Sha512StreamEngine

/-- `ST_IDLE .. ST_MSG_LATCH`. -/
inductive Phase where
  | idle
  | prefix0
  | prefix1
  | msgReq
  | msgWait
  | msgRead
  | pad80
  | padZero
  | length
  | compress
  | msgLatch
  deriving DecidableEq, Repr

/-- The registers, those of `block_core` among them; `w` is `MESSAGE_ADDR_WIDTH`, which the
device sets to 12. -/
structure State (w : ℕ := 12) where
  state : Phase
  resumeState : Phase
  totalPaddedBytes : BitVec 32
  blocksRemaining : BitVec 32
  blockByteIndex : BitVec 7
  blockBuffer : BitVec 1024
  hashState : BitVec 512
  blockStart : Bool
  prefixShift : BitVec 256
  prefixBytesLeft : BitVec 6
  messageBytesLeft : BitVec 16
  zeroPadBytesLeft : BitVec 32
  lengthShift : BitVec 64
  lengthBytesLeft : BitVec 4
  messageAddr : BitVec w
  msgRdEn : Bool
  msgRdAddr : BitVec w
  busy : Bool
  done : Bool
  error : Bool
  digestOut : BitVec 512
  msgWordBuf : BitVec 32
  msgByteSel : BitVec 2
  blockCore : Sha512CompressCore.State

/-- The inputs of a cycle. -/
structure Inputs where
  start : Bool
  prefix0 : BitVec 256
  prefix1 : BitVec 256
  messageLength : BitVec 16
  msgRdReady : Bool
  msgRdData : BitVec 32

/-- `SHA512_IV`. -/
def sha512Iv : BitVec 512 := Sha512CompressCore.concat8 fun k =>
  [0x6a09e667f3bcc908, 0xbb67ae8584caa73b, 0x3c6ef372fe94f82b, 0xa54ff53a5f1d36f1,
    0x510e527fade682d1, 0x9b05688c2b3e6c1f, 0x1f83d9abfb41bd6b, 0x5be0cd19137e2179].getD k 0

/-- `MAX_MESSAGE_BYTES`, which is `1 << MESSAGE_ADDR_WIDTH`. -/
def maxMessageBytes (w : ℕ) : BitVec 32 := 1 <<< w

/-- `raw_total_calc`. -/
def rawTotalCalc (messageLength : BitVec 16) : BitVec 32 := 64 + messageLength.setWidth 32

/-- `padded_total_calc`. -/
def paddedTotalCalc (messageLength : BitVec 16) : BitVec 32 :=
  let raw := rawTotalCalc messageLength
  let blocks : BitVec 32 := raw.extractLsb' 7 25 ++ (0 : BitVec 7)
  if raw.extractLsb' 0 7 ≤ 111 then blocks + 128 else blocks + 256

/-- Byte `sel` of a word. -/
def wordByte (word : BitVec 32) (sel : BitVec 2) : BitVec 8 :=
  word.extractLsb' (8 * sel.toNat) 8

variable {w : ℕ}

/-- `msg_current_byte`. -/
def msgCurrentByte (s : State w) : BitVec 8 := wordByte s.msgWordBuf s.msgByteSel

/-- The registers after `rst_n`, asynchronous; `block_core` has its own reset. -/
def reset (blockCore : Sha512CompressCore.State) : State w where
  state := .idle
  resumeState := .idle
  totalPaddedBytes := 0
  blocksRemaining := 0
  blockByteIndex := 0
  blockBuffer := 0
  hashState := sha512Iv
  blockStart := false
  prefixShift := 0
  prefixBytesLeft := 0
  messageBytesLeft := 0
  zeroPadBytesLeft := 0
  lengthShift := 0
  lengthBytesLeft := 0
  messageAddr := 0
  msgRdEn := false
  msgRdAddr := 0
  busy := false
  done := false
  error := false
  digestOut := 0
  msgWordBuf := 0
  msgByteSel := 0
  blockCore := blockCore

/-- A byte enters the block buffer; a full block is compressed before the machine
goes on in `target`. -/
def pushByte (s : State w) (byte : BitVec 8) (target : Phase) (n : State w) : State w :=
  let n := { n with blockBuffer := s.blockBuffer.extractLsb' 0 1016 ++ byte }
  if s.blockByteIndex = 127 then
    { n with blockStart := true, resumeState := target, state := .compress }
  else { n with blockByteIndex := s.blockByteIndex + 1, state := target }

/-- `ST_IDLE` with `start`. -/
def load (i : Inputs) (n : State w) : State w :=
  if i.messageLength.setWidth 32 > maxMessageBytes w then
    { n with busy := false, done := true, error := true, digestOut := 0, state := .idle }
  else
    { n with
      totalPaddedBytes := paddedTotalCalc i.messageLength
      blocksRemaining := paddedTotalCalc i.messageLength >>> 7
      blockByteIndex := 0
      blockBuffer := 0
      hashState := sha512Iv
      prefixShift := i.prefix0
      prefixBytesLeft := 32
      messageBytesLeft := i.messageLength
      zeroPadBytesLeft := paddedTotalCalc i.messageLength - rawTotalCalc i.messageLength - 9
      lengthShift := (64 + i.messageLength.setWidth 64) <<< 3
      lengthBytesLeft := 8
      messageAddr := 0
      busy := true
      error := false
      msgWordBuf := 0
      msgByteSel := 0
      state := .prefix0 }

/-- The state machine; `n` has the registers every cycle writes. -/
def stepState (i : Inputs) (s n : State w) : State w :=
  match s.state with
  | .idle => if i.start then load i n else n
  | .prefix0 =>
      let byte := s.prefixShift.extractLsb' 0 8
      if s.prefixBytesLeft = 1 then
        pushByte s byte .prefix1 { n with prefixShift := i.prefix1, prefixBytesLeft := 32 }
      else
        pushByte s byte .prefix0
          { n with prefixShift := s.prefixShift >>> 8, prefixBytesLeft := s.prefixBytesLeft - 1 }
  | .prefix1 =>
      let byte := s.prefixShift.extractLsb' 0 8
      let n := { n with prefixShift := s.prefixShift >>> 8 }
      if s.prefixBytesLeft = 1 then
        pushByte s byte (if s.messageBytesLeft ≠ 0 then .msgReq else .pad80) n
      else pushByte s byte .prefix1 { n with prefixBytesLeft := s.prefixBytesLeft - 1 }
  | .msgReq =>
      { n with
        msgRdEn := true
        msgRdAddr := s.messageAddr
        state := if i.msgRdReady then .msgWait else .msgReq }
  | .msgWait => { n with state := .msgLatch }
  | .msgLatch =>
      let sel : BitVec 2 := s.messageAddr.setWidth 2
      pushByte s (wordByte i.msgRdData sel) (if s.messageBytesLeft = 1 then .pad80 else .msgRead)
        { n with
          msgWordBuf := i.msgRdData
          messageAddr := s.messageAddr + 1
          messageBytesLeft := s.messageBytesLeft - 1
          msgByteSel := sel + 1 }
  | .msgRead =>
      pushByte s (msgCurrentByte s)
        (if s.messageBytesLeft = 1 then .pad80
          else if s.msgByteSel = 3 then .msgReq else .msgRead)
        { n with
          messageAddr := s.messageAddr + 1
          messageBytesLeft := s.messageBytesLeft - 1
          msgByteSel := s.msgByteSel + 1 }
  | .pad80 => pushByte s 0x80 (if s.zeroPadBytesLeft ≠ 0 then .padZero else .length) n
  | .padZero =>
      pushByte s 0 (if s.zeroPadBytesLeft = 1 then .length else .padZero)
        { n with zeroPadBytesLeft := s.zeroPadBytesLeft - 1 }
  | .length =>
      pushByte s (s.lengthShift.extractLsb' 56 8) (if s.lengthBytesLeft = 1 then .idle else .length)
        { n with
          lengthShift := s.lengthShift <<< 8
          lengthBytesLeft := s.lengthBytesLeft - 1 }
  | .compress =>
      if s.blockCore.done then
        let n :=
          { n with hashState := s.blockCore.hOut, blockBuffer := 0, blockByteIndex := 0 }
        if s.blocksRemaining = 1 then
          { n with
            digestOut := s.blockCore.hOut
            busy := false
            done := true
            error := false
            state := .idle }
        else { n with blocksRemaining := s.blocksRemaining - 1, state := s.resumeState }
      else n

/-- One clock cycle with `rst_n` high. -/
def step (i : Inputs) (s : State w) : State w :=
  stepState i s
    { s with
      blockStart := false
      msgRdEn := false
      done := false
      blockCore := Sha512CompressCore.step ⟨s.blockStart, s.hashState, s.blockBuffer⟩ s.blockCore }

/-- What the rest of the design sees of the registers in a cycle. -/
def State.visible (rstN : Bool) (s : State w) : State w := if rstN then s else reset s.blockCore

/-- One clock cycle. -/
def State.clock (rstN : Bool) (i : Inputs) (s : State w) : State w :=
  if rstN then step i s else reset Sha512CompressCore.reset

end Sha512StreamEngine

end Kv260Sigv
