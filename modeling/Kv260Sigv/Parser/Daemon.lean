import Kv260Sigv.Library.Outcome
import Mathlib.Algebra.Group.Nat.Defs

/-!
# The daemon's transaction parser

`parser.rs` of the Rust daemon, function by function.  A byte slice is a list
whose length fits `isize`, which is what the language promises for every slice;
`usize` arithmetic is on `ℕ` with the overflow and saturation behaviour of a
64-bit target written out.  Every operation that can abort in Rust (`+` on
`usize`, slicing, indexing, `try_into().expect(..)`) is the `Outcome.panic`
branch of a checked primitive, so the model panics where the program would.
-/

namespace Kv260Sigv

/-- The bytes of a message, a key, a register window. -/
abbrev Bytes := List UInt8

/-- `[u8; n]`. -/
abbrev FixedBytes (n : ℕ) := { bytes : Bytes // bytes.length = n }

/-- `&[u8]`: a slice never exceeds `isize::MAX` bytes. -/
structure ByteSlice where
  bytes : Bytes
  length_lt : bytes.length < 2 ^ 63

/-- Wire version of a message. -/
inductive MessageVersion where
  | legacy
  | v0
  deriving DecidableEq, Repr

namespace Daemon

/-- `ParseError { message }`. -/
structure ParseError where
  message : String
  deriving DecidableEq, Repr

/-- `VerificationJob { index, pubkey, signature }`. -/
structure VerificationJob where
  index : ℕ
  pubkey : FixedBytes 32
  signature : FixedBytes 64
  deriving DecidableEq

/-- `ParsedTransaction`. -/
structure ParsedTransaction where
  transactionBytes : Bytes
  messageBytes : Bytes
  messageVersion : MessageVersion
  numRequiredSignatures : UInt8
  jobs : List VerificationJob
  deriving DecidableEq

/-- `ParsedMessage`. -/
structure ParsedMessage where
  messageVersion : MessageVersion
  numRequiredSignatures : UInt8
  staticAccountKeys : List (FixedBytes 32)
  deriving DecidableEq

/-- What a parser function of the daemon does. -/
abbrev Parse := Outcome ParseError

/-- `Err(ParseError::new(message))`. -/
def fail {α : Type} (message : String) : Parse α := .err ⟨message⟩

/-- `usize` addition: overflow aborts. -/
def usizeAdd (a b : ℕ) : Parse ℕ := if a + b < 2 ^ 64 then .ok (a + b) else .panic

/-- `usize::saturating_add`. -/
def saturatingAdd (a b : ℕ) : ℕ := min (a + b) (2 ^ 64 - 1)

/-- `slice.try_into().expect(..)` into `[u8; n]`. -/
def tryIntoArray (n : ℕ) (bytes : Bytes) : Parse (FixedBytes n) :=
  if h : bytes.length = n then .ok ⟨bytes, h⟩ else .panic

/-- The `for _ in 0..3` loop of `decode_compact_u16`, with `rounds` rounds
left. -/
def decodeCompactU16Loop (data : Bytes) :
    (rounds offset : ℕ) → (value shift : UInt32) → Parse (UInt16 × ℕ)
  | 0, _, _, _ => fail "compact-u16 exceeds 3 bytes"
  | rounds + 1, offset, value, shift =>
      match data[offset]? with
      | none => fail "truncated compact-u16"
      | some byte => do
          let offset ← usizeAdd offset 1
          let value := value ||| ((byte &&& 0x7f).toUInt32 <<< shift)
          if byte &&& 0x80 = 0 then
            if value > 0xffff then
              fail "compact-u16 overflow"
            else
              .ok (value.toUInt16, offset)
          else
            decodeCompactU16Loop data rounds offset value (shift + 7)

/-- `decode_compact_u16`. -/
def decodeCompactU16 (data : Bytes) (offset : ℕ) : Parse (UInt16 × ℕ) :=
  decodeCompactU16Loop data 3 offset 0 0

/-- `take`: the next `size` bytes and the offset past them. -/
def take (data : Bytes) (offset size : ℕ) (label : String) : Parse (Bytes × ℕ) :=
  let stop := saturatingAdd offset size
  if stop > data.length then
    fail s!"truncated {label}"
  else do
    let bytes ← Outcome.slice data offset stop
    .ok (bytes, stop)

/-- One round of `skip_compiled_instructions`. -/
def skipCompiledInstruction (data : Bytes) (offset : ℕ) : Parse ℕ := do
  let (_, offset) ← take data offset 1 "program_id_index"
  let (accountIndexCount, offset) ← decodeCompactU16 data offset
  let (_, offset) ← take data offset accountIndexCount.toNat "instruction account indices"
  let (dataLength, offset) ← decodeCompactU16 data offset
  let (_, offset) ← take data offset dataLength.toNat "instruction data"
  .ok offset

/-- `skip_compiled_instructions`. -/
def skipCompiledInstructions (data : Bytes) (offset : ℕ) : Parse ℕ := do
  let (instructionCount, offset) ← decodeCompactU16 data offset
  Outcome.iterate (skipCompiledInstruction data) instructionCount.toNat offset

/-- One round of `skip_address_table_lookups`. -/
def skipAddressTableLookup (data : Bytes) (offset : ℕ) : Parse ℕ := do
  let (_, offset) ← take data offset 32 "lookup account key"
  let (writableCount, offset) ← decodeCompactU16 data offset
  let (_, offset) ← take data offset writableCount.toNat "writable lookup indices"
  let (readonlyCount, offset) ← decodeCompactU16 data offset
  let (_, offset) ← take data offset readonlyCount.toNat "readonly lookup indices"
  .ok offset

/-- `skip_address_table_lookups`. -/
def skipAddressTableLookups (data : Bytes) (offset : ℕ) : Parse ℕ := do
  let (lookupCount, offset) ← decodeCompactU16 data offset
  Outcome.iterate (skipAddressTableLookup data) lookupCount.toNat offset

/-- One round of the key loop and of the signature loop: take `n` bytes, convert
them to an array, push it. -/
def takeArray (data : Bytes) (n : ℕ) (label : String)
    (state : List (FixedBytes n) × ℕ) : Parse (List (FixedBytes n) × ℕ) := do
  let (bytes, offset) ← take data state.2 n label
  let array ← tryIntoArray n bytes
  .ok (state.1 ++ [array], offset)

/-- The version prefix of a message and the offset of its header. -/
def messageVersion (messageBytes : Bytes) : Parse (MessageVersion × ℕ) := do
  let first ← Outcome.index messageBytes 0
  if first &&& 0x80 ≠ 0 then
    let version := first &&& 0x7f
    if version ≠ 0 then
      fail s!"unsupported message version: {version}"
    else
      .ok (.v0, 1)
  else
    .ok (.legacy, 0)

/-- `parse_message`. -/
def parseMessage (messageBytes : Bytes) : Parse ParsedMessage := do
  if messageBytes.isEmpty then
    fail "transaction is missing message bytes"
  else
    let (version, headerOffset) ← messageVersion messageBytes
    if headerOffset + 3 > messageBytes.length then
      fail "truncated message header"
    else
      let numRequiredSignatures ← Outcome.index messageBytes headerOffset
      let offset := headerOffset + 3
      let (accountKeyCount, offset) ← decodeCompactU16 messageBytes offset
      let (staticAccountKeys, offset) ←
        Outcome.iterate (takeArray messageBytes 32 "account key") accountKeyCount.toNat
          ([], offset)
      let (_, offset) ← take messageBytes offset 32 "recent blockhash"
      let offset ← skipCompiledInstructions messageBytes offset
      let offset ← if version = .v0 then skipAddressTableLookups messageBytes offset
        else .ok offset
      if offset ≠ messageBytes.length then
        fail "trailing bytes remain after message parse"
      else
        .ok ⟨version, numRequiredSignatures, staticAccountKeys⟩

/-- The `.enumerate().map(..)` that pairs signatures with keys, from signature
number `index` on.  `static_account_keys[index]` is a checked index. -/
def pairJobs (keys : List (FixedBytes 32)) :
    (index : ℕ) → List (FixedBytes 64) → Parse (List VerificationJob)
  | _, [] => .ok []
  | index, signature :: signatures => do
      let pubkey ← Outcome.index keys index
      let jobs ← pairJobs keys (index + 1) signatures
      .ok (⟨index, pubkey, signature⟩ :: jobs)

/-- `parse_transaction`.  The signature count is narrowed by `as u8` before it
is compared with the header. -/
def parseTransaction (transactionBytes : Bytes) : Parse ParsedTransaction := do
  let (numSignatures, offset) ← decodeCompactU16 transactionBytes 0
  let (signatures, offset) ←
    Outcome.iterate (takeArray transactionBytes 64 "signature") numSignatures.toNat ([], offset)
  let messageBytes ← Outcome.slice transactionBytes offset transactionBytes.length
  let info ← parseMessage messageBytes
  if numSignatures.toUInt8 ≠ info.numRequiredSignatures then
    fail s!"signature count does not match message header ({numSignatures} != {info.numRequiredSignatures})"
  else if info.staticAccountKeys.length < info.numRequiredSignatures.toNat then
    fail "not enough static account keys for signer set"
  else
    let jobs ← pairJobs info.staticAccountKeys 0 signatures
    .ok ⟨transactionBytes, messageBytes, info.messageVersion, info.numRequiredSignatures, jobs⟩

end Daemon

end Kv260Sigv
