import Kv260Sigv.Parser.Daemon

/-!
# The reference transaction parser

`solana_sigverify_mvp.py`, function by function.  Python integers are unbounded,
so offsets and counts are `ℕ`; `data[lo:hi]` never fails and clips; `data[i]`
and `keys[i]` raise `IndexError` when out of range, which no caller catches and
is therefore `Outcome.panic` here, while `ParseError` is `Outcome.err`.
-/

namespace Kv260Sigv

namespace Reference

/-- `class ParseError(ValueError)`. -/
structure ParseError where
  message : String
  deriving DecidableEq, Repr

/-- `VerificationJob`. -/
structure VerificationJob where
  index : ℕ
  pubkey : Bytes
  signature : Bytes
  deriving DecidableEq

/-- `ParsedTransaction`. -/
structure ParsedTransaction where
  transactionBytes : Bytes
  messageBytes : Bytes
  messageVersion : MessageVersion
  numRequiredSignatures : ℕ
  jobs : List VerificationJob
  deriving DecidableEq

/-- The dictionary `parse_message` returns. -/
structure ParsedMessage where
  messageVersion : MessageVersion
  numRequiredSignatures : ℕ
  numReadonlySigned : ℕ
  numReadonlyUnsigned : ℕ
  staticAccountKeys : List Bytes
  instructionCount : ℕ
  lookupCount : ℕ
  deriving DecidableEq

/-- What a parser function of the reference does. -/
abbrev Parse := Outcome ParseError

/-- `raise ParseError(message)`. -/
def fail {α : Type} (message : String) : Parse α := .err ⟨message⟩

/-- `data[lo:hi]` for `lo ≤ hi`. -/
def slice (data : Bytes) (lo hi : ℕ) : Bytes := (data.drop lo).take (hi - lo)

/-- The `for _ in range(3)` loop of `decode_compact_u16`, with `rounds` rounds
left. -/
def decodeCompactU16Loop (data : Bytes) :
    (rounds offset value shift : ℕ) → Parse (ℕ × ℕ)
  | 0, _, _, _ => fail "compact-u16 exceeds 3 bytes"
  | rounds + 1, offset, value, shift =>
      if offset ≥ data.length then
        fail "truncated compact-u16"
      else do
        let byte ← Outcome.index data offset
        let offset := offset + 1
        let value := value ||| ((byte.toNat &&& 0x7f) <<< shift)
        if byte.toNat &&& 0x80 = 0 then
          if value > 0xffff then
            fail "compact-u16 overflow"
          else
            .ok (value, offset)
        else
          decodeCompactU16Loop data rounds offset value (shift + 7)

/-- `decode_compact_u16`. -/
def decodeCompactU16 (data : Bytes) (offset : ℕ) : Parse (ℕ × ℕ) :=
  decodeCompactU16Loop data 3 offset 0 0

/-- `_take`. -/
def take (data : Bytes) (offset size : ℕ) (label : String) : Parse (Bytes × ℕ) :=
  let stop := offset + size
  if stop > data.length then
    fail s!"truncated {label}"
  else
    .ok (slice data offset stop, stop)

/-- One round of `_skip_compiled_instructions`. -/
def skipCompiledInstruction (data : Bytes) (offset : ℕ) : Parse ℕ := do
  let (_, offset) ← take data offset 1 "program_id_index"
  let (accountIndexCount, offset) ← decodeCompactU16 data offset
  let (_, offset) ← take data offset accountIndexCount "instruction account indices"
  let (dataLength, offset) ← decodeCompactU16 data offset
  let (_, offset) ← take data offset dataLength "instruction data"
  .ok offset

/-- `_skip_compiled_instructions`. -/
def skipCompiledInstructions (data : Bytes) (offset : ℕ) : Parse (ℕ × ℕ) := do
  let (instructionCount, offset) ← decodeCompactU16 data offset
  let offset ← Outcome.iterate (skipCompiledInstruction data) instructionCount offset
  .ok (instructionCount, offset)

/-- One round of `_skip_address_table_lookups`. -/
def skipAddressTableLookup (data : Bytes) (offset : ℕ) : Parse ℕ := do
  let (_, offset) ← take data offset 32 "lookup account key"
  let (writableCount, offset) ← decodeCompactU16 data offset
  let (_, offset) ← take data offset writableCount "writable lookup indices"
  let (readonlyCount, offset) ← decodeCompactU16 data offset
  let (_, offset) ← take data offset readonlyCount "readonly lookup indices"
  .ok offset

/-- `_skip_address_table_lookups`. -/
def skipAddressTableLookups (data : Bytes) (offset : ℕ) : Parse (ℕ × ℕ) := do
  let (lookupCount, offset) ← decodeCompactU16 data offset
  let offset ← Outcome.iterate (skipAddressTableLookup data) lookupCount offset
  .ok (lookupCount, offset)

/-- One round of the key loop and of the signature loop. -/
def takeEntry (data : Bytes) (n : ℕ) (label : String) (state : List Bytes × ℕ) :
    Parse (List Bytes × ℕ) := do
  let (bytes, offset) ← take data state.2 n label
  .ok (state.1 ++ [bytes], offset)

/-- The version prefix of a message and the offset of its header. -/
def messageVersion (messageBytes : Bytes) : Parse (MessageVersion × ℕ) := do
  let versionByte ← Outcome.index messageBytes 0
  if versionByte &&& 0x80 ≠ 0 then
    let version := versionByte &&& 0x7f
    if version ≠ 0 then
      fail s!"unsupported message version: {version}"
    else
      .ok (.v0, 1)
  else
    .ok (.legacy, 0)

/-- `parse_message`. -/
def parseMessage (messageBytes : Bytes) : Parse ParsedMessage := do
  if messageBytes.isEmpty then
    fail "transaction is missing message bytes"
  else
    let (version, headerOffset) ← messageVersion messageBytes
    if headerOffset + 3 > messageBytes.length then
      fail "truncated message header"
    else
      let numRequiredSignatures ← Outcome.index messageBytes headerOffset
      let numReadonlySigned ← Outcome.index messageBytes (headerOffset + 1)
      let numReadonlyUnsigned ← Outcome.index messageBytes (headerOffset + 2)
      let offset := headerOffset + 3
      let (accountKeyCount, offset) ← decodeCompactU16 messageBytes offset
      let (staticAccountKeys, offset) ←
        Outcome.iterate (takeEntry messageBytes 32 "account key") accountKeyCount ([], offset)
      let (_, offset) ← take messageBytes offset 32 "recent blockhash"
      let (instructionCount, offset) ← skipCompiledInstructions messageBytes offset
      let (lookupCount, offset) ←
        if version = .v0 then skipAddressTableLookups messageBytes offset else .ok (0, offset)
      if offset ≠ messageBytes.length then
        fail "trailing bytes remain after message parse"
      else
        .ok ⟨version, numRequiredSignatures.toNat, numReadonlySigned.toNat,
          numReadonlyUnsigned.toNat, staticAccountKeys, instructionCount, lookupCount⟩

/-- The generator over `range(num_required_signatures)`, from `index` on with
`rounds` rounds left. -/
def pairJobs (keys signatures : List Bytes) :
    (rounds index : ℕ) → Parse (List VerificationJob)
  | 0, _ => .ok []
  | rounds + 1, index => do
      let pubkey ← Outcome.index keys index
      let signature ← Outcome.index signatures index
      let jobs ← pairJobs keys signatures rounds (index + 1)
      .ok (⟨index, pubkey, signature⟩ :: jobs)

/-- `parse_transaction`. -/
def parseTransaction (transactionBytes : Bytes) : Parse ParsedTransaction := do
  let (numSignatures, offset) ← decodeCompactU16 transactionBytes 0
  let (signatures, offset) ←
    Outcome.iterate (takeEntry transactionBytes 64 "signature") numSignatures ([], offset)
  let messageBytes := transactionBytes.drop offset
  let info ← parseMessage messageBytes
  if numSignatures ≠ info.numRequiredSignatures then
    fail s!"signature count does not match message header ({numSignatures} != {info.numRequiredSignatures})"
  else if info.staticAccountKeys.length < info.numRequiredSignatures then
    fail "not enough static account keys for signer set"
  else
    let jobs ← pairJobs info.staticAccountKeys signatures info.numRequiredSignatures 0
    .ok ⟨transactionBytes, messageBytes, info.messageVersion, info.numRequiredSignatures, jobs⟩

end Reference

end Kv260Sigv
