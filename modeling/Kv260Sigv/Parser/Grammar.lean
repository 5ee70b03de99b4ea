import Kv260Sigv.Library.Reader
import Kv260Sigv.Parser.Daemon

/-!
# The transaction grammar

The wire format both parsers are written for, as predicates on byte strings:
compact-u16 counts, fixed-size entries, counted lists, messages and
transactions.  Nothing here mentions offsets or errors.  `IsTransaction`
deliberately leaves the relation between the signature count and the header
byte open, since that relation is where the two parsers part.
-/

namespace Kv260Sigv

namespace Grammar

open Reader

/-- The encodings of a count that `decode_compact_u16` accepts: at most three
base-128 digits, least significant first, every digit but the last carrying the
continuation bit.  Redundant leading zero digits are allowed. -/
inductive IsCompactU16 : ℕ → Bytes → Prop
  | one {b₀ : UInt8} :
      b₀.toNat < 128 → IsCompactU16 b₀.toNat [b₀]
  | two {b₀ b₁ : UInt8} :
      128 ≤ b₀.toNat → b₁.toNat < 128 →
      IsCompactU16 (b₀.toNat % 128 + 128 * b₁.toNat) [b₀, b₁]
  | three {b₀ b₁ b₂ : UInt8} :
      128 ≤ b₀.toNat → 128 ≤ b₁.toNat → b₂.toNat < 128 →
      b₀.toNat % 128 + 128 * (b₁.toNat % 128) + 16384 * b₂.toNat < 65536 →
      IsCompactU16 (b₀.toNat % 128 + 128 * (b₁.toNat % 128) + 16384 * b₂.toNat) [b₀, b₁, b₂]

/-- `n` bytes. -/
def IsBlock (n : ℕ) (seg : Bytes) : Prop := seg.length = n

/-- A count followed by that many words of `P`. -/
def Counted (P : Bytes → Prop) (seg : Bytes) : Prop :=
  ∃ n left right, seg = left ++ right ∧ IsCompactU16 n left ∧ Repeats P n right

/-- A count followed by that many bytes. -/
def CountedBytes (seg : Bytes) : Prop :=
  ∃ n left right, seg = left ++ right ∧ IsCompactU16 n left ∧ IsBlock n right

/-- A compiled instruction: program index, counted account indices, counted
data. -/
def IsInstruction (seg : Bytes) : Prop :=
  ∃ index accounts payload, seg = index ++ (accounts ++ payload) ∧
    IsBlock 1 index ∧ CountedBytes accounts ∧ CountedBytes payload

/-- An address-table lookup: key, counted writable indices, counted readonly
indices. -/
def IsLookup (seg : Bytes) : Prop :=
  ∃ key writable readonly, seg = key ++ (writable ++ readonly) ∧
    IsBlock 32 key ∧ CountedBytes writable ∧ CountedBytes readonly

/-- The entries `xs`, each of `size` bytes, laid out back to back. -/
def Entries (size : ℕ) (xs : List Bytes) (seg : Bytes) : Prop :=
  (∀ x ∈ xs, x.length = size) ∧ seg = xs.flatten

/-- The bytes in front of a message header. -/
def versionPrefix : MessageVersion → Bytes
  | .legacy => []
  | .v0 => [0x80]

/-- The first byte of a message tells the versions apart: a legacy message has
no prefix, so its header must not look like one. -/
def HeaderFits : MessageVersion → UInt8 → Prop
  | .legacy, required => required.toNat < 128
  | .v0, _ => True

/-- What stands behind the instructions. -/
def IsLookups : MessageVersion → Bytes → Prop
  | .legacy, seg => seg = []
  | .v0, seg => Counted IsLookup seg

/-- A message whose header asks for `required` signatures and whose static
account keys are `keys`. -/
def IsMessage (version : MessageVersion) (required : UInt8) (keys : List Bytes)
    (seg : Bytes) : Prop :=
  HeaderFits version required ∧
  ∃ readonlySigned readonlyUnsigned count keyBytes blockhash instructions lookups,
    seg = versionPrefix version ++ [required, readonlySigned, readonlyUnsigned] ++
      (count ++ (keyBytes ++ (blockhash ++ (instructions ++ lookups)))) ∧
    IsCompactU16 keys.length count ∧ Entries 32 keys keyBytes ∧ IsBlock 32 blockhash ∧
    Counted IsInstruction instructions ∧ IsLookups version lookups

/-- A transaction: counted signatures and a message, with nothing behind it. -/
def IsTransaction (version : MessageVersion) (required : UInt8)
    (signatures keys : List Bytes) (message seg : Bytes) : Prop :=
  ∃ count signatureBytes, seg = count ++ (signatureBytes ++ message) ∧
    IsCompactU16 signatures.length count ∧ Entries 64 signatures signatureBytes ∧
    IsMessage version required keys message

theorem IsCompactU16.lt {n : ℕ} {seg : Bytes} (h : IsCompactU16 n seg) : n < 65536 := by
  cases h <;> omega

end Grammar

end Kv260Sigv
