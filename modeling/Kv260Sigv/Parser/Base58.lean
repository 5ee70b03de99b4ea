import Kv260Sigv.Library.Radix
import Kv260Sigv.Parser.Reference
import Mathlib.Data.List.DropRight
import Mathlib.Data.List.GetD
import Mathlib.Data.Nat.Size

/-!
# `decode_base58`

The digits are read from the text without the white space around it, but the leading
zeros are counted in the text as it comes.  So the text of the standard encoding decodes
to its bytes exactly when no white space stands before it or no zero byte is to be
restored.  Text is a list of characters; the `repr` of a character, which a message has in
it, is a parameter.
-/

set_option autoImplicit false

namespace Kv260Sigv

namespace Reference

/-! ### Python's text and numbers -/

/-- `str.isspace` of a character. -/
def isSpace (char : Char) : Bool :=
  (0x09 ≤ char.toNat && char.toNat ≤ 0x0D) || (0x1C ≤ char.toNat && char.toNat ≤ 0x20) ||
    char.toNat = 0x85 || char.toNat = 0xA0 || char.toNat = 0x1680 ||
    (0x2000 ≤ char.toNat && char.toNat ≤ 0x200A) || char.toNat = 0x2028 || char.toNat = 0x2029 ||
    char.toNat = 0x202F || char.toNat = 0x205F || char.toNat = 0x3000

/-- `value.strip()`. -/
def strip (value : List Char) : List Char := (value.dropWhile isSpace).rdropWhile isSpace

/-- `value.lstrip("1")`. -/
def lstripOnes (value : List Char) : List Char := value.dropWhile (· = '1')

/-- The bytes of `number.to_bytes(length, "big")`. -/
def bigEndian (number : ℕ) : (length : ℕ) → Bytes
  | 0 => []
  | length + 1 => bigEndian (number / 256) length ++ [UInt8.ofNat (number % 256)]

/-- `number.to_bytes(length, "big")`, with its `OverflowError`. -/
def toBytesBig (number length : ℕ) : Parse Bytes :=
  if number < 256 ^ length then .ok (bigEndian number length) else .panic

/-! ### The decoder -/

/-- `BASE58_ALPHABET`. -/
def base58Alphabet : List Char :=
  "123456789ABCDEFGHJKLMNPQRSTUVWXYZabcdefghijkmnopqrstuvwxyz".toList

/-- `BASE58_INDEX`. -/
def base58Index (char : Char) : Option ℕ := base58Alphabet.idxOf? char

section

variable (repr : Char → String)

/-- The loop of `decode_base58`. -/
def decodeBase58Loop : (chars : List Char) → (number : ℕ) → Parse ℕ
  | [], number => .ok number
  | char :: chars, number =>
      match base58Index char with
      | none => fail ("invalid base58 character: " ++ repr char)
      | some index => decodeBase58Loop chars (number * 58 + index)

/-- `decode_base58`. -/
def decodeBase58 (value : List Char) : Parse Bytes := do
  let number ← decodeBase58Loop repr (strip value) 0
  let decoded ← if number = 0 then .ok [] else toBytesBig number ((Nat.size number + 7) / 8)
  let leadingZeros := value.length - (lstripOnes value).length
  .ok (List.replicate leadingZeros 0 ++ decoded)

end

/-! ### The standard encoding -/

/-- The character of a digit. -/
def base58Char (digit : ℕ) : Char := base58Alphabet.getD digit '1'

/-- A `1` for each leading zero byte, and the digits of the number of the others. -/
def encodeBase58 (bytes : Bytes) : List Char :=
  (Radix.convert 256 58 (bytes.map UInt8.toNat)).map base58Char

theorem base58Index_base58Char {digit : ℕ} (h : digit < 58) :
    base58Index (base58Char digit) = some digit := by
  have hall : ∀ d < 58, base58Index (base58Char d) = some d := by decide
  exact hall digit h

theorem isSpace_base58Char (digit : ℕ) : isSpace (base58Char digit) = false := by
  have hall : (base58Alphabet.all fun c => !isSpace c) = true := by decide
  rw [List.all_eq_true] at hall
  rcases Nat.lt_or_ge digit base58Alphabet.length with hlt | hge
  · rw [base58Char, List.getD_eq_getElem _ _ hlt]
    have hchar := hall _ (List.getElem_mem hlt)
    rwa [Bool.not_eq_true'] at hchar
  · rw [base58Char, List.getD_eq_default _ _ hge]
    decide

theorem base58Char_eq_one {digit : ℕ} (h : digit < 58) : base58Char digit = '1' ↔ digit = 0 := by
  have hall : ∀ d < 58, base58Char d = '1' ↔ d = 0 := by decide
  exact hall digit h

theorem isSpace_of_mem_encodeBase58 (bytes : Bytes) :
    ∀ c ∈ encodeBase58 bytes, isSpace c = false := by
  intro c hc
  obtain ⟨digit, -, rfl⟩ := List.mem_map.mp hc
  exact isSpace_base58Char digit

/-! ### White space -/

theorem dropWhile_of_forall {p : Char → Bool} {s : List Char} (h : ∀ c ∈ s, p c = false) :
    s.dropWhile p = s := by
  cases s with
  | nil => rfl
  | cons c s => exact List.dropWhile_cons_of_neg (by rw [h c List.mem_cons_self]; decide)

theorem strip_append {w₁ s w₂ : List Char} (h₁ : ∀ c ∈ w₁, isSpace c = true)
    (hs : ∀ c ∈ s, isSpace c = false) (h₂ : ∀ c ∈ w₂, isSpace c = true) :
    strip (w₁ ++ s ++ w₂) = s := by
  have hright : (s ++ w₂).rdropWhile isSpace = s := by
    rw [List.rdropWhile, List.reverse_append,
      List.dropWhile_append_of_pos fun c hc => h₂ c (List.mem_reverse.mp hc),
      dropWhile_of_forall fun c hc => hs c (List.mem_reverse.mp hc), List.reverse_reverse]
  rw [strip, List.append_assoc, List.dropWhile_append_of_pos h₁]
  cases s with
  | nil =>
      have hall : w₂.dropWhile isSpace = [] := List.dropWhile_eq_nil_iff.mpr h₂
      rw [List.nil_append, hall]
      rfl
  | cons c s =>
      have hfirst : isSpace c = false := hs c List.mem_cons_self
      rw [List.cons_append, List.dropWhile_cons_of_neg (by rw [hfirst]; decide)]
      exact hright

/-! ### The number -/

section

variable (repr : Char → String)

theorem decodeBase58Loop_map {digits : List ℕ} (h : ∀ d ∈ digits, d < 58) (number : ℕ) :
    decodeBase58Loop repr (digits.map base58Char) number =
      .ok (digits.foldl (fun n d => n * 58 + d) number) := by
  induction digits generalizing number with
  | nil => rfl
  | cons d digits ih =>
      rw [List.map_cons, decodeBase58Loop, base58Index_base58Char (h d List.mem_cons_self)]
      exact ih (fun x hx => h x (List.mem_cons_of_mem d hx)) _

/-- The loop fails at the first character that is not in the alphabet. -/
theorem decodeBase58Loop_fail {chars : List Char} (h : ∃ c ∈ chars, c ∉ base58Alphabet)
    (number : ℕ) :
    ∃ c ∈ chars, c ∉ base58Alphabet ∧
      decodeBase58Loop repr chars number = fail ("invalid base58 character: " ++ repr c) := by
  induction chars generalizing number with
  | nil =>
      obtain ⟨c, hc, -⟩ := h
      cases hc
  | cons c chars ih =>
      by_cases hmem : c ∈ base58Alphabet
      · have htail : ∃ c ∈ chars, c ∉ base58Alphabet := by
          obtain ⟨x, hx, hnot⟩ := h
          rcases List.mem_cons.mp hx with rfl | hx
          · exact absurd hmem hnot
          · exact ⟨x, hx, hnot⟩
        obtain ⟨index, hindex⟩ : ∃ index, base58Index c = some index :=
          Option.isSome_iff_exists.mp (List.isSome_idxOf?.mpr hmem)
        obtain ⟨x, hx, hnot, hfail⟩ := ih htail (number * 58 + index)
        refine ⟨x, List.mem_cons_of_mem c hx, hnot, ?_⟩
        rw [decodeBase58Loop, hindex]
        exact hfail
      · refine ⟨c, List.mem_cons_self, hmem, ?_⟩
        have hnone : base58Index c = none := List.idxOf?_eq_none_iff.mpr hmem
        rw [decodeBase58Loop, hnone]

end

/-- The digits of a number, as `to_bytes` writes them. -/
theorem bigEndian_digits (n : ℕ) :
    bigEndian n (Nat.digits 256 n).length = (Nat.digits 256 n).reverse.map UInt8.ofNat := by
  induction n using Nat.strong_induction_on with
  | _ n ih =>
      rcases Nat.eq_zero_or_pos n with rfl | hpos
      · rw [Nat.digits_zero]
        rfl
      · have hless : n / 256 < n := Nat.div_lt_self hpos (by decide)
        rw [Nat.digits_def' (by decide) hpos, List.length_cons, bigEndian, ih _ hless,
          List.reverse_cons, List.map_append]
        rfl

/-- The length `decode_base58` asks for. -/
theorem length_digits (n : ℕ) : (Nat.size n + 7) / 8 = (Nat.digits 256 n).length := by
  rcases Nat.eq_zero_or_pos n with rfl | hpos
  · rw [Nat.digits_zero]
    rfl
  · have hlow : n < 256 ^ (Nat.digits 256 n).length := Nat.lt_base_pow_length_digits (by decide)
    have hhigh := Nat.base_pow_length_digits_le 256 n (by decide) hpos.ne'
    generalize (Nat.digits 256 n).length = len at hlow hhigh
    rw [show 256 = 2 ^ 8 from rfl, ← pow_mul] at hlow hhigh
    have hupper : Nat.size n ≤ 8 * len := Nat.size_le.mpr hlow
    cases len with
    | zero => omega
    | succ k =>
        rw [Nat.mul_succ, Nat.add_comm, pow_add] at hhigh
        have hlower : 8 * k < Nat.size n :=
          Nat.lt_size.mpr (Nat.le_of_mul_le_mul_left hhigh (by decide))
        omega

/-! ### The leading zeros -/

/-- What `decode_base58` takes for the number of leading zero bytes. -/
def leadingOnes (value : List Char) : ℕ := value.length - (lstripOnes value).length

theorem leadingOnes_of_head {value : List Char} (h : ∀ c ∈ value.head?, c ≠ '1') :
    leadingOnes value = 0 := by
  cases value with
  | nil => rfl
  | cons c value =>
      have hc : c ≠ '1' := h c rfl
      rw [leadingOnes, lstripOnes, List.dropWhile_cons_of_neg (by simpa), Nat.sub_self]

theorem leadingOnes_replicate (z : ℕ) (value : List Char) :
    leadingOnes (List.replicate z '1' ++ value) = z + leadingOnes value := by
  have hle : (lstripOnes value).length ≤ value.length := List.length_dropWhile_le _ _
  have hdrop : lstripOnes (List.replicate z '1' ++ value) = lstripOnes value :=
    List.dropWhile_append_of_pos fun c hc => by rw [List.eq_of_mem_replicate hc]; rfl
  rw [leadingOnes, leadingOnes, hdrop, List.length_append, List.length_replicate]
  omega

/-- White space is no `1`. -/
theorem head_ne_one_of_isSpace {w : List Char} (h : ∀ c ∈ w, isSpace c = true) :
    ∀ c ∈ w.head?, c ≠ '1' := by
  rintro c hc rfl
  exact absurd (h '1' (List.mem_of_mem_head? hc)) (by decide)

variable {bytes : Bytes} {w₁ w₂ : List Char}

/-- With nothing before the text the count is the one of the encoding. -/
theorem leadingOnes_encodeBase58 (bytes : Bytes) (h₂ : ∀ c ∈ w₂, isSpace c = true) :
    leadingOnes (encodeBase58 bytes ++ w₂) = Radix.zeros (bytes.map UInt8.toNat) := by
  rw [encodeBase58, Radix.convert, List.map_append, List.map_replicate, List.append_assoc,
    show base58Char 0 = '1' from rfl, leadingOnes_replicate]
  have hdigit := Radix.head_digits_ne_zero 58 (Radix.value 256 (bytes.map UInt8.toNat))
  have hlt : ∀ d ∈ (Nat.digits 58 (Radix.value 256 (bytes.map UInt8.toNat))).reverse, d < 58 :=
    fun d hd => Nat.digits_lt_base (by decide) (List.mem_reverse.mp hd)
  generalize (Nat.digits 58 (Radix.value 256 (bytes.map UInt8.toNat))).reverse = digits
    at hdigit hlt
  rw [leadingOnes_of_head, Nat.add_zero]
  cases digits with
  | nil => exact head_ne_one_of_isSpace h₂
  | cons d digits =>
      rintro c hc hone
      obtain rfl : base58Char d = c := Option.some.inj hc
      exact hdigit d rfl ((base58Char_eq_one (hlt d List.mem_cons_self)).mp hone)

/-! ### The decoder on an encoding -/

/-- The bytes are the leading zeros and the digits of their number. -/
theorem bytes_eq (bytes : Bytes) :
    bytes = List.replicate (Radix.zeros (bytes.map UInt8.toNat)) 0 ++
      (Nat.digits 256 (Radix.value 256 (bytes.map UInt8.toNat))).reverse.map UInt8.ofNat := by
  have hlt : ∀ d ∈ bytes.map UInt8.toNat, d < 256 := by
    intro d hd
    obtain ⟨byte, -, rfl⟩ := List.mem_map.mp hd
    exact byte.toNat_lt
  have hself := congrArg (List.map UInt8.ofNat) (Radix.convert_self (by decide) hlt)
  rw [Radix.convert, List.map_append, List.map_replicate, List.map_map] at hself
  rw [show (0 : UInt8) = UInt8.ofNat 0 from rfl, hself]
  exact (List.map_id'' (fun byte => UInt8.ofNat_toNat) bytes).symm

/-- What comes out, for any white space around the text. -/
theorem decodeBase58_eq (repr : Char → String) (bytes : Bytes) (h₁ : ∀ c ∈ w₁, isSpace c = true)
    (h₂ : ∀ c ∈ w₂, isSpace c = true) :
    decodeBase58 repr (w₁ ++ encodeBase58 bytes ++ w₂) =
      .ok (List.replicate (leadingOnes (w₁ ++ encodeBase58 bytes ++ w₂)) 0 ++
        (Nat.digits 256 (Radix.value 256 (bytes.map UInt8.toNat))).reverse.map UInt8.ofNat) := by
  have hloop : decodeBase58Loop repr (encodeBase58 bytes) 0 =
      .ok (Radix.value 256 (bytes.map UInt8.toNat)) := by
    rw [← @Radix.value_convert 256 58]
    exact decodeBase58Loop_map repr (Radix.convert_lt (by decide)) 0
  rw [decodeBase58, strip_append h₁ (isSpace_of_mem_encodeBase58 bytes) h₂, hloop,
    Outcome.ok_bind]
  generalize Radix.value 256 (bytes.map UInt8.toNat) = number
  split
  · next hzero =>
      rw [hzero, Nat.digits_zero]
      rfl
  · have hfits : number < 256 ^ (Nat.digits 256 number).length :=
      Nat.lt_base_pow_length_digits (by decide)
    rw [length_digits, toBytesBig, if_pos hfits, bigEndian_digits]
    rfl

theorem zeros_eq_zero_iff (bytes : Bytes) :
    Radix.zeros (bytes.map UInt8.toNat) = 0 ↔ bytes.head? ≠ some 0 := by
  cases bytes with
  | nil =>
      refine ⟨?_, fun _ => rfl⟩
      intro _ hcontra
      cases hcontra
  | cons byte bytes =>
      rw [List.head?_cons, ne_eq, Option.some_inj, List.map_cons, Radix.zeros]
      by_cases hzero : byte = 0
      · subst hzero
        rw [List.takeWhile_cons_of_pos (by simp)]
        simp
      · have hne : byte.toNat ≠ 0 := fun h => hzero (UInt8.toNat_inj.mp h)
        rw [List.takeWhile_cons_of_neg (by simpa)]
        simp [hzero]

/-- Decoding inverts the encoding exactly when nothing stands before the text or no zero byte
is to be restored; and a character outside the alphabet is always reported. -/
theorem decodeBase58_encodeBase58 (repr : Char → String) (bytes : Bytes)
    (h₁ : ∀ c ∈ w₁, isSpace c = true) (h₂ : ∀ c ∈ w₂, isSpace c = true) :
    (decodeBase58 repr (w₁ ++ encodeBase58 bytes ++ w₂) = .ok bytes ↔
        w₁ = [] ∨ bytes.head? ≠ some 0) ∧
      ∀ value, (∃ c ∈ strip value, c ∉ base58Alphabet) →
        ∃ c ∈ strip value, c ∉ base58Alphabet ∧
          decodeBase58 repr value = fail ("invalid base58 character: " ++ repr c) := by
  refine ⟨?_, ?_⟩
  · rw [decodeBase58_eq repr bytes h₁ h₂, Outcome.ok.injEq]
    have hbytes := bytes_eq bytes
    generalize (Nat.digits 256 (Radix.value 256 (bytes.map UInt8.toNat))).reverse.map
      UInt8.ofNat = rest at hbytes ⊢
    have hcount : ∀ m, List.replicate m 0 ++ rest = bytes ↔
        m = Radix.zeros (bytes.map UInt8.toNat) := by
      intro m
      refine ⟨fun h => ?_, fun h => by rw [h]; exact hbytes.symm⟩
      have hlength := congrArg List.length (h.trans hbytes)
      rw [List.length_append, List.length_append, List.length_replicate,
        List.length_replicate] at hlength
      exact Nat.add_right_cancel hlength
    rw [hcount]
    cases w₁ with
    | nil => exact iff_of_true (leadingOnes_encodeBase58 bytes h₂) (.inl rfl)
    | cons c w₁ =>
        have hnone : leadingOnes (c :: w₁ ++ encodeBase58 bytes ++ w₂) = 0 :=
          leadingOnes_of_head (head_ne_one_of_isSpace (w := [c]) (by simpa using h₁ c (by simp)))
        rw [hnone, eq_comm, zeros_eq_zero_iff]
        exact ⟨.inr, fun h => h.resolve_left (List.cons_ne_nil c w₁)⟩
  · intro value hvalue
    obtain ⟨c, hc, hnot, hfail⟩ := decodeBase58Loop_fail repr hvalue 0
    refine ⟨c, hc, hnot, ?_⟩
    rw [decodeBase58, hfail]
    rfl

/-- A zero byte with a blank behind its text. -/
theorem decodeBase58_encodeBase58_trailing :
    (decodeBase58 Char.toString ([] ++ encodeBase58 [0] ++ [' ']) = .ok [0] ↔
      ([] : List Char) = [] ∨ ([0] : Bytes).head? ≠ some 0) :=
  (decodeBase58_encodeBase58 Char.toString [0] (fun _ hc => absurd hc List.not_mem_nil)
    (fun _ hc => by rw [List.mem_singleton.mp hc]; rfl)).1

/-- With the blank before it the zero byte is lost. -/
theorem decodeBase58_leading_blank :
    decodeBase58 Char.toString ([' '] ++ encodeBase58 [0] ++ []) ≠ .ok [0] := by
  decide

end Reference

end Kv260Sigv
