import Coinquery.Cashaddr.PolyMod

/-!
# Cashaddr strings

`Encode` and `DecodeCashAddress` of `pkg/cashaddr`, on Go strings as their bytes. A run-time
panic of the Go code (indexing `CHARSET` with a value of 32 or more, slicing fewer than eight
decoded values) is `none`; an error return is `Except.error` with the error's text.

`decodeCashAddress_of_parts` is the accepting path of the decoder, and with
`verifyChecksum_createChecksum` it gives the round trip: a prefix of lowercase letters, a colon
and the encoding of a payload of 5-bit values decode to that prefix and payload, written in
lowercase or in uppercase.
-/

namespace Coinquery.Cashaddr

/-- The cashaddr character set for encoding. -/
def charset : Data :=
  ['q', 'p', 'z', 'r', 'y', '9', 'x', '8', 'g', 'f', '2', 't', 'v', 'd', 'w', '0',
    's', '3', 'j', 'n', '5', '4', 'k', 'h', 'c', 'e', '6', 'm', 'u', 'a', '7', 'l'].map Char.toUInt8

/-- The cashaddr character set for decoding, indexed by ASCII code. -/
def charsetRev : List Int8 :=
  [-1, -1, -1, -1, -1, -1, -1, -1, -1, -1, -1, -1, -1, -1, -1, -1, -1, -1, -1,
    -1, -1, -1, -1, -1, -1, -1, -1, -1, -1, -1, -1, -1, -1, -1, -1, -1, -1, -1,
    -1, -1, -1, -1, -1, -1, -1, -1, -1, -1, 15, -1, 10, 17, 21, 20, 26, 30, 7,
    5, -1, -1, -1, -1, -1, -1, -1, 29, -1, 24, 13, 25, 9, 8, 23, -1, 18, 22,
    31, 27, 19, -1, 1, 0, 3, 16, 11, 28, 12, 14, 6, 4, 2, -1, -1, -1, -1,
    -1, -1, 29, -1, 24, 13, 25, 9, 8, 23, -1, 18, 22, 31, 27, 19, -1, 1, 0,
    3, 16, 11, 28, 12, 14, 6, 4, 2, -1, -1, -1, -1, -1]

/-- Convert to lower case, assuming the input is a letter. -/
def lowerCase (c : UInt8) : UInt8 :=
  c ||| 0x20

/-- `CHARSET[c]` for each value of the payload and its checksum. -/
def encode (pre payload : Data) : Option Data :=
  let checksum := createChecksum pre payload
  let combined := payload ++ checksum
  combined.mapM fun c => charset[c.toNat]?

/-! ## Decoding -/

def isLowerByte (c : UInt8) : Bool :=
  c ≥ 'a'.toUInt8 && c ≤ 'z'.toUInt8

def isUpperByte (c : UInt8) : Bool :=
  c ≥ 'A'.toUInt8 && c ≤ 'Z'.toUInt8

def isDigitByte (c : UInt8) : Bool :=
  c ≥ '0'.toUInt8 && c ≤ '9'.toUInt8

/-- The variables of the sanity-check loop of `DecodeCashAddress`. -/
structure Scan where
  lower : Bool
  upper : Bool
  prefixSize : Nat
deriving DecidableEq, Repr

/-- One iteration of the sanity-check loop, on the byte `c` at index `i`. -/
def scanByte (i : Nat) (c : UInt8) (flags : Scan) : Except String Scan :=
  if isLowerByte c then .ok { flags with lower := true }
  else if isUpperByte c then .ok { flags with upper := true }
  else if isDigitByte c then
    if flags.prefixSize = 0 then .error "Addresses cannot have numbers in the prefix" else .ok flags
  else if c = ':'.toUInt8 then
    -- the separator must be neither the first character nor a second one
    if i = 0 ∨ flags.prefixSize ≠ 0 then .error "The separator must not be the first character"
    else .ok { flags with prefixSize := i }
  else .error "Unexpected character"

def scan : Nat → Data → Scan → Except String Scan
  | _, [], flags => .ok flags
  | i, c :: str, flags => scanByte i c flags >>= scan (i + 1) str

/-- `byte(CHARSET_REV[c])`, after the check that `c` is a character of the set. -/
def decodeValue (c : UInt8) : Except String UInt8 :=
  -- `charsetRev` has 128 entries, so its default is never read below
  if c > 127 ∨ charsetRev.getD c.toNat (-1) = -1 then .error "Invalid character"
  else .ok (charsetRev.getD c.toNat (-1)).toUInt8

def decodeCashAddress (str : Data) : Option (Except String (Data × Data)) :=
  match scan 0 str ⟨false, false, 0⟩ with
  | .error message => some (.error message)
  | .ok flags =>
    if flags.prefixSize = 0 then some (.error "Address must have a prefix")
    else if flags.upper && flags.lower then
      some (.error "Addresses cannot use both upper and lower case characters")
    else
      -- every byte before the separator is a letter, so `string(LowerCase(str[i]))` is one byte
      let pre := (str.take flags.prefixSize).map lowerCase
      match (str.drop (flags.prefixSize + 1)).mapM decodeValue with
      | .error message => some (.error message)
      | .ok values =>
        if !verifyChecksum pre values then some (.error "checksum mismatch")
        -- `values[:len(values)-8]` panics below eight values
        else if values.length < 8 then none
        else some (.ok (pre, values.take (values.length - 8)))

/-- The uppercase rendering of an ASCII byte (not a function of the package). -/
def asciiUpper (c : UInt8) : UInt8 :=
  if isLowerByte c then c - 0x20 else c

/-! ## Bytes and character classes -/

theorem isLowerByte_iff (c : UInt8) : isLowerByte c = true ↔ 97 ≤ c.toNat ∧ c.toNat ≤ 122 := by
  simp only [isLowerByte, ge_iff_le, Bool.and_eq_true, decide_eq_true_eq, UInt8.le_iff_toNat_le]
  exact Iff.rfl

theorem isUpperByte_iff (c : UInt8) : isUpperByte c = true ↔ 65 ≤ c.toNat ∧ c.toNat ≤ 90 := by
  simp only [isUpperByte, ge_iff_le, Bool.and_eq_true, decide_eq_true_eq, UInt8.le_iff_toNat_le]
  exact Iff.rfl

theorem isDigitByte_iff (c : UInt8) : isDigitByte c = true ↔ 48 ≤ c.toNat ∧ c.toNat ≤ 57 := by
  simp only [isDigitByte, ge_iff_le, Bool.and_eq_true, decide_eq_true_eq, UInt8.le_iff_toNat_le]
  exact Iff.rfl

theorem lowerCase_of_isLowerByte {c : UInt8} (lower : isLowerByte c = true) : lowerCase c = c := by
  have range := (isLowerByte_iff c).mp lower
  have bits : ∀ n < 123, 97 ≤ n → n ||| 32 = n := by decide
  apply UInt8.toNat_inj.mp
  rw [lowerCase, UInt8.toNat_or]
  exact bits _ (by omega) range.1

/-- The rendering of a lowercase letter in uppercase is an uppercase letter. -/
theorem asciiUpper_of_isLowerByte {c : UInt8} (lower : isLowerByte c = true) :
    isUpperByte (asciiUpper c) = true ∧ isLowerByte (asciiUpper c) = false ∧
      lowerCase (asciiUpper c) = c := by
  have range := (isLowerByte_iff c).mp lower
  have shifted : (asciiUpper c).toNat = c.toNat - 32 := by
    rw [asciiUpper, if_pos lower, UInt8.toNat_sub_of_le]
    · rfl
    · rw [UInt8.le_iff_toNat_le]; exact Nat.le_trans (by decide) range.1
  have bits : ∀ n < 123, 97 ≤ n → (n - 32) ||| 32 = n := by decide
  refine ⟨(isUpperByte_iff _).mpr (by omega), ?_, ?_⟩
  · rw [Bool.eq_false_iff, ne_eq, isLowerByte_iff]
    omega
  · apply UInt8.toNat_inj.mp
    rw [lowerCase, UInt8.toNat_or, shifted]
    exact bits _ (by omega) range.1

theorem asciiUpper_of_not_isLowerByte {c : UInt8} (lower : isLowerByte c = false) : asciiUpper c = c := by
  simp [asciiUpper, lower]

/-! ## The sanity-check loop -/

/-- On a letter, or on a digit after the separator, an iteration only records the letter's
case. -/
theorem scanByte_of_letter_or_digit {i : Nat} {c : UInt8} {flags : Scan}
    (accepted : isLowerByte c = true ∨ isUpperByte c = true ∨ (isDigitByte c = true ∧ flags.prefixSize ≠ 0)) :
    scanByte i c flags =
      .ok ⟨flags.lower || isLowerByte c, flags.upper || isUpperByte c, flags.prefixSize⟩ := by
  rw [isLowerByte_iff, isUpperByte_iff, isDigitByte_iff] at accepted
  by_cases lower : isLowerByte c = true
  · have not_upper : isUpperByte c = false := by
      rw [Bool.eq_false_iff, ne_eq, isUpperByte_iff]; rw [isLowerByte_iff] at lower; omega
    simp [scanByte, lower, not_upper]
  · by_cases upper : isUpperByte c = true
    · simp [scanByte, lower, upper]
    · have digit : isDigitByte c = true ∧ flags.prefixSize ≠ 0 := by
        rw [isLowerByte_iff] at lower; rw [isUpperByte_iff] at upper; rw [isDigitByte_iff]; omega
      simp [scanByte, lower, upper, digit]

theorem scanByte_separator {i : Nat} {flags : Scan} (not_first : i ≠ 0) (first : flags.prefixSize = 0) :
    scanByte i ':'.toUInt8 flags = .ok { flags with prefixSize := i } := by
  have separator : ¬(i = 0 ∨ flags.prefixSize ≠ 0) := by simp [not_first, first]
  rw [scanByte, if_neg (by decide), if_neg (by decide), if_neg (by decide), if_pos rfl, if_neg separator]

theorem scan_append (i : Nat) (front back : Data) (flags : Scan) :
    scan i (front ++ back) flags = scan i front flags >>= scan (i + front.length) back := by
  induction front generalizing i flags with
  | nil => rfl
  | cons c front induction =>
      simp only [List.cons_append, scan, List.length_cons, bind_assoc]
      congr 1
      funext next
      rw [induction, Nat.add_assoc, Nat.add_comm 1]

/-- Over letters, and digits after the separator, the loop only records which cases it met. -/
theorem scan_of_letters_or_digits (i : Nat) (str : Data) (flags : Scan)
    (accepted : ∀ c ∈ str,
      isLowerByte c = true ∨ isUpperByte c = true ∨ (isDigitByte c = true ∧ flags.prefixSize ≠ 0)) :
    scan i str flags =
      .ok ⟨flags.lower || str.any isLowerByte, flags.upper || str.any isUpperByte, flags.prefixSize⟩ := by
  induction str generalizing i flags with
  | nil => simp [scan]
  | cons c str induction =>
      have rest := induction (i + 1)
        ⟨flags.lower || isLowerByte c, flags.upper || isUpperByte c, flags.prefixSize⟩
        fun e member => accepted e (List.mem_cons_of_mem c member)
      rw [scan, scanByte_of_letter_or_digit (accepted c List.mem_cons_self)]
      refine rest.trans ?_
      simp [Bool.or_assoc]

/-! ## The character set -/

/-- Every character of the set is a lowercase letter or a digit, and it decodes to its index, in
either case. -/
theorem charset_decodes : ∀ k < 32,
    (isLowerByte (charset.getD k 0) = true ∨ isDigitByte (charset.getD k 0) = true) ∧
      decodeValue (charset.getD k 0) = .ok (UInt8.ofNat k) ∧
      decodeValue (asciiUpper (charset.getD k 0)) = .ok (UInt8.ofNat k) := by
  decide +kernel

theorem length_createChecksum (pre payload : Data) : (createChecksum pre payload).length = 8 := by
  simp [createChecksum]

theorem toNat_lt_of_mem_createChecksum {pre payload : Data} {d : UInt8}
    (member : d ∈ createChecksum pre payload) : d.toNat < 32 := by
  have digit : d.toNat ∈ (createChecksum pre payload).map UInt8.toNat := List.mem_map_of_mem member
  rw [map_toNat_createChecksum] at digit
  exact ShiftRegister.lt_of_mem_digits digit

/-- The values of a payload below 32 and of its checksum are below 32. -/
theorem toNat_lt_of_mem_checksummed {pre payload : Data} (values : ∀ d ∈ payload, d < 32) :
    ∀ d ∈ payload ++ createChecksum pre payload, d.toNat < 32 := by
  intro d member
  rcases List.mem_append.mp member with in_payload | in_checksum
  · exact UInt8.lt_iff_toNat_lt.mp (values d in_payload)
  · exact toNat_lt_of_mem_createChecksum in_checksum

private theorem mapM_eq_pure_map {m : Type → Type} [Monad m] [LawfulMonad m] {α β : Type}
    {f : α → m β} {g : α → β} (l : List α) (agrees : ∀ x ∈ l, f x = pure (g x)) :
    l.mapM f = pure (l.map g) := by
  induction l with
  | nil => rfl
  | cons x l induction =>
      rw [List.mapM_cons, agrees x List.mem_cons_self, pure_bind,
        induction fun y member => agrees y (List.mem_cons_of_mem x member), pure_bind, List.map_cons]

/-- On values below 32, `Encode` writes the character of each value of the payload and of its
checksum. -/
theorem encode_eq {pre payload : Data} (values : ∀ d ∈ payload, d < 32) :
    encode pre payload =
      some ((payload ++ createChecksum pre payload).map fun d => charset.getD d.toNat 0) := by
  apply mapM_eq_pure_map
  intro d member
  have small : d.toNat < charset.length := toNat_lt_of_mem_checksummed values d member
  simp [List.getD_eq_getElem?_getD, List.getElem?_eq_getElem small]

/-! ## Decoding an address -/

/-- The sanity-check loop over letters, one separator, and letters or digits: it records the
cases met and the position of the separator. -/
theorem scan_address {shown address : Data} (shown_ne : shown ≠ [])
    (letters : ∀ c ∈ shown, isLowerByte c = true ∨ isUpperByte c = true)
    (characters : ∀ c ∈ address, isLowerByte c = true ∨ isUpperByte c = true ∨ isDigitByte c = true) :
    scan 0 (shown ++ ':'.toUInt8 :: address) ⟨false, false, 0⟩ =
      .ok ⟨shown.any isLowerByte || address.any isLowerByte,
        shown.any isUpperByte || address.any isUpperByte, shown.length⟩ := by
  have before : scan 0 shown ⟨false, false, 0⟩ = .ok ⟨shown.any isLowerByte, shown.any isUpperByte, 0⟩ := by
    refine (scan_of_letters_or_digits 0 shown _ fun c member => ?_).trans (by simp)
    rcases letters c member with lower | upper
    · exact .inl lower
    · exact .inr (.inl upper)
  have after : scan (shown.length + 1) address
      ⟨shown.any isLowerByte, shown.any isUpperByte, shown.length⟩ =
        .ok ⟨shown.any isLowerByte || address.any isLowerByte,
          shown.any isUpperByte || address.any isUpperByte, shown.length⟩ := by
    refine scan_of_letters_or_digits _ address _ fun c member => ?_
    rcases characters c member with lower | upper | digit
    · exact .inl lower
    · exact .inr (.inl upper)
    · exact .inr (.inr ⟨digit, List.length_pos_iff.mpr shown_ne |>.ne'⟩)
  rw [scan_append, before]
  change scan (0 + shown.length) (':'.toUInt8 :: address) _ = _
  rw [scan, Nat.zero_add, scanByte_separator (List.length_pos_iff.mpr shown_ne).ne' rfl]
  exact after

/-- The accepting path of `DecodeCashAddress`: a prefix of letters, a separator and characters
of the set, all in one case, whose values verify, decode to the prefix in lowercase and the
values without the last eight. -/
theorem decodeCashAddress_of_parts {shown address pre values : Data} (shown_ne : shown ≠ [])
    (letters : ∀ c ∈ shown, isLowerByte c = true ∨ isUpperByte c = true)
    (characters : ∀ c ∈ address, isLowerByte c = true ∨ isUpperByte c = true ∨ isDigitByte c = true)
    (one_case : (shown.any isUpperByte || address.any isUpperByte) = false ∨
      (shown.any isLowerByte || address.any isLowerByte) = false)
    (lowered : shown.map lowerCase = pre) (decoded : address.mapM decodeValue = .ok values)
    (verified : verifyChecksum pre values = true) (long : 8 ≤ values.length) :
    decodeCashAddress (shown ++ ':'.toUInt8 :: address) =
      some (.ok (pre, values.take (values.length - 8))) := by
  have not_both : ((shown.any isUpperByte || address.any isUpperByte) &&
      (shown.any isLowerByte || address.any isLowerByte)) = false := by
    rcases one_case with no_upper | no_lower
    · rw [no_upper, Bool.false_and]
    · rw [no_lower, Bool.and_false]
  have prefix_ne : shown.length ≠ 0 := (List.length_pos_iff.mpr shown_ne).ne'
  have taken : (shown ++ ':'.toUInt8 :: address).take shown.length = shown := by simp
  have dropped : (shown ++ ':'.toUInt8 :: address).drop (shown.length + 1) = address := by simp
  rw [decodeCashAddress, scan_address shown_ne letters characters]
  simp only [prefix_ne, not_both, taken, dropped, lowered, decoded, verified, if_false,
    Bool.false_eq_true, Bool.not_true, Nat.not_lt.mpr long]

/-! ## The round trip -/

theorem isUpperByte_eq_false {c : UInt8} (lower_or_digit : isLowerByte c = true ∨ isDigitByte c = true) :
    isUpperByte c = false := by
  rw [Bool.eq_false_iff, ne_eq, isUpperByte_iff]
  rw [isLowerByte_iff, isDigitByte_iff] at lower_or_digit
  omega

/-- In uppercase, a lowercase letter or a digit is an uppercase letter or the same digit. -/
theorem asciiUpper_of_lower_or_digit {c : UInt8}
    (lower_or_digit : isLowerByte c = true ∨ isDigitByte c = true) :
    (isUpperByte (asciiUpper c) = true ∨ isDigitByte (asciiUpper c) = true) ∧
      isLowerByte (asciiUpper c) = false := by
  rcases lower_or_digit with lower | digit
  · obtain ⟨upper, not_lower, _⟩ := asciiUpper_of_isLowerByte lower
    exact ⟨.inl upper, not_lower⟩
  · have not_lower : isLowerByte c = false := by
      rw [Bool.eq_false_iff, ne_eq, isLowerByte_iff]
      rw [isDigitByte_iff] at digit
      omega
    rw [asciiUpper_of_not_isLowerByte not_lower]
    exact ⟨.inr digit, not_lower⟩

/-- The characters of values below 32 are lowercase letters or digits. -/
theorem lower_or_digit_of_mem_charset {values : Data} (small : ∀ d ∈ values, d.toNat < 32) :
    ∀ c ∈ values.map (fun d => charset.getD d.toNat 0),
      isLowerByte c = true ∨ isDigitByte c = true := by
  intro c member
  obtain ⟨d, in_values, rfl⟩ := List.mem_map.mp member
  exact (charset_decodes d.toNat (small d in_values)).1

/-- The characters of values below 32 decode back to the values, in either case. -/
theorem mapM_decodeValue_charset {values : Data} (small : ∀ d ∈ values, d.toNat < 32) :
    (values.map fun d => charset.getD d.toNat 0).mapM decodeValue = .ok values ∧
      ((values.map fun d => charset.getD d.toNat 0).map asciiUpper).mapM decodeValue =
        .ok values := by
  constructor
  · have agrees : ∀ d ∈ values,
        (decodeValue ∘ fun d => charset.getD d.toNat 0) d = pure (id d) := by
      intro d member
      have decodes : decodeValue (charset.getD d.toNat 0) = .ok d := by
        simpa using (charset_decodes d.toNat (small d member)).2.1
      exact decodes
    rw [List.mapM_map, mapM_eq_pure_map values agrees, List.map_id]
    rfl
  · have agrees : ∀ d ∈ values,
        (decodeValue ∘ asciiUpper ∘ fun d => charset.getD d.toNat 0) d = pure (id d) := by
      intro d member
      have decodes : decodeValue (asciiUpper (charset.getD d.toNat 0)) = .ok d := by
        simpa using (charset_decodes d.toNat (small d member)).2.2
      exact decodes
    rw [List.map_map, List.mapM_map, mapM_eq_pure_map values agrees, List.map_id]
    rfl

/-- An address in lowercase decodes: none of its bytes is an uppercase letter. -/
theorem decodeCashAddress_lowercase {pre address values : Data} (pre_ne : pre ≠ [])
    (lower : ∀ c ∈ pre, isLowerByte c = true)
    (characters : ∀ c ∈ address, isLowerByte c = true ∨ isDigitByte c = true)
    (decoded : address.mapM decodeValue = .ok values) (verified : verifyChecksum pre values = true)
    (long : 8 ≤ values.length) :
    decodeCashAddress (pre ++ ':'.toUInt8 :: address) =
      some (.ok (pre, values.take (values.length - 8))) := by
  have no_upper : (pre.any isUpperByte || address.any isUpperByte) = false := by
    rw [Bool.or_eq_false_iff, List.any_eq_false, List.any_eq_false]
    refine ⟨fun c member => ?_, fun c member => ?_⟩
    · simp [isUpperByte_eq_false (.inl (lower c member))]
    · simp [isUpperByte_eq_false (characters c member)]
  have lowered : pre.map lowerCase = pre :=
    (List.map_congr_left fun c member => lowerCase_of_isLowerByte (lower c member)).trans
      (List.map_id' pre)
  exact decodeCashAddress_of_parts pre_ne (fun c member => .inl (lower c member))
    (fun c member => (characters c member).elim .inl fun digit => .inr (.inr digit)) (.inl no_upper)
    lowered decoded verified long

/-- The same address rendered in uppercase decodes too: none of its bytes is a lowercase letter. -/
theorem decodeCashAddress_uppercase {pre address values : Data} (pre_ne : pre ≠ [])
    (lower : ∀ c ∈ pre, isLowerByte c = true)
    (characters : ∀ c ∈ address, isLowerByte c = true ∨ isDigitByte c = true)
    (decoded : (address.map asciiUpper).mapM decodeValue = .ok values)
    (verified : verifyChecksum pre values = true) (long : 8 ≤ values.length) :
    decodeCashAddress ((pre ++ ':'.toUInt8 :: address).map asciiUpper) =
      some (.ok (pre, values.take (values.length - 8))) := by
  have rendered : (pre ++ ':'.toUInt8 :: address).map asciiUpper =
      pre.map asciiUpper ++ ':'.toUInt8 :: address.map asciiUpper := by
    rw [List.map_append, List.map_cons, asciiUpper_of_not_isLowerByte (by decide)]
  have letters : ∀ c ∈ pre.map asciiUpper, isLowerByte c = true ∨ isUpperByte c = true := by
    intro c member
    obtain ⟨letter, in_pre, rfl⟩ := List.mem_map.mp member
    exact .inr (asciiUpper_of_isLowerByte (lower letter in_pre)).1
  have upper_characters : ∀ c ∈ address.map asciiUpper,
      isLowerByte c = true ∨ isUpperByte c = true ∨ isDigitByte c = true := by
    intro c member
    obtain ⟨character, in_address, rfl⟩ := List.mem_map.mp member
    exact .inr (asciiUpper_of_lower_or_digit (characters character in_address)).1
  have no_lower :
      ((pre.map asciiUpper).any isLowerByte || (address.map asciiUpper).any isLowerByte) = false := by
    rw [Bool.or_eq_false_iff, List.any_eq_false, List.any_eq_false]
    refine ⟨fun c member => ?_, fun c member => ?_⟩
    · obtain ⟨letter, in_pre, rfl⟩ := List.mem_map.mp member
      simp [(asciiUpper_of_isLowerByte (lower letter in_pre)).2.1]
    · obtain ⟨character, in_address, rfl⟩ := List.mem_map.mp member
      simp [(asciiUpper_of_lower_or_digit (characters character in_address)).2]
  have lowered : (pre.map asciiUpper).map lowerCase = pre := by
    rw [List.map_map]
    exact (List.map_congr_left fun c member => (asciiUpper_of_isLowerByte (lower c member)).2.2).trans
      (List.map_id' pre)
  rw [rendered]
  exact decodeCashAddress_of_parts (by simpa using pre_ne) letters upper_characters (.inr no_lower)
    lowered decoded verified long

theorem decodeCashAddress_encode {pre payload : Data} (pre_ne : pre ≠ [])
    (lowercase : ∀ c ∈ pre, 'a'.toUInt8 ≤ c ∧ c ≤ 'z'.toUInt8) (values : ∀ d ∈ payload, d < 32) :
    ∃ address, encode pre payload = some address ∧
      decodeCashAddress (pre ++ ':'.toUInt8 :: address) = some (.ok (pre, payload)) ∧
      decodeCashAddress ((pre ++ ':'.toUInt8 :: address).map asciiUpper) = some (.ok (pre, payload)) ∧
      verifyChecksum pre (payload ++ createChecksum pre payload) = true := by
  have lower : ∀ c ∈ pre, isLowerByte c = true := fun c member => by
    simpa [isLowerByte] using lowercase c member
  have small := @toNat_lt_of_mem_checksummed pre payload values
  set combined := payload ++ createChecksum pre payload with combined_def
  have taken : combined.take (combined.length - 8) = payload := by
    simp [combined_def, length_createChecksum]
  have long : 8 ≤ combined.length := by
    simp [combined_def, length_createChecksum]
  have verified : verifyChecksum pre combined = true := verifyChecksum_createChecksum pre payload
  have characters := lower_or_digit_of_mem_charset small
  obtain ⟨decoded, decoded_upper⟩ := mapM_decodeValue_charset small
  refine ⟨_, encode_eq values, ?_, ?_, verified⟩
  · have decodes := decodeCashAddress_lowercase pre_ne lower characters decoded verified long
    rwa [taken] at decodes
  · have decodes := decodeCashAddress_uppercase pre_ne lower characters decoded_upper verified long
    rwa [taken] at decodes

theorem decodeCashAddress_encode_bchtest :
    (['b', 'c', 'h', 't', 'e', 's', 't'].map Char.toUInt8 ≠ [] ∧
      (∀ c ∈ ['b', 'c', 'h', 't', 'e', 's', 't'].map Char.toUInt8, 'a'.toUInt8 ≤ c ∧ c ≤ 'z'.toUInt8) ∧
      ∀ d ∈ ([0, 8, 31] : Data), d < 32) ∧
    ∃ address, encode (['b', 'c', 'h', 't', 'e', 's', 't'].map Char.toUInt8) [0, 8, 31] = some address ∧
      decodeCashAddress (['b', 'c', 'h', 't', 'e', 's', 't'].map Char.toUInt8 ++ ':'.toUInt8 :: address) =
        some (.ok (['b', 'c', 'h', 't', 'e', 's', 't'].map Char.toUInt8, [0, 8, 31])) ∧
      decodeCashAddress
          ((['b', 'c', 'h', 't', 'e', 's', 't'].map Char.toUInt8 ++ ':'.toUInt8 :: address).map asciiUpper) =
        some (.ok (['b', 'c', 'h', 't', 'e', 's', 't'].map Char.toUInt8, [0, 8, 31])) ∧
      verifyChecksum (['b', 'c', 'h', 't', 'e', 's', 't'].map Char.toUInt8)
        ([0, 8, 31] ++ createChecksum (['b', 'c', 'h', 't', 'e', 's', 't'].map Char.toUInt8) [0, 8, 31]) =
          true :=
  -- the character checks are evaluated by the kernel; the elaborator's evaluator runs out of depth
  ⟨⟨by decide +kernel, by decide +kernel, by decide +kernel⟩,
    decodeCashAddress_encode (by decide +kernel) (by decide +kernel) (by decide +kernel)⟩

/-- The lowercase round trip, from the address that `Encode` returned. -/
theorem decodeCashAddress_of_encode {pre payload address : Data} (pre_ne : pre ≠ [])
    (lower : ∀ c ∈ pre, isLowerByte c = true) (values : ∀ d ∈ payload, d < 32)
    (encoded : encode pre payload = some address) :
    decodeCashAddress (pre ++ ':'.toUInt8 :: address) = some (.ok (pre, payload)) := by
  have small := @toNat_lt_of_mem_checksummed pre payload values
  rw [encode_eq values, Option.some.injEq] at encoded
  subst encoded
  have decodes := decodeCashAddress_lowercase pre_ne lower (lower_or_digit_of_mem_charset small)
    (mapM_decodeValue_charset small).1 (verifyChecksum_createChecksum pre payload)
    (by simp [length_createChecksum])
  rwa [show (payload ++ createChecksum pre payload).take
      ((payload ++ createChecksum pre payload).length - 8) = payload by
    simp [length_createChecksum]] at decodes

/-- Under one prefix, `Encode` writes different payloads of 5-bit values as different
addresses. -/
theorem encode_injective {pre first second address : Data} (pre_ne : pre ≠ [])
    (lower : ∀ c ∈ pre, isLowerByte c = true) (first_values : ∀ d ∈ first, d < 32)
    (second_values : ∀ d ∈ second, d < 32) (encoded_first : encode pre first = some address)
    (encoded_second : encode pre second = some address) : first = second := by
  have decodes_first := decodeCashAddress_of_encode pre_ne lower first_values encoded_first
  rw [decodeCashAddress_of_encode pre_ne lower second_values encoded_second] at decodes_first
  simp only [Option.some.injEq, Except.ok.injEq, Prod.mk.injEq, true_and] at decodes_first
  exact decodes_first.symm

/-! ## The slice of the checksum -/

/-- An iteration of the sanity-check loop sets the separator's position only where there was
none. -/
theorem scanByte_prefixSize {i : Nat} {c : UInt8} {flags next : Scan}
    (scanned : scanByte i c flags = .ok next) :
    next.prefixSize = flags.prefixSize ∨ flags.prefixSize = 0 ∧ next.prefixSize = i := by
  unfold scanByte at scanned
  split at scanned
  · cases scanned
    exact .inl rfl
  · split at scanned
    · cases scanned
      exact .inl rfl
    · split at scanned
      · split at scanned
        · cases scanned
        · cases scanned
          exact .inl rfl
      · split at scanned
        · split at scanned
          · cases scanned
          · rename_i not_first
            cases scanned
            exact .inr ⟨by omega, rfl⟩
        · cases scanned

/-- The separator the loop records lies inside the scanned bytes. -/
theorem scan_prefixSize {i : Nat} {str : Data} {flags final : Scan}
    (scanned : scan i str flags = .ok final) :
    final.prefixSize = flags.prefixSize ∨
      flags.prefixSize = 0 ∧ i ≤ final.prefixSize ∧ final.prefixSize < i + str.length := by
  induction str generalizing i flags with
  | nil =>
      cases scanned
      exact .inl rfl
  | cons c str induction =>
      rw [scan] at scanned
      cases byte : scanByte i c flags with
      | error message =>
          rw [byte] at scanned
          cases scanned
      | ok next =>
          rw [byte] at scanned
          have rest := induction scanned
          simp only [List.length_cons]
          rcases scanByte_prefixSize byte with same | ⟨none, set⟩ <;>
            rcases rest with kept | ⟨unset, after, below⟩
          · exact .inl (kept.trans same)
          · exact .inr ⟨same ▸ unset, by omega, by omega⟩
          · exact .inr ⟨none, by omega, by omega⟩
          · exact .inr ⟨none, by omega, by omega⟩

theorem length_of_mapM_decodeValue {str values : Data} (decoded : str.mapM decodeValue = .ok values) :
    values.length = str.length := by
  induction str generalizing values with
  | nil =>
      cases decoded
      rfl
  | cons c str induction =>
      rw [List.mapM_cons] at decoded
      cases value : decodeValue c with
      | error message =>
          rw [value] at decoded
          cases decoded
      | ok v =>
          cases rest : str.mapM decodeValue with
          | error message =>
              rw [value, rest] at decoded
              cases decoded
          | ok vs =>
              rw [value, rest] at decoded
              cases decoded
              simp [induction rest]

/-- An accepted address is its prefix, the separator, the payload and eight checksum values: the
slice `values[:len(values)-8]` is in range whenever `DecodeCashAddress` returns. -/
theorem length_of_decodeCashAddress {str pre payload : Data}
    (decoded : decodeCashAddress str = some (.ok (pre, payload))) :
    0 < pre.length ∧ pre.length + 1 + payload.length + 8 = str.length := by
  unfold decodeCashAddress at decoded
  cases scanned : scan 0 str ⟨false, false, 0⟩ with
  | error message =>
      rw [scanned] at decoded
      cases decoded
  | ok flags =>
      rw [scanned] at decoded
      have separator : flags.prefixSize = 0 ∨ flags.prefixSize < str.length := by
        rcases scan_prefixSize scanned with same | ⟨_, _, below⟩
        · exact .inl same
        · exact .inr (by omega)
      simp only at decoded
      split at decoded
      · cases decoded
      · rename_i has_prefix
        split at decoded
        · cases decoded
        · split at decoded
          · cases decoded
          · rename_i values decoded_values
            have values_length := length_of_mapM_decodeValue decoded_values
            split at decoded
            · cases decoded
            · split at decoded
              · cases decoded
              · rename_i long
                simp only [Option.some.injEq, Except.ok.injEq, Prod.mk.injEq] at decoded
                obtain ⟨rfl, rfl⟩ := decoded
                simp only [List.length_map, List.length_take, List.length_drop] at values_length ⊢
                omega

theorem length_of_decodeCashAddress_bchtest :
    decodeCashAddress ("bchtest:qgljnauc9cc".toList.map Char.toUInt8) =
        some (.ok ("bchtest".toList.map Char.toUInt8, [0, 8, 31])) ∧
      0 < ("bchtest".toList.map Char.toUInt8).length ∧
      ("bchtest".toList.map Char.toUInt8).length + 1 + ([0, 8, 31] : Data).length + 8 =
        ("bchtest:qgljnauc9cc".toList.map Char.toUInt8).length := by
  have decoded : decodeCashAddress ("bchtest:qgljnauc9cc".toList.map Char.toUInt8) =
      some (.ok ("bchtest".toList.map Char.toUInt8, [0, 8, 31])) := by
    decide +kernel
  exact ⟨decoded, length_of_decodeCashAddress decoded⟩

/-- Seven data characters after the prefix `c` pass the checksum, so the slice
`values[:len(values)-8]` is out of range and `DecodeCashAddress` panics. -/
theorem decodeCashAddress_short_data_panics :
    decodeCashAddress ("c:qvdy2z3".toList.map Char.toUInt8) = none := by
  decide +kernel

end Coinquery.Cashaddr
