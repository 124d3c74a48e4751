import Coinquery.Library.Strconv
import Mathlib.Tactic.FieldSimp
import Mathlib.Data.Rat.Cast.Order

/-!
# `ToSatoshi`

`ToSatoshi(btc)` of `internal/convert`, which `InsertTx` applies to the value of every output: it
splits the text at `.`, deletes the first point, pads the result with zeros to eight fraction
digits and parses it with `strconv.ParseInt`. A fraction longer than eight bytes asks
`strings.Repeat` for a negative count, which panics; the model returns `none` there.

`toSatoshi_eq_ok_iff`: the text is accepted exactly when it has at most one point, at most eight
bytes after it, and what `ParseInt` reads once the point is gone and the zeros are added. On a
signed decimal text that is its value in units of `10⁻⁸` (`toSatoshi_decimal`). Nothing requires a
digit, and the sign may follow a leading point.
-/

namespace Coinquery
namespace Convert

open Strconv

/-- `UtxoPrecision`. -/
def utxoPrecision : Nat := 8

/-- The error `errors.Wrapf` returns: its message and the error it wraps. -/
structure Wrapped where
  message : List UInt8
  cause : NumError
  deriving DecidableEq, Repr

/-- `strings.Replace(btc, ".", "", 1)`. -/
def replaceFirstDot : List UInt8 → List UInt8
  | [] => []
  | c :: s => if c = 46 then s else c :: replaceFirstDot s

/-- `strconv.ParseInt(val, 10, 64)` and the error `ToSatoshi` returns for it. -/
def parseSats (btc val : List UInt8) : Int × Option Wrapped :=
  match parseInt val with
  | (sats, none) => (sats, none)
  | (_, some err) =>
      (-1, some ⟨"failed to convert btc value: ".toList.map Char.toUInt8 ++ btc ++
        ", into sats (int64)".toList.map Char.toUInt8, err⟩)

/-- `ToSatoshi(btc)`; `none` is the panic of `strings.Repeat`. -/
def toSatoshi (btc : List UInt8) : Option (Int × Option Wrapped) :=
  let s := btc.splitOn 46
  let b := replaceFirstDot btc
  if s.length = 1 then some (parseSats btc (b ++ List.replicate utxoPrecision 48))
  -- `strings.Repeat("0", UtxoPrecision-len(s[1]))` panics on a negative count
  else if utxoPrecision < (s.getD 1 []).length then none
  else some (parseSats btc (b ++ List.replicate (utxoPrecision - (s.getD 1 []).length) 48))

/-! ## The point -/

/-- A text has no point, or a first one. -/
theorem point_cases (btc : List UInt8) :
    46 ∉ btc ∨ ∃ whole rest, btc = whole ++ 46 :: rest ∧ 46 ∉ whole := by
  induction btc with
  | nil => exact .inl List.not_mem_nil
  | cons c btc induction =>
      by_cases point : c = 46
      · exact .inr ⟨[], btc, by rw [point]; rfl, List.not_mem_nil⟩
      · rcases induction with none | ⟨whole, rest, rfl, first⟩
        · exact .inl (by simp [none, Ne.symm point])
        · exact .inr ⟨c :: whole, rest, rfl, by simp [first, Ne.symm point]⟩

theorem replaceFirstDot_of_not_mem {btc : List UInt8} (none : 46 ∉ btc) : replaceFirstDot btc = btc := by
  induction btc with
  | nil => rfl
  | cons c btc induction =>
      have other : c ≠ 46 := fun h => none (h ▸ List.mem_cons_self)
      rw [replaceFirstDot, if_neg other, induction (fun h => none (List.mem_cons_of_mem c h))]

theorem replaceFirstDot_append {whole : List UInt8} (first : 46 ∉ whole) (rest : List UInt8) :
    replaceFirstDot (whole ++ 46 :: rest) = whole ++ rest := by
  induction whole with
  | nil => simp [replaceFirstDot]
  | cons c whole induction =>
      have other : c ≠ 46 := fun h => first (h ▸ List.mem_cons_self)
      rw [List.cons_append, replaceFirstDot, if_neg other,
        induction (fun h => first (List.mem_cons_of_mem c h)), List.cons_append]

/-- Without a point, the text is padded with eight zeros. -/
theorem toSatoshi_of_not_mem {btc : List UInt8} (none : 46 ∉ btc) :
    toSatoshi btc = some (parseSats btc (btc ++ List.replicate 8 48)) := by
  simp only [toSatoshi, List.splitOn_eq_singleton none, List.length_singleton, if_true,
    replaceFirstDot_of_not_mem none]
  rfl

/-- With a point, the text between it and the next point sets the padding. -/
theorem toSatoshi_of_point {whole : List UInt8} (first : 46 ∉ whole) (rest : List UInt8) :
    toSatoshi (whole ++ 46 :: rest) =
      if 8 < ((rest.splitOn 46).headD []).length then none
      else some (parseSats (whole ++ 46 :: rest)
        (whole ++ rest ++ List.replicate (8 - ((rest.splitOn 46).headD []).length) 48)) := by
  have pieces := List.splitOn_append_cons_self_of_not_mem first rest
  obtain ⟨piece, more, split_rest⟩ := List.exists_cons_of_ne_nil (List.splitOn_ne_nil 46 rest)
  simp only [toSatoshi, pieces, split_rest, List.length_cons, Nat.add_eq_right, List.getD_cons_succ,
    List.getD_cons_zero, replaceFirstDot_append first, List.headD_cons]
  rw [if_neg (by omega)]
  rfl

theorem parseSats_eq_ok_iff (btc val : List UInt8) (sats : Int) :
    parseSats btc val = (sats, none) ↔ parseInt val = (sats, none) := by
  unfold parseSats
  split <;> simp_all

/-! ## What `ToSatoshi` accepts -/

/-- Every byte `ParseInt` accepts is a sign or a digit, so never a point. -/
theorem point_not_mem_of_parseInt {val : List UInt8} {sats : Int} (parsed : parseInt val = (sats, none)) :
    46 ∉ val := by
  obtain ⟨sign, digits, neg, signs, rfl, _, all_digits, _⟩ := (parseInt_eq_ok_iff val sats).mp parsed
  intro member
  rcases List.mem_append.mp member with in_sign | in_digits
  · rcases signs with ⟨rfl, _⟩ | ⟨rfl, _⟩ | ⟨rfl, _⟩ <;> simp at in_sign
  · simpa [isDigit] using all_digits 46 in_digits

/-- `ToSatoshi` accepts a text exactly when it has at most one point, at most eight bytes after
it, and `ParseInt` reads the text without its point and padded to eight fraction digits. -/
theorem toSatoshi_eq_ok_iff (btc : List UInt8) (sats : Int) :
    toSatoshi btc = some (sats, none) ↔
      ∃ whole fraction, (btc = whole ∧ fraction = [] ∨ btc = whole ++ 46 :: fraction) ∧
        46 ∉ whole ∧ 46 ∉ fraction ∧ fraction.length ≤ 8 ∧
        parseInt (whole ++ fraction ++ List.replicate (8 - fraction.length) 48) = (sats, none) := by
  constructor
  · intro accepted
    rcases point_cases btc with none | ⟨whole, rest, rfl, first⟩
    · rw [toSatoshi_of_not_mem none, Option.some.injEq, parseSats_eq_ok_iff] at accepted
      exact ⟨btc, [], .inl ⟨rfl, rfl⟩, none, List.not_mem_nil, Nat.zero_le _,
        by simpa using accepted⟩
    · rw [toSatoshi_of_point first] at accepted
      split at accepted
      · simp at accepted
      · rename_i short
        rw [Option.some.injEq, parseSats_eq_ok_iff] at accepted
        -- the padded text parses, so the rest has no second point
        have no_second : 46 ∉ rest := fun member =>
          point_not_mem_of_parseInt accepted (by simp [member])
        rw [List.splitOn_eq_singleton no_second, List.headD_cons] at short accepted
        exact ⟨whole, rest, .inr rfl, first, no_second, Nat.le_of_not_lt short, accepted⟩
  · rintro ⟨whole, fraction, shape, first, no_second, short, parsed⟩
    rcases shape with ⟨rfl, rfl⟩ | rfl
    · rw [toSatoshi_of_not_mem first, Option.some.injEq, parseSats_eq_ok_iff]
      simpa using parsed
    · rw [toSatoshi_of_point first, List.splitOn_eq_singleton no_second, List.headD_cons,
        if_neg (Nat.not_lt_of_le short), Option.some.injEq, parseSats_eq_ok_iff]
      exact parsed

/-- `ToSatoshi` panics exactly when the text between the first point and the next one, or the
end, is longer than eight bytes. -/
theorem toSatoshi_eq_none_iff (btc : List UInt8) :
    toSatoshi btc = none ↔
      ∃ whole fraction rest, btc = whole ++ 46 :: fraction ++ rest ∧ 46 ∉ whole ∧ 46 ∉ fraction ∧
        (rest = [] ∨ ∃ more, rest = 46 :: more) ∧ 8 < fraction.length := by
  constructor
  · intro panics
    rcases point_cases btc with none | ⟨whole, rest, rfl, first⟩
    · simp [toSatoshi_of_not_mem none] at panics
    · rw [toSatoshi_of_point first] at panics
      split at panics
      · rename_i long
        rcases point_cases rest with no_second | ⟨fraction, more, rfl, second⟩
        · rw [List.splitOn_eq_singleton no_second, List.headD_cons] at long
          exact ⟨whole, rest, [], by simp, first, no_second, .inl rfl, long⟩
        · rw [List.splitOn_append_cons_self_of_not_mem second, List.headD_cons] at long
          exact ⟨whole, fraction, 46 :: more, by simp, first, second, .inr ⟨more, rfl⟩, long⟩
      · simp at panics
  · rintro ⟨whole, fraction, rest, rfl, first, second, ends, long⟩
    have pieces : (fraction ++ rest).splitOn 46 = fraction :: (rest.splitOn 46).tail := by
      rcases ends with rfl | ⟨more, rfl⟩
      · simp [List.splitOn_eq_singleton second]
      · have lead : (46 :: more).splitOn 46 = [] :: more.splitOn 46 :=
          List.splitOn_append_cons_self_of_not_mem List.not_mem_nil more
        simp [List.splitOn_append_cons_self_of_not_mem second, lead]
    rw [List.append_assoc, List.cons_append, toSatoshi_of_point first, pieces, List.headD_cons,
      if_pos long]

/-! ## Decimal texts -/

/-- The value of a decimal text with the digits `whole` before the point and `fraction` after it. -/
def decimalValue (neg : Bool) (whole fraction : List UInt8) : ℚ :=
  (if neg then -1 else 1) * (decimal whole + decimal fraction / 10 ^ fraction.length)

theorem decimal_padded (whole fraction : List UInt8) (short : fraction.length ≤ 8) :
    ((decimal (whole ++ fraction ++ List.replicate (8 - fraction.length) 48) : Nat) : ℚ) =
      (decimal whole + decimal fraction / 10 ^ fraction.length) * 10 ^ 8 := by
  rw [decimal_append, decimal_append, decimal_replicate_zero, List.length_replicate]
  have split_power : (10 : ℚ) ^ 8 = 10 ^ fraction.length * 10 ^ (8 - fraction.length) := by
    rw [← pow_add, Nat.add_sub_cancel' short]
  rw [split_power]
  push_cast
  field_simp
  ring

/-- A sign, digits, and a point with at most eight digits after it or no point: `ToSatoshi` returns
the value of the text in units of `10⁻⁸` when that is an `int64`. -/
theorem toSatoshi_decimal {sign whole fraction : List UInt8} {neg point : Bool}
    (signs : IsSign sign neg) (whole_digits : ∀ c ∈ whole, isDigit c = true)
    (fraction_digits : ∀ c ∈ fraction, isDigit c = true) (short : fraction.length ≤ 8)
    (no_point : point = false → fraction = [])
    (fits : -2 ^ 63 ≤ decimalValue neg whole fraction * 10 ^ 8 ∧
      decimalValue neg whole fraction * 10 ^ 8 < 2 ^ 63) :
    ∃ sats : Int, toSatoshi (sign ++ whole ++ if point then 46 :: fraction else []) = some (sats, none) ∧
      (sats : ℚ) = decimalValue neg whole fraction * 10 ^ 8 := by
  set digits := whole ++ fraction ++ List.replicate (8 - fraction.length) 48 with digits_def
  have all_digits : ∀ c ∈ digits, isDigit c = true := by
    intro c member
    simp only [digits_def, List.mem_append, List.mem_replicate] at member
    rcases member with (in_whole | in_fraction) | ⟨_, rfl⟩
    · exact whole_digits c in_whole
    · exact fraction_digits c in_fraction
    · rfl
  have nonempty : digits ≠ [] := by
    rcases Nat.lt_or_ge fraction.length 8 with room | full
    · simp [digits_def, Nat.sub_ne_zero_of_lt room]
    · have filled : fraction ≠ [] := by
        intro empty
        simp [empty] at full
      simp [digits_def, filled]
  have value : ((if neg then -(decimal digits : Int) else decimal digits : Int) : ℚ) =
      decimalValue neg whole fraction * 10 ^ 8 := by
    rw [decimalValue, mul_assoc, ← decimal_padded whole fraction short]
    cases neg <;> simp [digits_def]
  have fits_int : (if neg then -(decimal digits : Int) else decimal digits) < 2 ^ 63 ∧
      -2 ^ 63 ≤ (if neg then -(decimal digits : Int) else decimal digits) := by
    generalize (if neg then -(decimal digits : Int) else decimal digits) = signed at value ⊢
    rw [← value] at fits
    have upper : (signed : ℚ) < ((2 ^ 63 : ℤ) : ℚ) := by push_cast; exact fits.2
    have lower : ((-2 ^ 63 : ℤ) : ℚ) ≤ (signed : ℚ) := by push_cast; exact fits.1
    have upper_int := Int.cast_lt.mp upper
    have lower_int := Int.cast_le.mp lower
    constructor <;> omega
  have parsed := parseInt_signed_digits signs nonempty all_digits fits_int
  refine ⟨_, ?_, value⟩
  -- the sign stays in front of the whole part, so deleting the point leaves the padded digits
  have signed_first : 46 ∉ sign ++ whole := by
    intro member
    rcases List.mem_append.mp member with in_sign | in_whole
    · rcases signs with ⟨rfl, _⟩ | ⟨rfl, _⟩ | ⟨rfl, _⟩ <;> simp at in_sign
    · simpa [isDigit] using whole_digits 46 in_whole
  have no_second : 46 ∉ fraction := fun member => by
    simpa [isDigit] using fraction_digits 46 member
  refine (toSatoshi_eq_ok_iff _ _).mpr ⟨sign ++ whole, fraction, ?_, signed_first, no_second,
    short, by simpa [digits_def] using parsed⟩
  cases point
  · rw [no_point rfl]
    exact .inl ⟨by simp, rfl⟩
  · exact .inr (by simp)

/-- A lone point is read as zero, and a ninth fraction digit makes `ToSatoshi` panic. -/
theorem toSatoshi_lone_point_and_long_fraction :
    toSatoshi [46] = some (0, none) ∧
      toSatoshi ("0.123456789".toList.map Char.toUInt8) = none := by
  decide

end Convert
end Coinquery
