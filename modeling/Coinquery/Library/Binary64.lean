import Coinquery.Library.Strconv
import Mathlib.Data.Int.Log
import Mathlib.Data.Rat.Floor
import Mathlib.Tactic.FieldSimp
import Mathlib.Tactic.Linarith

/-!
# Doubles in the normal range, and their fixed-point text

A finite IEEE 754 double whose exponent stays inside its bounds is a rational with a 53-bit
significand. Conversion to a double and each arithmetic operation give the exact result rounded to
the nearest such rational, ties to the even significand (`round`). The error is at most half a unit
in the last place, so at most `|q| / 2 ^ 53` (`abs_round_sub_le`), and an integer below `2 ^ 53` in
magnitude is a double (`round_intCast`). Zero is unsigned here: the values this models never give
a negative zero, an infinity or a subnormal.

`formatFixed` is `strconv.FormatFloat(x, 'f', precision, 64)`, the text of `fmt.Sprintf("%.Nf", x)`:
the exact value of the double rounded to `precision` fraction digits, ties to even, with a minus
sign when the double is negative (`formatFixed_eq`).
-/

namespace Binary64

open Strconv

/-! ## Rounding to an integer -/

/-- The integer nearest to `q`; of two at the same distance, the even one. -/
def roundHalfEven (q : ℚ) : ℤ :=
  if q - ⌊q⌋ < 1 / 2 then ⌊q⌋
  else if 1 / 2 < q - ⌊q⌋ then ⌊q⌋ + 1
  else if ⌊q⌋ % 2 = 0 then ⌊q⌋ else ⌊q⌋ + 1

theorem abs_sub_roundHalfEven_le (q : ℚ) : |q - roundHalfEven q| ≤ 1 / 2 := by
  have low := Int.floor_le q
  have high := Int.lt_floor_add_one q
  unfold roundHalfEven
  split_ifs <;> rw [abs_le] <;> push_cast <;> constructor <;> linarith

/-- An integer nearer than a half to `q` is the one `q` rounds to. -/
theorem roundHalfEven_eq_of_abs_lt {q : ℚ} {n : ℤ} (near : |q - n| < 1 / 2) :
    roundHalfEven q = n := by
  have rounded := abs_sub_roundHalfEven_le q
  have close : |((roundHalfEven q - n : ℤ) : ℚ)| < 1 := by
    push_cast
    calc |(roundHalfEven q : ℚ) - n| = |(q - n) - (q - roundHalfEven q)| := by ring_nf
      _ ≤ |q - n| + |q - roundHalfEven q| := abs_sub _ _
      _ < 1 := by linarith
  have within : |roundHalfEven q - n| < 1 := by exact_mod_cast close
  rw [abs_lt] at within
  omega

@[simp]
theorem roundHalfEven_intCast (n : ℤ) : roundHalfEven n = n :=
  roundHalfEven_eq_of_abs_lt (by simp)

/-! ## Rounding to a significand of `precision` bits -/

/-- The exponent of the last significand bit of a nonzero `q` with `precision` bits. -/
def ulpExponent (precision : ℕ) (q : ℚ) : ℤ :=
  Int.log 2 |q| + 1 - precision

/-- `q` rounded to `precision` significant bits, to nearest, ties to even. -/
def round (precision : ℕ) (q : ℚ) : ℚ :=
  if q = 0 then 0
  else roundHalfEven (q / 2 ^ ulpExponent precision q) * 2 ^ ulpExponent precision q

/-- A unit in the last place is at most `2 |q| / 2 ^ precision`. -/
theorem zpow_ulpExponent_le (precision : ℕ) {q : ℚ} (nonzero : q ≠ 0) :
    (2 : ℚ) ^ ulpExponent precision q ≤ 2 * |q| / 2 ^ precision := by
  have below : (2 : ℚ) ^ Int.log 2 |q| ≤ |q| := by
    simpa using Int.zpow_log_le_self (by norm_num : 1 < 2) (abs_pos.mpr nonzero)
  rw [ulpExponent, zpow_sub₀ two_ne_zero, zpow_add_one₀ two_ne_zero, zpow_natCast]
  have positive : (0 : ℚ) < 2 ^ precision := by positivity
  rw [div_le_div_iff_of_pos_right positive]
  linarith

/-- Rounding moves `q` by at most half a unit in the last place. -/
theorem abs_round_sub_le (precision : ℕ) (q : ℚ) :
    |round precision q - q| ≤ |q| / 2 ^ precision := by
  unfold round
  split_ifs with zero
  · simp [zero]
  · set scale := (2 : ℚ) ^ ulpExponent precision q
    have scale_pos : 0 < scale := zpow_pos (by norm_num) _
    have rounded := abs_sub_roundHalfEven_le (q / scale)
    have ulp := zpow_ulpExponent_le precision zero
    calc |(roundHalfEven (q / scale) : ℚ) * scale - q|
        = |q / scale - roundHalfEven (q / scale)| * scale := by
          rw [← abs_of_pos scale_pos, ← abs_mul, abs_of_pos scale_pos, abs_sub_comm]
          congr 1
          field_simp
      _ ≤ 1 / 2 * scale := mul_le_mul_of_nonneg_right rounded scale_pos.le
      _ ≤ |q| / 2 ^ precision := by
          have halved : 2 * |q| / 2 ^ precision = 2 * (|q| / 2 ^ precision) := by ring
          linarith

/-- An integer below `2 ^ precision` in magnitude needs no rounding. -/
theorem round_intCast {precision : ℕ} {n : ℤ} (small : |n| < 2 ^ precision) :
    round precision n = n := by
  by_cases zero : n = 0
  · simp [round, zero]
  have nonzero : (n : ℚ) ≠ 0 := by exact_mod_cast zero
  -- the last significand bit is at most the units bit
  have exponent : ulpExponent precision n ≤ 0 := by
    have below : Int.log 2 |(n : ℚ)| < precision := by
      refine (Int.lt_zpow_iff_log_lt (by norm_num) (abs_pos.mpr nonzero)).mp ?_
      simpa [← Int.cast_abs] using (show (|n| : ℚ) < 2 ^ precision by exact_mod_cast small)
    rw [ulpExponent]
    omega
  obtain ⟨k, hk⟩ : ∃ k : ℕ, ulpExponent precision n = -k :=
    ⟨(-ulpExponent precision n).toNat, by omega⟩
  have scaled : (n : ℚ) / 2 ^ ulpExponent precision n = ((n * 2 ^ k : ℤ) : ℚ) := by
    rw [hk, zpow_neg, zpow_natCast]
    push_cast
    field_simp
  rw [round, if_neg nonzero, scaled, roundHalfEven_intCast, hk, zpow_neg, zpow_natCast]
  push_cast
  field_simp

/-! ## Fixed-point text -/

/-- The decimal digits of `n`, as `strconv` writes them. -/
def digitBytes (n : ℕ) : List UInt8 :=
  (Nat.toDigits 10 n).map Char.toUInt8

/-- `strconv.FormatFloat(x, 'f', precision, 64)` of the double `x`. -/
def formatFixed (precision : ℕ) (x : ℚ) : List UInt8 :=
  let scaled := (roundHalfEven (|x| * 10 ^ precision)).toNat
  let fraction := digitBytes (scaled % 10 ^ precision)
  (if x < 0 then [45] else []) ++ digitBytes (scaled / 10 ^ precision) ++
    if precision = 0 then [] else 46 :: (List.replicate (precision - fraction.length) 48 ++ fraction)

/-- A digit character is one byte, between `'0'` and `'9'`. -/
theorem toNat_toUInt8_of_isDigit {c : Char} (digit : c.isDigit = true) :
    c.toUInt8.toNat = c.toNat ∧ 48 ≤ c.toNat ∧ c.toNat ≤ 57 := by
  simp only [Char.isDigit, Bool.and_eq_true, decide_eq_true_eq] at digit
  have low := UInt32.le_iff_toNat_le.mp digit.1
  have high := UInt32.le_iff_toNat_le.mp digit.2
  rw [← Char.toUInt8_val, UInt32.toNat_toUInt8, show c.toNat = c.val.toNat from rfl]
  rw [show '0'.val.toNat = 48 from rfl] at low
  rw [show '9'.val.toNat = 57 from rfl] at high
  omega

theorem digitValue_toUInt8 {c : Char} (digit : c.isDigit = true) :
    digitValue c.toUInt8 = c.toNat - '0'.toNat := by
  rw [digitValue, (toNat_toUInt8_of_isDigit digit).1]
  rfl

theorem isDigit_toUInt8 {c : Char} (digit : c.isDigit = true) : isDigit c.toUInt8 = true := by
  obtain ⟨byte, low, high⟩ := toNat_toUInt8_of_isDigit digit
  simp only [isDigit, Bool.and_eq_true, decide_eq_true_eq, UInt8.le_iff_toNat_le, byte]
  exact ⟨low, high⟩

theorem isDigit_of_mem_digitBytes {n : ℕ} {c : UInt8} (member : c ∈ digitBytes n) :
    isDigit c = true := by
  obtain ⟨char, listed, rfl⟩ := List.mem_map.mp member
  exact isDigit_toUInt8 (Nat.isDigit_of_mem_toDigits (by decide) (by decide) listed)

theorem decimalFrom_map_toUInt8 (n : ℕ) {chars : List Char} (digits : ∀ c ∈ chars, c.isDigit = true) :
    decimalFrom n (chars.map Char.toUInt8) = Nat.ofDigitChars 10 chars n := by
  induction chars generalizing n with
  | nil => rfl
  | cons c chars induction =>
      have rest := induction (n * 10 + digitValue c.toUInt8)
        fun d member => digits d (List.mem_cons_of_mem c member)
      simp only [decimalFrom, Nat.ofDigitChars, List.map_cons, List.foldl_cons] at rest ⊢
      rw [rest, digitValue_toUInt8 (digits c List.mem_cons_self), Nat.mul_comm]

@[simp]
theorem decimal_digitBytes (n : ℕ) : decimal (digitBytes n) = n := by
  rw [decimal, digitBytes, decimalFrom_map_toUInt8 0
    fun c member => Nat.isDigit_of_mem_toDigits (by decide) (by decide) member]
  exact Nat.ofDigitChars_ten_toDigits

theorem length_digitBytes_le {n k : ℕ} (positive : 0 < k) (small : n < 10 ^ k) :
    (digitBytes n).length ≤ k := by
  rw [digitBytes, List.length_map]
  exact (Nat.length_toDigits_le_iff (by decide) positive).mpr small

/-- The text of a double with `precision > 0`: its sign, the digits of the whole part, a point and
`precision` digits, reading as the value rounded to `precision` fraction digits. -/
theorem formatFixed_eq {precision : ℕ} (positive : 0 < precision) (x : ℚ) :
    ∃ whole fraction, formatFixed precision x =
        (if x < 0 then [45] else []) ++ whole ++ 46 :: fraction ∧
      (∀ c ∈ whole, isDigit c = true) ∧ (∀ c ∈ fraction, isDigit c = true) ∧
      fraction.length = precision ∧
      decimal whole * 10 ^ precision + decimal fraction =
        (roundHalfEven (|x| * 10 ^ precision)).toNat := by
  set scaled := (roundHalfEven (|x| * 10 ^ precision)).toNat
  set digits := digitBytes (scaled % 10 ^ precision)
  have short : digits.length ≤ precision :=
    length_digitBytes_le positive (Nat.mod_lt _ (by positivity))
  refine ⟨digitBytes (scaled / 10 ^ precision),
    List.replicate (precision - digits.length) 48 ++ digits, ?_, fun c => isDigit_of_mem_digitBytes,
    ?_, ?_, ?_⟩
  · simp [formatFixed, scaled, digits, Nat.pos_iff_ne_zero.mp positive]
  · intro c member
    rcases List.mem_append.mp member with padding | listed
    · rw [(List.mem_replicate.mp padding).2]
      rfl
    · exact isDigit_of_mem_digitBytes listed
  · simp only [List.length_append, List.length_replicate]
    omega
  · rw [decimal_append, decimal_replicate_zero, decimal_digitBytes, decimal_digitBytes]
    simp only [Nat.zero_mul, Nat.zero_add]
    rw [Nat.mul_comm]
    exact Nat.div_add_mod scaled (10 ^ precision)

end Binary64
