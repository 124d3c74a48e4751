import Coinquery.Convert.ToSatoshi
import Coinquery.Library.Binary64

/-!
# `ToBTC`, and the value insight prints and reads back

`ToBTC(sats)` of `internal/convert` is `float64(sats) / 1e8`: the amount becomes a double and is
divided as a double (`toBTC`). Insight prints the value of every output as
`fmt.Sprintf("%.8f", ToBTC(sats))`, and `getTxs` adds up `ToSatoshi` of those texts. For every
amount below `2 ^ 52` satoshis in magnitude (more than twice the bitcoin supply) the printed text
reads back as the amount (`toSatoshi_formatFixed_toBTC`). At `2 ^ 53 + 1` the conversion to a
double already loses the last satoshi, and the text reads back as `2 ^ 53`.
-/

namespace Coinquery
namespace Convert

open Strconv

/-- `float64(x)` of a value in the range of the amounts. -/
def float64 (q : ℚ) : ℚ :=
  Binary64.round 53 q

/-- `ToBTC(sats)`: `float64(sats) / 1e8`, the quotient rounded as a double. -/
def toBTC (sats : Int) : ℚ :=
  float64 (float64 sats / 10 ^ 8)

/-- Below `2 ^ 52` satoshis, `ToBTC` is within half a satoshi of the amount. -/
theorem abs_toBTC_sub_lt {sats : Int} (small : |sats| < 2 ^ 52) :
    |toBTC sats * 10 ^ 8 - sats| < 1 / 2 := by
  have exact : float64 sats = sats :=
    Binary64.round_intCast (lt_of_lt_of_le small (by norm_num))
  have rounded := Binary64.abs_round_sub_le 53 ((sats : ℚ) / 10 ^ 8)
  have small_rat : |(sats : ℚ)| < 2 ^ 52 := by exact_mod_cast small
  rw [toBTC, exact, float64]
  calc |Binary64.round 53 ((sats : ℚ) / 10 ^ 8) * 10 ^ 8 - sats|
      = |Binary64.round 53 ((sats : ℚ) / 10 ^ 8) - sats / 10 ^ 8| * 10 ^ 8 := by
        rw [← abs_of_pos (show (0 : ℚ) < 10 ^ 8 by norm_num), ← abs_mul]
        congr 1
        ring
    _ ≤ |(sats : ℚ) / 10 ^ 8| / 2 ^ 53 * 10 ^ 8 :=
        mul_le_mul_of_nonneg_right rounded (by norm_num)
    _ = |(sats : ℚ)| / 2 ^ 53 := by
        rw [abs_div, abs_of_pos (show (0 : ℚ) < 10 ^ 8 by norm_num)]
        field_simp
    _ < 1 / 2 := by
        rw [div_lt_iff₀ (by norm_num)]
        linarith

/-- `ToBTC` keeps the sign of the amount. -/
theorem toBTC_neg_iff {sats : Int} (small : |sats| < 2 ^ 52) : toBTC sats < 0 ↔ sats < 0 := by
  obtain ⟨lower, upper⟩ := abs_lt.mp (abs_toBTC_sub_lt small)
  rcases lt_trichotomy sats 0 with negative | rfl | positive
  · have below : (sats : ℚ) ≤ -1 := by exact_mod_cast Int.le_sub_one_of_lt negative
    exact ⟨fun _ => negative, fun _ => by linarith⟩
  · simp [toBTC, float64, Binary64.round]
  · have above : (1 : ℚ) ≤ sats := by exact_mod_cast positive
    exact ⟨fun negative => by linarith, fun negative => absurd negative (not_lt.mpr positive.le)⟩

/-- Every amount below `2 ^ 52` satoshis in magnitude survives `%.8f` of `ToBTC` and `ToSatoshi`. -/
theorem toSatoshi_formatFixed_toBTC {sats : Int} (small : |sats| < 2 ^ 52) :
    toSatoshi (Binary64.formatFixed 8 (toBTC sats)) = some (sats, none) := by
  -- eight fraction digits round the double to the amount
  have scaled : (Binary64.roundHalfEven (|toBTC sats| * 10 ^ 8)).toNat = sats.natAbs := by
    have magnitude : |(|toBTC sats| * 10 ^ 8) - ((sats.natAbs : ℤ) : ℚ)| < 1 / 2 :=
      calc |(|toBTC sats| * 10 ^ 8) - ((sats.natAbs : ℤ) : ℚ)|
          = |(|toBTC sats * 10 ^ 8| - |(sats : ℚ)|)| := by
            rw [abs_mul, abs_of_pos (show (0 : ℚ) < 10 ^ 8 by norm_num), Int.natCast_natAbs,
              Int.cast_abs]
        _ ≤ |toBTC sats * 10 ^ 8 - sats| := abs_abs_sub_abs_le _ _
        _ < 1 / 2 := abs_toBTC_sub_lt small
    rw [Binary64.roundHalfEven_eq_of_abs_lt magnitude, Int.toNat_natCast]
  obtain ⟨whole, fraction, text, whole_digits, fraction_digits, eight, value⟩ :=
    Binary64.formatFixed_eq (by decide : 0 < 8) (toBTC sats)
  rw [scaled] at value
  have signs : IsSign (if toBTC sats < 0 then [45] else []) (decide (sats < 0)) := by
    by_cases negative : sats < 0
    · exact .inr (.inr ⟨if_pos ((toBTC_neg_iff small).mpr negative), by simp [negative]⟩)
    · exact .inl ⟨if_neg (mt (toBTC_neg_iff small).mp negative), by simp [negative]⟩
  -- the digits read as the amount
  have read_back : decimalValue (decide (sats < 0)) whole fraction * 10 ^ 8 = sats := by
    have total : (decimal whole : ℚ) * 10 ^ 8 + decimal fraction = |(sats : ℚ)| := by
      rw [← Int.cast_abs, ← Int.natCast_natAbs, ← value]
      push_cast
      rfl
    rw [decimalValue, eight]
    by_cases negative : sats < 0
    · have negative_rat : (sats : ℚ) < 0 := by exact_mod_cast negative
      rw [abs_of_neg negative_rat] at total
      simp only [negative, decide_true, if_true]
      field_simp
      linarith
    · have nonneg_rat : 0 ≤ (sats : ℚ) := by exact_mod_cast not_lt.mp negative
      rw [abs_of_nonneg nonneg_rat] at total
      simp only [negative, decide_false, Bool.false_eq_true, if_false]
      field_simp
      linarith
  have fits : -2 ^ 63 ≤ decimalValue (decide (sats < 0)) whole fraction * 10 ^ 8 ∧
      decimalValue (decide (sats < 0)) whole fraction * 10 ^ 8 < 2 ^ 63 := by
    have bounds := abs_lt.mp small
    have lower : ((-2 ^ 52 : ℤ) : ℚ) < sats := by exact_mod_cast bounds.1
    have upper : (sats : ℚ) < ((2 ^ 52 : ℤ) : ℚ) := by exact_mod_cast bounds.2
    push_cast at lower upper
    rw [read_back]
    constructor <;> linarith
  obtain ⟨read, accepted, read_value⟩ := toSatoshi_decimal signs whole_digits fraction_digits
    eight.le (fun absent : true = false => by cases absent) fits
  have same : read = sats := by exact_mod_cast read_value.trans read_back
  rw [same] at accepted
  rw [text]
  simpa using accepted

/-- Above `2 ^ 53` the amount is no longer a double: `2 ^ 53 + 1` satoshis print as `2 ^ 53`. -/
example : toSatoshi (Binary64.formatFixed 8 (toBTC (2 ^ 53 + 1))) = some (2 ^ 53, none) := by
  decide +kernel

end Convert
end Coinquery
