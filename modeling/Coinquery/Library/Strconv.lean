import Mathlib.Data.List.Basic
import Mathlib.Tactic.Ring

/-!
# Go's `strconv` in base 10

`ParseUint(s, 10, 64)`, `ParseInt(s, 10, 64)` and `Atoi(s)` of Go's standard library, on a Go
string as its bytes. A Go function with two results returns a pair here: the value, and the
`*NumError` or `none` for `nil`. A caller that drops the error still reads the value, which is `0`
after a syntax error and the nearest bound after a range error.

What the three accept is a sign and decimal digits whose value fits (`parseUint_eq_ok_iff`,
`parseInt_signed_digits`, `parseInt_eq_ok_iff`), and every value `Atoi` returns is an `int64`
(`atoi_bounds`).
-/

namespace Strconv

/-- The two causes a `*NumError` carries, `ErrSyntax` and `ErrRange`. -/
inductive Failure
  | errSyntax
  | errRange
  deriving DecidableEq, Repr

/-- Go's `*strconv.NumError`. -/
structure NumError where
  /-- `Func`, the function that failed. -/
  func : String
  /-- `Num`, its input. -/
  num : List UInt8
  /-- `Err`. -/
  err : Failure
  deriving DecidableEq, Repr

def isDigit (c : UInt8) : Bool :=
  48 ≤ c && c ≤ 57

def digitValue (c : UInt8) : Nat :=
  c.toNat - 48

def maxUint64 : Nat :=
  2 ^ 64 - 1

/-- The value of a digit string after the value `n` read so far. -/
def decimalFrom (n : Nat) (digits : List UInt8) : Nat :=
  digits.foldl (fun n c => n * 10 + digitValue c) n

/-- The value of a digit string. -/
def decimal (digits : List UInt8) : Nat :=
  decimalFrom 0 digits

/-- The digit loop of `ParseUint(s, 10, 64)` after the value `n`; `s0` is the whole input. In
base 10 a letter fails the digit check as every other byte does. -/
def parseUintLoop (s0 : List UInt8) : Nat → List UInt8 → Nat × Option NumError
  | n, [] => (n, none)
  | n, c :: s =>
      if !isDigit c then (0, some ⟨"ParseUint", s0, .errSyntax⟩)
      -- `n >= cutoff`: `n * 10` overflows
      else if maxUint64 / 10 + 1 ≤ n then (maxUint64, some ⟨"ParseUint", s0, .errRange⟩)
      -- `n1 < n || n1 > maxVal`: adding the digit overflows
      else if maxUint64 < n * 10 + digitValue c then (maxUint64, some ⟨"ParseUint", s0, .errRange⟩)
      else parseUintLoop s0 (n * 10 + digitValue c) s

def parseUint (s : List UInt8) : Nat × Option NumError :=
  if s = [] then (0, some ⟨"ParseUint", s, .errSyntax⟩) else parseUintLoop s 0 s

/-- `ParseInt(s, 10, 64)`: the sign, then `ParseUint` on the rest and the `int64` range check. -/
def parseInt (s : List UInt8) : Int × Option NumError :=
  match s with
  | [] => (0, some ⟨"ParseInt", [], .errSyntax⟩)
  | c :: rest =>
      let neg := c = 45
      let unsigned := parseUint (if c = 43 ∨ c = 45 then rest else c :: rest)
      -- a syntax error is passed on; a range error is reported by the check below
      if unsigned.2.any (·.err != .errRange) then
        (0, unsigned.2.map fun e => { e with func := "ParseInt", num := c :: rest })
      else if ¬neg ∧ 2 ^ 63 ≤ unsigned.1 then (2 ^ 63 - 1, some ⟨"ParseInt", c :: rest, .errRange⟩)
      else if neg ∧ 2 ^ 63 < unsigned.1 then (-2 ^ 63, some ⟨"ParseInt", c :: rest, .errRange⟩)
      else (if neg then -(unsigned.1 : Int) else unsigned.1, none)

/-- The digit loop of the fast path of `Atoi`: `ch -= '0'` on a byte, which wraps below `'0'`. -/
def atoiDigits : Nat → List UInt8 → Option Nat
  | n, [] => some n
  | n, c :: s => if 9 < c - 48 then none else atoiDigits (n * 10 + (c - 48).toNat) s

/-- `Atoi(s)`: a fast path for inputs of 1 to 18 bytes, which cannot overflow, and `ParseInt`
otherwise. -/
def atoi (s : List UInt8) : Int × Option NumError :=
  if 0 < s.length ∧ s.length < 19 then
    let signed := s.head? = some 45 ∨ s.head? = some 43
    let digits := if signed then s.drop 1 else s
    if signed ∧ digits = [] then (0, some ⟨"Atoi", s, .errSyntax⟩)
    else
      match atoiDigits 0 digits with
      | none => (0, some ⟨"Atoi", s, .errSyntax⟩)
      | some n => (if s.head? = some 45 then -(n : Int) else n, none)
  else
    let parsed := parseInt s
    (parsed.1, parsed.2.map fun e => { e with func := "Atoi" })

/-! ## Decimal values -/

theorem decimalFrom_eq (n : Nat) (digits : List UInt8) :
    decimalFrom n digits = n * 10 ^ digits.length + decimal digits := by
  induction digits generalizing n with
  | nil => simp [decimalFrom, decimal]
  | cons c digits induction =>
      have shifted := induction (n * 10 + digitValue c)
      have first := induction (digitValue c)
      simp only [decimalFrom, decimal, List.foldl_cons, Nat.zero_mul, Nat.zero_add] at shifted first ⊢
      rw [shifted, first, List.length_cons, Nat.pow_succ]
      ring

theorem decimal_append (front back : List UInt8) :
    decimal (front ++ back) = decimal front * 10 ^ back.length + decimal back := by
  rw [decimal, decimalFrom, List.foldl_append]
  exact decimalFrom_eq _ back

@[simp]
theorem decimal_replicate_zero (k : Nat) : decimal (List.replicate k 48) = 0 := by
  induction k with
  | zero => rfl
  | succ k induction =>
      rw [List.replicate_succ', decimal_append, induction]
      rfl

theorem le_decimalFrom (n : Nat) (digits : List UInt8) : n ≤ decimalFrom n digits := by
  rw [decimalFrom_eq]
  exact Nat.le_add_right_of_le (Nat.le_mul_of_pos_right n (Nat.pow_pos (by decide)))

/-! ## `ParseUint` -/

/-- The digit loop succeeds exactly on digits whose value fits in 64 bits, with that value. -/
theorem parseUintLoop_eq_ok_iff (s0 : List UInt8) {n : Nat} (small : n ≤ maxUint64)
    (digits : List UInt8) (value : Nat) :
    parseUintLoop s0 n digits = (value, none) ↔
      (∀ c ∈ digits, isDigit c = true) ∧ decimalFrom n digits ≤ maxUint64 ∧
        value = decimalFrom n digits := by
  induction digits generalizing n with
  | nil =>
      simp only [parseUintLoop, decimalFrom, List.foldl_nil, Prod.mk.injEq, and_true,
        List.not_mem_nil, IsEmpty.forall_iff, implies_true, small, true_and]
      exact eq_comm
  | cons c digits induction =>
      have grows := le_decimalFrom (n * 10 + digitValue c) digits
      have next : decimalFrom n (c :: digits) = decimalFrom (n * 10 + digitValue c) digits := rfl
      rw [parseUintLoop, next, List.forall_mem_cons]
      by_cases digit : isDigit c = true
      · rw [if_neg (by simp [digit])]
        by_cases overflow : maxUint64 < n * 10 + digitValue c
        · have too_big : ¬ decimalFrom (n * 10 + digitValue c) digits ≤ maxUint64 := by omega
          constructor
          · intro parsed
            split at parsed <;> simp at parsed
          · rintro ⟨_, fits, _⟩
            exact absurd fits too_big
        · have no_cutoff : ¬ maxUint64 / 10 + 1 ≤ n := by
            unfold maxUint64 at overflow ⊢
            omega
          rw [if_neg no_cutoff, if_neg overflow, induction (Nat.le_of_not_lt overflow)]
          simp [digit]
      · rw [if_pos (by simp [digit])]
        simp [digit]

theorem parseUint_eq_ok_iff (s : List UInt8) (value : Nat) :
    parseUint s = (value, none) ↔
      s ≠ [] ∧ (∀ c ∈ s, isDigit c = true) ∧ decimal s ≤ maxUint64 ∧ value = decimal s := by
  by_cases empty : s = []
  · simp [parseUint, empty]
  · simp only [parseUint, empty, if_false, ne_eq, not_false_eq_true, true_and]
    exact parseUintLoop_eq_ok_iff s (Nat.zero_le _) s value

/-- A range error of the digit loop comes with the value `maxUint64`. -/
theorem parseUintLoop_of_range {s0 : List UInt8} {n value : Nat} {digits : List UInt8}
    {e : NumError} (parsed : parseUintLoop s0 n digits = (value, some e)) (range : e.err = .errRange) :
    value = maxUint64 := by
  induction digits generalizing n with
  | nil => simp [parseUintLoop] at parsed
  | cons c digits induction =>
      rw [parseUintLoop] at parsed
      split at parsed
      · simp only [Prod.mk.injEq, Option.some.injEq] at parsed
        rw [← parsed.2] at range
        simp at range
      · split at parsed
        · exact (Prod.mk.inj parsed).1.symm
        · split at parsed
          · exact (Prod.mk.inj parsed).1.symm
          · exact induction parsed

theorem parseUint_of_range {s : List UInt8} {value : Nat} {e : NumError}
    (parsed : parseUint s = (value, some e)) (range : e.err = .errRange) : value = maxUint64 := by
  unfold parseUint at parsed
  split at parsed
  · simp only [Prod.mk.injEq, Option.some.injEq] at parsed
    rw [← parsed.2] at range
    simp at range
  · exact parseUintLoop_of_range parsed range

/-- Whatever the outcome, the value of the digit loop is a `uint64`. -/
theorem parseUintLoop_fst_le {s0 : List UInt8} {n : Nat} (small : n ≤ maxUint64)
    (digits : List UInt8) : (parseUintLoop s0 n digits).1 ≤ maxUint64 := by
  induction digits generalizing n with
  | nil => exact small
  | cons c digits induction =>
      rw [parseUintLoop]
      split
      · exact Nat.zero_le _
      · split
        · exact Nat.le_refl _
        · split
          · exact Nat.le_refl _
          · exact induction (by omega)

theorem parseUint_fst_le (s : List UInt8) : (parseUint s).1 ≤ maxUint64 := by
  unfold parseUint
  split
  · exact Nat.zero_le _
  · exact parseUintLoop_fst_le (Nat.zero_le _) s

/-! ## `ParseInt` -/

/-- Past the sign, when `ParseUint` succeeds on the rest, `ParseInt` only checks the range. -/
theorem parseInt_of_parseUint {c : UInt8} {rest : List UInt8} {un : Nat}
    (unsigned : parseUint (if c = 43 ∨ c = 45 then rest else c :: rest) = (un, none)) :
    parseInt (c :: rest) =
      if c ≠ 45 ∧ 2 ^ 63 ≤ un then (2 ^ 63 - 1, some ⟨"ParseInt", c :: rest, .errRange⟩)
      else if c = 45 ∧ 2 ^ 63 < un then (-2 ^ 63, some ⟨"ParseInt", c :: rest, .errRange⟩)
      else (if c = 45 then -(un : Int) else un, none) := by
  simp only [parseInt, unsigned, Option.any_none, Bool.false_eq_true, if_false]

/-- An error of `ParseUint` on the digits is an error of `ParseInt`. -/
theorem parseInt_of_parseUint_error {c : UInt8} {rest : List UInt8} {un : Nat} {e : NumError}
    (unsigned : parseUint (if c = 43 ∨ c = 45 then rest else c :: rest) = (un, some e)) :
    (parseInt (c :: rest)).2.isSome := by
  by_cases range : e.err = .errRange
  · have top := parseUint_of_range unsigned range
    have high : 2 ^ 63 < maxUint64 := by
      unfold maxUint64
      decide
    simp only [parseInt, unsigned, top, Option.any_some, range, bne_self_eq_false,
      Bool.false_eq_true, if_false]
    by_cases minus : c = 45
    · rw [if_neg (fun h => h.1 minus), if_pos ⟨minus, high⟩]
      rfl
    · rw [if_pos ⟨minus, high.le⟩]
      rfl
  · simp [parseInt, unsigned, range]

/-- A sign byte (`'+'` is 43, `'-'` is 45) or none, and whether it negates. -/
def IsSign (sign : List UInt8) (neg : Bool) : Prop :=
  sign = [] ∧ neg = false ∨ sign = [43] ∧ neg = false ∨ sign = [45] ∧ neg = true

/-- `ParseInt` on a sign followed by digits: the signed value when it is an `int64`. -/
theorem parseInt_signed_digits {sign digits : List UInt8} {neg : Bool} (signs : IsSign sign neg)
    (nonempty : digits ≠ []) (all_digits : ∀ c ∈ digits, isDigit c = true)
    (fits : (if neg then -(decimal digits : Int) else decimal digits) < 2 ^ 63 ∧
      -2 ^ 63 ≤ (if neg then -(decimal digits : Int) else decimal digits)) :
    parseInt (sign ++ digits) = (if neg then -(decimal digits : Int) else decimal digits, none) := by
  have below : decimal digits ≤ maxUint64 := by
    unfold maxUint64
    cases neg <;> simp at fits <;> omega
  have unsigned : parseUint digits = (decimal digits, none) :=
    (parseUint_eq_ok_iff digits _).mpr ⟨nonempty, all_digits, below, rfl⟩
  rcases signs with ⟨rfl, rfl⟩ | ⟨rfl, rfl⟩ | ⟨rfl, rfl⟩
  · obtain ⟨c, rest, rfl⟩ := List.exists_cons_of_ne_nil nonempty
    have digit := all_digits c List.mem_cons_self
    simp only [isDigit, Bool.and_eq_true, decide_eq_true_eq] at digit
    have not_sign : c ≠ 43 ∧ c ≠ 45 := by
      constructor <;> rintro rfl <;> simp at digit
    have unsigned' : parseUint (if c = 43 ∨ c = 45 then rest else c :: rest) =
        (decimal (c :: rest), none) := by
      rw [if_neg (by simp [not_sign.1, not_sign.2]), unsigned]
    simp only [if_false, Bool.false_eq_true] at fits ⊢
    rw [List.nil_append, parseInt_of_parseUint unsigned', if_neg (by omega),
      if_neg (by simp [not_sign.2]), if_neg not_sign.2]
  · simp only [if_false, Bool.false_eq_true] at fits ⊢
    have unsigned' : parseUint (if (43 : UInt8) = 43 ∨ (43 : UInt8) = 45 then digits else 43 :: digits) =
        (decimal digits, none) := by
      rw [if_pos (.inl rfl), unsigned]
    rw [List.cons_append, List.nil_append, parseInt_of_parseUint unsigned', if_neg (by omega),
      if_neg (by simp), if_neg (by simp)]
  · simp only [if_true] at fits ⊢
    have unsigned' : parseUint (if (45 : UInt8) = 43 ∨ (45 : UInt8) = 45 then digits else 45 :: digits) =
        (decimal digits, none) := by
      rw [if_pos (.inr rfl), unsigned]
    rw [List.cons_append, List.nil_append, parseInt_of_parseUint unsigned', if_neg (by simp),
      if_neg (by omega), if_pos rfl]

/-- `ParseInt` succeeds exactly on a sign followed by digits whose signed value is an `int64`. -/
theorem parseInt_eq_ok_iff (s : List UInt8) (value : Int) :
    parseInt s = (value, none) ↔
      ∃ (sign digits : List UInt8) (neg : Bool), IsSign sign neg ∧ s = sign ++ digits ∧
        digits ≠ [] ∧ (∀ c ∈ digits, isDigit c = true) ∧
        value = (if neg then -(decimal digits : Int) else decimal digits) ∧
        value < 2 ^ 63 ∧ -2 ^ 63 ≤ value := by
  constructor
  · intro parsed
    cases s with
    | nil => simp [parseInt] at parsed
    | cons c rest =>
        -- the sign `ParseInt` picks off, and the digits it hands to `ParseUint`
        obtain ⟨sign, neg, signs, split_eq⟩ : ∃ sign neg, IsSign sign neg ∧
            c :: rest = sign ++ (if c = 43 ∨ c = 45 then rest else c :: rest) ∧
            (neg = true ↔ c = 45) := by
          by_cases minus : c = 45
          · exact ⟨[45], true, .inr (.inr ⟨rfl, rfl⟩), by simp [minus], by simp [minus]⟩
          · by_cases plus : c = 43
            · exact ⟨[43], false, .inr (.inl ⟨rfl, rfl⟩), by simp [plus], by simp [minus]⟩
            · exact ⟨[], false, .inl ⟨rfl, rfl⟩, by simp [plus, minus], by simp [minus]⟩
        cases unsigned : parseUint (if c = 43 ∨ c = 45 then rest else c :: rest) with
        | mk un err =>
            cases err with
            | some e =>
                have failed := parseInt_of_parseUint_error unsigned
                simp [parsed] at failed
            | none =>
                obtain ⟨nonempty, all_digits, _, un_eq⟩ := (parseUint_eq_ok_iff _ un).mp unsigned
                rw [parseInt_of_parseUint unsigned] at parsed
                refine ⟨sign, _, neg, signs, split_eq.1, nonempty, all_digits, ?_⟩
                rw [← un_eq]
                by_cases minus : c = 45
                · have negates : neg = true := split_eq.2.mpr minus
                  rw [if_neg (fun h => h.1 minus)] at parsed
                  by_cases low : 2 ^ 63 < un
                  · rw [if_pos ⟨minus, low⟩] at parsed
                    simp at parsed
                  · rw [if_neg (fun h => low h.2), if_pos minus] at parsed
                    simp only [Prod.mk.injEq, and_true] at parsed
                    simp only [negates, if_true]
                    omega
                · have keeps : neg = false := by
                    cases neg
                    · rfl
                    · exact absurd (split_eq.2.mp rfl) minus
                  by_cases high : 2 ^ 63 ≤ un
                  · rw [if_pos ⟨minus, high⟩] at parsed
                    simp at parsed
                  · rw [if_neg (fun h => high h.2), if_neg (fun h => minus h.1), if_neg minus] at parsed
                    simp only [Prod.mk.injEq, and_true] at parsed
                    simp only [keeps, Bool.false_eq_true, if_false]
                    omega
  · rintro ⟨sign, digits, neg, signs, rfl, nonempty, all_digits, rfl, upper, lower⟩
    exact parseInt_signed_digits signs nonempty all_digits ⟨upper, lower⟩

/-- Whatever the outcome, the value `ParseInt` returns is an `int64`. -/
theorem parseInt_bounds (s : List UInt8) : -2 ^ 63 ≤ (parseInt s).1 ∧ (parseInt s).1 < 2 ^ 63 := by
  cases s with
  | nil => simp [parseInt]
  | cons c rest =>
      cases unsigned : parseUint (if c = 43 ∨ c = 45 then rest else c :: rest) with
      | mk un err =>
          simp only [parseInt, unsigned]
          split
          · simp
          · split
            · simp
            · split
              · simp
              · rename_i not_high not_low
                by_cases minus : c = 45
                · simp only [minus, if_true]
                  simp only [minus, true_and, not_lt] at not_low
                  omega
                · simp only [minus, if_false]
                  simp only [minus, not_false_eq_true, true_and, not_le] at not_high
                  omega

/-! ## `Atoi` -/

theorem atoiDigits_lt {n value : Nat} {digits : List UInt8} (found : atoiDigits n digits = some value) :
    value < (n + 1) * 10 ^ digits.length := by
  induction digits generalizing n with
  | nil =>
      simp only [atoiDigits, Option.some.injEq] at found
      simp [found]
  | cons c digits induction =>
      simp only [atoiDigits] at found
      split at found
      · simp at found
      · rename_i small
        have digit : (c - 48).toNat ≤ 9 := by
          rw [UInt8.lt_iff_toNat_lt, Nat.not_lt] at small
          exact small
        have bound := induction found
        calc value < (n * 10 + (c - 48).toNat + 1) * 10 ^ digits.length := bound
          _ ≤ (n + 1) * 10 * 10 ^ digits.length := Nat.mul_le_mul_right _ (by omega)
          _ = (n + 1) * 10 ^ (c :: digits).length := by
            rw [List.length_cons, Nat.pow_succ]
            ring

/-- Whatever the outcome, the value `Atoi` returns is an `int64`: the fast path reads at most 18
digits. -/
theorem atoi_bounds (s : List UInt8) : -2 ^ 63 ≤ (atoi s).1 ∧ (atoi s).1 < 2 ^ 63 := by
  unfold atoi
  split
  · rename_i short
    dsimp only
    generalize digits_def : (if s.head? = some 45 ∨ s.head? = some 43 then s.drop 1 else s) = digits
    have digits_short : digits.length ≤ 18 := by
      rw [← digits_def]
      split
      · simp only [List.length_drop]
        omega
      · omega
    split
    · simp
    · split
      · simp
      · rename_i n found
        have bound := atoiDigits_lt found
        have power : 10 ^ digits.length ≤ 10 ^ 18 := Nat.pow_le_pow_right (by decide) digits_short
        have small : n < 10 ^ 18 := by
          rw [Nat.zero_add, Nat.one_mul] at bound
          omega
        split <;> omega
  · exact parseInt_bounds s

end Strconv
