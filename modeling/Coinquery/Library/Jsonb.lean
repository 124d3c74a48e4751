import Mathlib.Data.List.Basic
import Mathlib.Data.List.Forall2

/-!
# `jsonb` values, their text, and the casts of `->>`

The part of PostgreSQL that a PL/pgSQL function taking a `jsonb` argument works with: the values,
the text `jsonb` writes for a value (`JsonbToCString`, with the string escapes of `escape_json`),
the operators `->` and `->>`, `jsonb_array_elements`, and the casts of a text to `integer` and
`bigint` (`int4in`, `int8in`).

Numbers are integers here. A number's text is its decimal digits after a `-` for a negative one,
which is what `numeric_out` writes for an integral `numeric`. Objects keep one value per key, as
`jsonb` does, and `->` looks a key up by name.

Texts are read as lists of characters. The two round trips the rest of a development needs are
`castInt_renderInt` (the cast of the text of a number gives the number back when it fits) and
`render_strings` (the text of an array of plain strings).
-/

namespace Jsonb

/-- A `jsonb` value. -/
inductive Json where
  | null
  | bool (b : Bool)
  | num (n : Int)
  | str (s : String)
  | arr (items : List Json)
  | obj (fields : List (String × Json))
  deriving Repr

/-! ## The text of a value -/

/-- The escape `escape_json` writes for a control character: its C escape, or `\u00XX`. -/
def controlEscape (code : Nat) : List Char :=
  match code with
  | 8 => ['\\', 'b']
  | 9 => ['\\', 't']
  | 10 => ['\\', 'n']
  | 12 => ['\\', 'f']
  | 13 => ['\\', 'r']
  | _ => ['\\', 'u', '0', '0', Nat.digitChar (code / 16), Nat.digitChar (code % 16)]

/-- What `escape_json` writes for one character of a string. -/
def escapeChar (c : Char) : List Char :=
  if c = '"' then ['\\', '"']
  else if c = '\\' then ['\\', '\\']
  else if c.toNat < 32 then controlEscape c.toNat
  else [c]

/-- A string between quotes, escaped. -/
def quote (s : String) : List Char :=
  '"' :: s.toList.flatMap escapeChar ++ ['"']

/-- The decimal text of an integer. -/
def renderInt (n : Int) : List Char :=
  if n < 0 then '-' :: Nat.toDigits 10 n.natAbs else Nat.toDigits 10 n.toNat

mutual

/-- The text `jsonb` writes for a value: items and fields are separated by `", "`, and a key is
followed by `": "`. -/
def render : Json → List Char
  | .null => "null".toList
  | .bool true => "true".toList
  | .bool false => "false".toList
  | .num n => renderInt n
  | .str s => quote s
  | .arr items => '[' :: renderItems items ++ [']']
  | .obj fields => '{' :: renderFields fields ++ ['}']

/-- The items of an array, separated. -/
def renderItems : List Json → List Char
  | [] => []
  | [item] => render item
  | item :: rest => render item ++ ", ".toList ++ renderItems rest

/-- One field of an object. -/
def renderField : String × Json → List Char
  | (key, value) => quote key ++ ": ".toList ++ render value

/-- The fields of an object, separated. -/
def renderFields : List (String × Json) → List Char
  | [] => []
  | [field] => renderField field
  | field :: rest => renderField field ++ ", ".toList ++ renderFields rest

end

/-! ## The operators -/

namespace Json

/-- `value -> key`: the value under `key` of an object, and SQL NULL for a missing key or a value
that is not an object. -/
def field (value : Json) (key : String) : Option Json :=
  match value with
  | .obj fields => fields.lookup key
  | _ => none

/-- The text `->>` returns for a value: a string without quotes or escapes, SQL NULL for JSON
null, and the text of anything else. -/
def text : Json → Option String
  | .null => none
  | .str s => some s
  | value => some (String.ofList (render value))

/-- `value ->> key`. -/
def fieldText (value : Json) (key : String) : Option String :=
  (value.field key).bind text

end Json

/-- The errors of the statements that read a `jsonb` argument, by the SQLSTATE they raise. -/
inductive SqlError
  /-- `22P02`: a text the cast cannot read. -/
  | invalidTextRepresentation (type : String) (text : String)
  /-- `22003`: a number outside the range of the type. -/
  | numericValueOutOfRange (type : String)
  /-- `23502`: NULL in a `NOT NULL` column. -/
  | notNullViolation (column : String)
  /-- `23505`: a second row with the key of a unique index. -/
  | uniqueViolation (index : String)
  /-- `22023`: `jsonb_array_elements` of a value that is not an array. -/
  | invalidParameterValue (message : String)
  /-- `RAISE EXCEPTION`. -/
  | raiseException (message : String)
  deriving DecidableEq, Repr

/-- The items of `jsonb_array_elements(value)`: none for SQL NULL, since the function is strict. -/
def arrayElements : Option Json → Except SqlError (List Json)
  | none => .ok []
  | some (.arr items) => .ok items
  | some (.obj _) => .error (.invalidParameterValue "cannot extract elements from an object")
  | some _ => .error (.invalidParameterValue "cannot extract elements from a scalar")

/-- A `NOT NULL` column takes a value and refuses SQL NULL. -/
def notNull {α : Type} (column : String) : Option α → Except SqlError α
  | none => .error (.notNullViolation column)
  | some value => .ok value

/-! ## Casts to the integer types -/

/-- The integer types a text is cast to. -/
inductive IntType
  | integer
  | bigint
  deriving DecidableEq, Repr

namespace IntType

/-- The name of the type in an error. -/
def name : IntType → String
  | .integer => "integer"
  | .bigint => "bigint"

/-- The type holds the number: `integer` has 32 bits and `bigint` 64. -/
def Fits (type : IntType) (n : Int) : Prop :=
  match type with
  | .integer => -2147483648 ≤ n ∧ n < 2147483648
  | .bigint => -9223372036854775808 ≤ n ∧ n < 9223372036854775808

instance (type : IntType) (n : Int) : Decidable (type.Fits n) :=
  match type with
  | .integer => inferInstanceAs (Decidable (_ ∧ _))
  | .bigint => inferInstanceAs (Decidable (_ ∧ _))

end IntType

/-- The value of a nonempty run of decimal digits. -/
def digitsValue (digits : List Char) : Option Nat :=
  if digits ≠ [] ∧ digits.all Char.isDigit = true then some (Nat.ofDigitChars 10 digits 0) else none

/-- A sign and decimal digits, the texts `int4in` and `int8in` read. The whitespace around a
number and the underscores between digits that they also allow are left out. -/
def parseInteger : List Char → Option Int
  | '-' :: digits => (digitsValue digits).map fun n : Nat => -(n : Int)
  | '+' :: digits => (digitsValue digits).map Int.ofNat
  | digits => (digitsValue digits).map Int.ofNat

/-- A number stored in a column of the type, or cast to it from a wider one. -/
def IntType.check (type : IntType) (n : Int) : Except SqlError Int :=
  if type.Fits n then .ok n else .error (.numericValueOutOfRange type.name)

/-- `text::integer` and `text::bigint`; SQL NULL stays NULL. -/
def castInt (type : IntType) : Option String → Except SqlError (Option Int)
  | none => .ok none
  | some text =>
      match parseInteger text.toList with
      | none => .error (.invalidTextRepresentation type.name text)
      | some n => some <$> type.check n

/-! ## Reading a chain of statements that succeeded -/

theorem bind_eq_ok {ε α β : Type} {x : Except ε α} {f : α → Except ε β} {r : β} :
    x >>= f = .ok r ↔ ∃ a, x = .ok a ∧ f a = .ok r := by
  cases x <;> simp [bind, Except.bind]

theorem pure_eq_ok {ε α : Type} {a b : α} : (pure a : Except ε α) = .ok b ↔ a = b := by
  simp [pure, Except.pure]

theorem map_eq_ok {ε α β : Type} {x : Except ε α} {f : α → β} {r : β} :
    f <$> x = .ok r ↔ ∃ a, x = .ok a ∧ f a = r := by
  cases x <;> simp [Functor.map, Except.map]

theorem mapError_eq_ok {ε ε' α : Type} {f : ε → ε'} {x : Except ε α} {r : α} :
    x.mapError f = .ok r ↔ x = .ok r := by
  cases x <;> simp [Except.mapError]

/-- A `mapM` succeeds when every item does, and returns their results in order. -/
theorem mapM_eq_ok_iff {ε α β : Type} {f : α → Except ε β} {xs : List α} {ys : List β} :
    xs.mapM f = .ok ys ↔ List.Forall₂ (fun x y => f x = .ok y) xs ys := by
  induction xs generalizing ys with
  | nil =>
      cases ys <;> simp [pure, Except.pure, List.forall₂_nil_left_iff]
  | cons x xs induction =>
      rw [List.mapM_cons]
      cases ys with
      | nil => simp [bind_eq_ok, map_eq_ok, List.forall₂_nil_right_iff]
      | cons y ys => simp [bind_eq_ok, map_eq_ok, List.forall₂_cons, ← induction]

theorem check_eq_ok {type : IntType} {n m : Int} : type.check n = .ok m ↔ type.Fits n ∧ n = m := by
  unfold IntType.check
  split <;> simp [*]

theorem notNull_eq_ok {α : Type} {column : String} {value : Option α} {a : α} :
    notNull column value = .ok a ↔ value = some a := by
  cases value <;> simp [notNull]

/-! ## The round trip of a number -/

theorem digitsValue_toDigits (n : Nat) : digitsValue (Nat.toDigits 10 n) = some n := by
  have digits : (Nat.toDigits 10 n).all Char.isDigit = true :=
    List.all_eq_true.mpr fun c member => Nat.isDigit_of_mem_toDigits (by decide) (by decide) member
  simp [digitsValue, Nat.toDigits_ne_nil, digits, Nat.ofDigitChars_ten_toDigits]

/-- The first character of the digits of a number is a digit, so no sign. -/
theorem toDigits_eq_cons {n : Nat} : ∃ c rest, Nat.toDigits 10 n = c :: rest ∧ c.isDigit = true := by
  obtain ⟨c, rest, split⟩ := List.exists_cons_of_ne_nil (@Nat.toDigits_ne_nil n 10)
  exact ⟨c, rest, split,
    Nat.isDigit_of_mem_toDigits (by decide) (by decide) (split ▸ List.mem_cons_self)⟩

theorem parseInteger_renderInt (n : Int) : parseInteger (renderInt n) = some n := by
  unfold renderInt
  split
  · rename_i negative
    simp only [parseInteger, digitsValue_toDigits, Option.map_some, Option.some.injEq]
    omega
  · rename_i nonnegative
    obtain ⟨c, rest, split, digit⟩ := @toDigits_eq_cons n.toNat
    -- a digit is neither sign, so the text falls to the last case
    have unsigned : c ≠ '-' ∧ c ≠ '+' := by
      constructor <;> rintro rfl <;> simp [Char.isDigit] at digit
    have read : parseInteger (c :: rest) = (digitsValue (c :: rest)).map Int.ofNat := by
      rw [parseInteger.eq_def]
      split
      · exact absurd (List.cons.inj ‹_›).1 unsigned.1
      · exact absurd (List.cons.inj ‹_›).1 unsigned.2
      · rfl
    rw [split, read, ← split, digitsValue_toDigits, Option.map_some, Int.ofNat_eq_natCast,
      Int.toNat_of_nonneg (Int.not_lt.mp nonnegative)]

/-- The cast of the text of a number gives the number when the type holds it, and a range error
otherwise. -/
theorem castInt_renderInt (type : IntType) (n : Int) :
    castInt type (some (String.ofList (renderInt n))) = some <$> type.check n := by
  simp only [castInt, String.toList_ofList, parseInteger_renderInt]

@[simp]
theorem text_num (n : Int) : (Json.num n).text = some (String.ofList (renderInt n)) :=
  rfl

@[simp]
theorem text_str (s : String) : (Json.str s).text = some s := rfl

@[simp]
theorem text_null : Json.null.text = none := rfl

/-! ## The text of an array of strings -/

/-- A character `escape_json` writes as it is. -/
def Plain (c : Char) : Prop :=
  c ≠ '"' ∧ c ≠ '\\' ∧ 32 ≤ c.toNat

theorem escapeChar_of_plain {c : Char} (plain : Plain c) : escapeChar c = [c] := by
  obtain ⟨not_quote, not_backslash, printable⟩ := plain
  simp [escapeChar, not_quote, not_backslash, Nat.not_lt.mpr printable]

theorem quote_of_plain {s : String} (plain : ∀ c ∈ s.toList, Plain c) :
    quote s = '"' :: s.toList ++ ['"'] := by
  have written : s.toList.flatMap escapeChar = s.toList := by
    conv_rhs => rw [← List.flatMap_singleton' s.toList]
    exact List.flatMap_congr fun c member => escapeChar_of_plain (plain c member)
  rw [quote, written]

theorem renderItems_eq (items : List Json) :
    renderItems items = ", ".toList.intercalate (items.map render) := by
  induction items with
  | nil => rfl
  | cons item rest induction =>
      cases rest with
      | nil =>
          show render item = _
          simp
      | cons next rest =>
          rw [show renderItems (item :: next :: rest) =
              render item ++ ", ".toList ++ renderItems (next :: rest) from rfl,
            induction]
          simp only [List.map_cons, List.intercalate_cons_cons, List.append_assoc]

/-- The text of an array of strings that need no escape: each between quotes, separated by
`", "`, between brackets. -/
theorem render_strings {items : List String} (plain : ∀ s ∈ items, ∀ c ∈ s.toList, Plain c) :
    render (.arr (items.map .str)) =
      '[' :: ", ".toList.intercalate (items.map fun s => '"' :: s.toList ++ ['"']) ++ [']'] := by
  have quoted : (items.map Json.str).map render = items.map fun s => '"' :: s.toList ++ ['"'] := by
    rw [List.map_map]
    exact List.map_congr_left fun s member => quote_of_plain (plain s member)
  show '[' :: renderItems (items.map Json.str) ++ [']'] = _
  rw [renderItems_eq, quoted]

end Jsonb
