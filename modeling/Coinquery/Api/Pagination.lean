import Coinquery.Library.Strconv

/-!
# Insight pagination

`TraditionalPagintion(from, to, defaultLimit, maxLimit)` of `pkg/api/helpers.go`, which turns the
`from` and `to` query parameters of `/{coin}/{addrs}/txs` into the `LIMIT` and `OFFSET` clauses of
the transaction query. Both parameters go through `strconv.Atoi` with the error dropped, so an
unparsable parameter counts as `0`. Go's `int` is 64 bits wide and its sums wrap.

`traditionalPagintion_window`: when both parameters read as non-negative numbers, every accepted
request gets a window of 1 to 50 rows at the offset `FromPage`, and `ToPage - FromPage` is its
size. Negative parameters are not checked, and a `to` of `-3` alone gives `LIMIT -3`.
-/

namespace Coinquery
namespace Api

open Strconv

/-- Arithmetic on Go's 64-bit `int`. -/
def goInt (x : Int) : Int :=
  x.bmod (2 ^ 64)

/-- `Pagination`: the clauses spliced into the query and the page numbers reported back. -/
structure Pagination where
  limitClause : String
  offsetClause : String
  fromPage : Int
  toPage : Int
  deriving DecidableEq, Repr

def rangeErr (fromPage toPage max : Int) : String :=
  s!"\x27from\x27 ({fromPage}) and \x27to\x27 ({toPage}) range should be less than or equal to {max}"

def negativeErr (fromPage toPage : Int) : String :=
  s!"Unexpected state: \x27from\x27 ({fromPage}) is expected to be less than \x27to\x27 ({toPage})"

/-- `TraditionalPagintion(from, to, defaultLimit, maxLimit)`; the empty string is Go's `""`. -/
def traditionalPagintion (fromArg toArg : List UInt8) (defaultLimit maxLimit : Int) :
    Except String Pagination :=
  let fromPage := (atoi fromArg).1
  let toPage := if (atoi toArg).2.isSome then goInt (fromPage + defaultLimit) else (atoi toArg).1
  if fromArg ≠ [] ∧ toArg ≠ [] then
    let diff := goInt (toPage - fromPage)
    if diff > maxLimit then .error (rangeErr fromPage toPage maxLimit)
    else if toPage = 0 ∧ fromPage = 0 then
      .ok ⟨s!"LIMIT {defaultLimit}", s!"OFFSET {(0 : Int)}", 0, defaultLimit⟩
    else if diff ≤ 0 then .error (negativeErr fromPage toPage)
    else .ok ⟨s!"LIMIT {diff}", s!"OFFSET {fromPage}", fromPage, toPage⟩
  else if fromArg ≠ [] then
    .ok ⟨s!"LIMIT {defaultLimit}", s!"OFFSET {fromPage}", fromPage, goInt (fromPage + defaultLimit)⟩
  else if toArg ≠ [] then
    let diff := goInt (toPage - fromPage)
    if diff > maxLimit then .error (rangeErr fromPage toPage maxLimit)
    else
      let toPage := if toPage = 0 then defaultLimit else toPage
      .ok ⟨s!"LIMIT {toPage}", "", fromPage, toPage⟩
  else .ok ⟨s!"LIMIT {defaultLimit}", "", fromPage, toPage⟩

/-! ## The window of an accepted request -/

theorem goInt_of_bounds {x : Int} (lower : -2 ^ 63 ≤ x) (upper : x < 2 ^ 63) : goInt x = x :=
  Int.bmod_eq_of_le (by push_cast; omega) (by push_cast; omega)

/-- The clauses of a window of `limit` rows, the page numbers `limit` apart, at the offset
`FromPage`: an `OFFSET` clause of it, or none when it is `0`. -/
def IsWindow (p : Pagination) : Prop :=
  ∃ limit, p.limitClause = s!"LIMIT {limit}" ∧ 1 ≤ limit ∧ limit ≤ 50 ∧
    p.toPage - p.fromPage = limit ∧ 0 ≤ p.fromPage ∧
    (p.offsetClause = "" ∧ p.fromPage = 0 ∨ p.offsetClause = s!"OFFSET {p.fromPage}")

/-- With the handler's limits, a request whose parameters read as non-negative numbers (`from`
below `2 ^ 63 - 10`, so that `from + 10` does not wrap) is accepted only with a window of 1 to 50
rows at the offset `FromPage`. -/
theorem traditionalPagintion_window {fromArg toArg : List UInt8} {p : Pagination}
    (accepted : traditionalPagintion fromArg toArg 10 50 = .ok p)
    (from_nonneg : 0 ≤ (atoi fromArg).1) (from_small : (atoi fromArg).1 + 10 < 2 ^ 63)
    (to_nonneg : 0 ≤ (atoi toArg).1) : IsWindow p := by
  have to_bounds := atoi_bounds toArg
  -- no sum or difference below wraps
  have next_page : goInt ((atoi fromArg).1 + 10) = (atoi fromArg).1 + 10 :=
    goInt_of_bounds (by omega) from_small
  set fromPage := (atoi fromArg).1 with fromPage_def
  set toPage := if (atoi toArg).2.isSome then goInt (fromPage + 10) else (atoi toArg).1
    with toPage_def
  have to_range : 0 ≤ toPage ∧ toPage < 2 ^ 63 := by
    rw [toPage_def]
    split <;> omega
  have diff_eq : goInt (toPage - fromPage) = toPage - fromPage :=
    goInt_of_bounds (by omega) (by omega)
  unfold traditionalPagintion at accepted
  simp only [← fromPage_def, ← toPage_def] at accepted
  split at accepted
  · -- both parameters given
    rw [diff_eq] at accepted
    split at accepted
    · simp at accepted
    · split at accepted
      · cases accepted
        exact ⟨10, rfl, by decide, by decide, by simp, le_refl 0, .inr rfl⟩
      · split at accepted
        · simp at accepted
        · cases accepted
          exact ⟨toPage - fromPage, rfl, by omega, by omega, rfl, from_nonneg, .inr rfl⟩
  · split at accepted
    · -- only `from`
      cases accepted
      refine ⟨10, rfl, by decide, by decide, ?_, from_nonneg, .inr rfl⟩
      simp only [next_page]
      omega
    · split at accepted
      · -- only `to`; `from` is the empty string, which reads as `0`
        rename_i _ no_from _
        have from_empty : fromArg = [] := by
          by_contra nonempty
          exact no_from nonempty
        have from_zero : fromPage = 0 := by
          rw [fromPage_def, from_empty]
          rfl
        rw [diff_eq] at accepted
        split at accepted
        · simp at accepted
        · rename_i within
          cases accepted
          split
          · exact ⟨10, rfl, by decide, by decide, by simp [from_zero], from_zero.ge, .inl ⟨rfl, from_zero⟩⟩
          · rename_i nonzero
            exact ⟨toPage, rfl, by omega, by omega, by simp [from_zero], from_zero.ge,
              .inl ⟨rfl, from_zero⟩⟩
      · -- neither; `from` reads as `0` and `to` as `from + 10`
        rename_i no_both no_from no_to
        have from_empty : fromArg = [] := by
          by_contra nonempty
          exact no_from nonempty
        have to_empty : toArg = [] := by
          by_contra nonempty
          exact no_to nonempty
        have from_zero : fromPage = 0 := by
          rw [fromPage_def, from_empty]
          rfl
        have to_ten : toPage = 10 := by
          rw [toPage_def, to_empty, from_zero]
          rfl
        cases accepted
        exact ⟨10, rfl, by decide, by decide, by simp [from_zero, to_ten], from_zero.ge,
          .inl ⟨rfl, from_zero⟩⟩

/-- A `to` of `-3` alone is accepted, with a negative `LIMIT`. -/
theorem negative_to_gives_negative_limit :
    traditionalPagintion [] ("-3".toList.map Char.toUInt8) 10 50 = .ok ⟨"LIMIT -3", "", 0, -3⟩ := by
  decide

end Api
end Coinquery
