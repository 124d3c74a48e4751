import Mathlib.Data.List.Basic

/-!
# Single-row `SELECT … INTO`

PL/pgSQL's `SELECT … INTO target` and `… RETURNING … INTO target`, without `STRICT`, assign the
first row the statement yields, or NULL when it yields none. Without `ORDER BY` PostgreSQL leaves
open which row comes first, so a model of such a statement takes the choice as a parameter: a
`Pick` returns one of the rows it is given, and some row whenever there is one.
-/

namespace SelectInto

/-- Which of the yielded rows a single-row `INTO` keeps. -/
structure Pick (α : Type*) where
  /-- The row assigned, given the rows the statement yields in table order. -/
  choose : List α → Option α
  /-- The assigned row is one of the yielded rows. -/
  choose_mem : ∀ {rows : List α} {row : α}, choose rows = some row → row ∈ rows
  /-- Some row is assigned whenever the statement yields one. -/
  choose_isSome : ∀ {rows : List α}, rows ≠ [] → (choose rows).isSome

namespace Pick

variable {α : Type*} (pick : Pick α)

/-- Keep the first yielded row, as a sequential scan in table order does. -/
def first : Pick α where
  choose := List.head?
  choose_mem := fun {rows row} chosen => List.mem_of_head? chosen
  choose_isSome := fun {rows} nonempty => by
    cases rows with
    | nil => exact absurd rfl nonempty
    | cons head tail => rfl

@[simp]
theorem first_choose (rows : List α) : (first : Pick α).choose rows = rows.head? := rfl

@[simp]
theorem choose_nil : pick.choose [] = none := by
  cases chosen : pick.choose [] with
  | none => rfl
  | some row => exact absurd (pick.choose_mem chosen) List.not_mem_nil

@[simp]
theorem choose_singleton (row : α) : pick.choose [row] = some row := by
  obtain ⟨chosen, hchosen⟩ :=
    Option.isSome_iff_exists.mp (pick.choose_isSome (List.cons_ne_nil row []))
  rw [hchosen, List.mem_singleton.mp (pick.choose_mem hchosen)]

theorem choose_eq_none_iff {rows : List α} : pick.choose rows = none ↔ rows = [] := by
  constructor
  · intro none_chosen
    by_contra nonempty
    simpa [none_chosen] using pick.choose_isSome nonempty
  · rintro rfl
    exact pick.choose_nil

end Pick

end SelectInto
