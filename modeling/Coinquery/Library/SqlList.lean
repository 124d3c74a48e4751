import Mathlib.Data.List.Dedup
import Mathlib.Data.List.Sort

/-!
# Result lists of a `SELECT`

What a query does to the rows it has selected, on lists: `UNION` drops duplicate rows,
`ORDER BY key DESC` sorts, and `OFFSET` and `LIMIT` cut a window, with PostgreSQL's errors for a
negative count. The order of a `UNION` is unspecified and so is the order among rows with one sort
key; under distinct keys the sorted result is the one descending list of the rows
(`orderByDesc_eq_of_pairwise`). `COUNT(*)` of a `UNION` of a projection counts the rows themselves
when the projection tells apart the rows that reach it (`length_dedup_map`).
-/

namespace SqlList

variable {α β : Type}

/-- `first UNION second`: the rows of both, each once. -/
def union [DecidableEq α] (first second : List α) : List α :=
  (first ++ second).dedup

/-- `ORDER BY key DESC`. -/
def orderByDesc (key : α → Int) (rows : List α) : List α :=
  rows.mergeSort fun row other => key other ≤ key row

/-- The errors of a negative `OFFSET` or `LIMIT`. -/
inductive RowCountError
  /-- `invalid_row_count_in_result_offset_clause`: "OFFSET must not be negative". -/
  | negativeOffset
  /-- `invalid_row_count_in_limit_clause`: "LIMIT must not be negative". -/
  | negativeLimit
  deriving DecidableEq, Repr

/-- `LIMIT limit OFFSET offset`, an absent clause being `none`. The executor checks the offset
first. -/
def limitOffset (limit offset : Option Int) (rows : List α) : Except RowCountError (List α) :=
  if (offset.getD 0) < 0 then .error .negativeOffset
  else
    match limit with
    | some count =>
        if count < 0 then .error .negativeLimit else .ok ((rows.drop (offset.getD 0).toNat).take count.toNat)
    | none => .ok (rows.drop (offset.getD 0).toNat)

theorem mem_union [DecidableEq α] {first second : List α} {row : α} :
    row ∈ union first second ↔ row ∈ first ∨ row ∈ second := by
  simp [union]

theorem mem_union_map [DecidableEq β] {f : α → β} {first second : List α} {row : β} :
    row ∈ union (first.map f) (second.map f) ↔ ∃ x, (x ∈ first ∨ x ∈ second) ∧ f x = row := by
  rw [mem_union, ← List.mem_append, ← List.map_append, List.mem_map]
  simp only [List.mem_append]

theorem nodup_union [DecidableEq α] (first second : List α) : (union first second).Nodup :=
  List.nodup_dedup _

/-- A projection that tells apart the rows reaching it keeps the number of distinct rows. -/
theorem length_dedup_map [DecidableEq α] [DecidableEq β] {f : α → β} {rows : List α}
    (injective : ∀ row ∈ rows, ∀ other ∈ rows, f row = f other → row = other) :
    (rows.map f).dedup.length = rows.dedup.length := by
  induction rows with
  | nil => rfl
  | cons row rest induction =>
      have rest_injective : ∀ x ∈ rest, ∀ y ∈ rest, f x = f y → x = y := fun x mx y my same =>
        injective x (List.mem_cons_of_mem row mx) y (List.mem_cons_of_mem row my) same
      by_cases repeated : row ∈ rest
      · rw [List.map_cons, List.dedup_cons_of_mem (List.mem_map_of_mem repeated),
          List.dedup_cons_of_mem repeated, induction rest_injective]
      · have image_fresh : f row ∉ rest.map f := by
          intro image
          obtain ⟨other, member, same⟩ := List.mem_map.mp image
          rw [injective other (List.mem_cons_of_mem row member) row List.mem_cons_self same] at member
          exact repeated member
        rw [List.map_cons, List.dedup_cons_of_notMem image_fresh, List.dedup_cons_of_notMem repeated,
          List.length_cons, List.length_cons, induction rest_injective]

theorem orderByDesc_perm (key : α → Int) (rows : List α) : (orderByDesc key rows).Perm rows :=
  List.mergeSort_perm _ _

theorem pairwise_orderByDesc (key : α → Int) (rows : List α) :
    (orderByDesc key rows).Pairwise fun row other => key other ≤ key row := by
  have sorted : (rows.mergeSort fun row other => decide (key other ≤ key row)).Pairwise
      fun row other => decide (key other ≤ key row) = true :=
    List.pairwise_mergeSort (fun _ _ _ first second => by simp only [decide_eq_true_eq] at *; omega)
      (fun row other => by simp only [Bool.or_eq_true, decide_eq_true_eq]; omega) rows
  simpa only [orderByDesc, decide_eq_true_eq] using sorted

/-- Under distinct keys the sorted result is the one list of the rows with descending keys. -/
theorem orderByDesc_eq_of_pairwise {key : α → Int} {rows sorted : List α}
    (distinct : (rows.map key).Nodup) (perm : sorted.Perm rows)
    (descending : sorted.Pairwise fun row other => key other ≤ key row) :
    orderByDesc key rows = sorted := by
  refine List.Perm.eq_of_pairwise ?_ (pairwise_orderByDesc key rows) descending
    ((orderByDesc_perm key rows).trans perm.symm)
  intro row other row_member other_member below above
  have row_stored := (orderByDesc_perm key rows).subset row_member
  have other_stored := perm.subset other_member
  exact (List.inj_on_of_nodup_map distinct) row_stored other_stored (by omega)

/-- A projection of the rows commutes with the window. -/
theorem limitOffset_map (f : α → β) (limit offset : Option Int) (rows : List α) :
    limitOffset limit offset (rows.map f) = List.map f <$> limitOffset limit offset rows := by
  unfold limitOffset
  split
  · rfl
  · cases limit with
    | none => simp [List.map_drop]
    | some count =>
        dsimp only
        split
        · rfl
        · simp [List.map_drop, List.map_take]

/-- `COUNT(*)` of a `UNION` is the number of rows of any list without duplicates holding the
rows of both branches. -/
theorem length_union [DecidableEq α] {first second rows : List α} (distinct : rows.Nodup)
    (same : ∀ row, row ∈ first ∨ row ∈ second ↔ row ∈ rows) :
    (union first second).length = rows.length := by
  refine ((List.perm_ext_iff_of_nodup (nodup_union first second) distinct).mpr fun row => ?_).length_eq
  rw [mem_union, same]

theorem limitOffset_eq_ok {limit offset : Option Int} {rows result : List α}
    (cut : limitOffset limit offset rows = .ok result) :
    0 ≤ offset.getD 0 ∧ (∀ count, limit = some count → 0 ≤ count) ∧
      result = ((rows.drop (offset.getD 0).toNat).take ((limit.map Int.toNat).getD rows.length)) := by
  unfold limitOffset at cut
  split at cut
  · cases cut
  · rename_i offset_nonneg
    cases limit with
    | none =>
        cases cut
        refine ⟨by omega, (fun _ absent => by cases absent), ?_⟩
        exact (List.take_of_length_le (by simp)).symm
    | some count =>
        dsimp only at cut
        split at cut
        · cases cut
        · cases cut
          exact ⟨by omega, (fun _ same => by cases same; omega), rfl⟩

end SqlList
