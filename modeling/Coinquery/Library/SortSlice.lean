import Mathlib.Data.List.Sort

/-!
# Go's `sort.Slice`

`sort.Slice(rows, less)` sorts in place and is not stable: of two elements that `less` does not
order it leaves open which comes first. A model takes the sort as a parameter, as `Pick` does for
the row a query keeps: a `Sorter` returns a permutation of its input with ascending keys. Every
comparison of the programs modelled here is `key(rows[i]) < key(rows[j])` on integers, and a
descending sort is one by the negated key.

On rows whose keys are distinct all such lists are one (`eq_of_pairwise_le`), so every sorter
sorts every permutation of the rows to the same list (`sortBy_eq_of_perm`).
-/

namespace SortSlice

/-- `sort.Slice(rows, func(i, j int) bool { return key(rows[i]) < key(rows[j]) })`. -/
structure Sorter where
  sortBy : {α : Type} → (α → Int) → List α → List α
  perm : ∀ {α : Type} (key : α → Int) (rows : List α), (sortBy key rows).Perm rows
  sorted : ∀ {α : Type} (key : α → Int) (rows : List α),
    (sortBy key rows).Pairwise fun row other => key row ≤ key other

/-- The merge sort of the core library: a stable sorter. -/
def merge : Sorter where
  sortBy key rows := rows.mergeSort fun row other => decide (key row ≤ key other)
  perm key rows := List.mergeSort_perm _ _
  sorted key rows := by
    have sorted : (rows.mergeSort fun row other => decide (key row ≤ key other)).Pairwise
        fun row other => decide (key row ≤ key other) = true :=
      List.pairwise_mergeSort (fun _ _ _ first second => by simp only [decide_eq_true_eq] at *; omega)
        (fun row other => by simp only [Bool.or_eq_true, decide_eq_true_eq]; omega) rows
    simpa only [decide_eq_true_eq] using sorted

/-- Insertion sort, stable too: the sort Go's `sort.Slice` runs on short slices, and one that
reduces by structural recursion. -/
def insertion : Sorter where
  sortBy key rows := rows.insertionSort fun row other => key row ≤ key other
  perm key rows := List.perm_insertionSort _ _
  sorted key rows := by
    have : Std.Total fun row other : _ => key row ≤ key other := ⟨fun row other => le_total _ _⟩
    have : IsTrans _ fun row other => key row ≤ key other := ⟨fun _ _ _ => le_trans⟩
    exact List.pairwise_insertionSort _ rows

variable {α : Type} {key : α → Int}

/-- Two permutations of rows with distinct keys, both with ascending keys, are one list. -/
theorem eq_of_pairwise_le {rows first second : List α} (distinct : (rows.map key).Nodup)
    (first_perm : first.Perm rows) (second_perm : second.Perm rows)
    (first_sorted : first.Pairwise fun row other => key row ≤ key other)
    (second_sorted : second.Pairwise fun row other => key row ≤ key other) : first = second := by
  refine List.Perm.eq_of_pairwise ?_ first_sorted second_sorted (first_perm.trans second_perm.symm)
  intro row other row_member other_member below above
  exact (List.inj_on_of_nodup_map distinct) (first_perm.subset row_member)
    (second_perm.subset other_member) (by omega)

/-- Every sorter sorts every permutation of rows with distinct keys to the same list. -/
theorem sortBy_eq_of_perm (sorter other : Sorter) {rows permuted : List α}
    (distinct : (rows.map key).Nodup) (perm : permuted.Perm rows) :
    sorter.sortBy key permuted = other.sortBy key rows :=
  eq_of_pairwise_le distinct ((sorter.perm key permuted).trans perm) (other.perm key rows)
    (sorter.sorted key permuted) (other.sorted key rows)

end SortSlice
