import Mathlib.Data.List.Perm.Basic

/-!
# A pool of worker slots

A fixed number of workers, each idle (`none`) or holding the item it took (`some item`). A worker
takes an item into its idle slot and later finishes it, which empties the slot. `held` lists the
items in hand: a take adds one, a finish removes one, up to the order of the list. A pool with at
least one slot can always move: some worker holds an item, or the first worker is idle.
-/

namespace Slots

variable {α : Type*}

/-- The items the workers hold, in slot order. -/
def held (slots : List (Option α)) : List α :=
  slots.filterMap id

@[simp] theorem held_nil : held ([] : List (Option α)) = [] :=
  rfl

@[simp] theorem held_cons_none (slots : List (Option α)) : held (none :: slots) = held slots :=
  rfl

@[simp] theorem held_cons_some (item : α) (slots : List (Option α)) :
    held (some item :: slots) = item :: held slots :=
  rfl

theorem mem_held {slots : List (Option α)} {item : α} : item ∈ held slots ↔ some item ∈ slots := by
  simp [held]

/-- What a worker holds after one slot is overwritten was held before or is the new slot's item. -/
theorem mem_held_set {slots : List (Option α)} {worker : Nat} {slot : Option α} {item : α}
    (member : item ∈ held (slots.set worker slot)) : item ∈ held slots ∨ slot = some item := by
  obtain ⟨kept, kept_member, rfl⟩ := List.mem_filterMap.mp member
  rcases List.mem_or_eq_of_mem_set kept_member with old | rfl
  · exact .inl (List.mem_filterMap.mpr ⟨_, old, rfl⟩)
  · exact .inr rfl

/-- A worker takes `item` into its idle slot. -/
theorem held_set_some {slots : List (Option α)} {worker : Nat} {item : α}
    (idle : slots[worker]? = some none) :
    (held (slots.set worker (some item))).Perm (item :: held slots) := by
  induction slots generalizing worker with
  | nil => simp at idle
  | cons slot slots ih =>
      cases worker with
      | zero =>
          obtain rfl : slot = none := by simpa using idle
          simp
      | succ worker =>
          have later := ih (by simpa using idle)
          cases slot with
          | none => simpa using later
          | some other => simpa using (later.cons other).trans (List.Perm.swap item other _)

/-- A worker finishes the item it holds. -/
theorem held_set_none {slots : List (Option α)} {worker : Nat} {item : α}
    (busy : slots[worker]? = some (some item)) :
    (held slots).Perm (item :: held (slots.set worker none)) := by
  induction slots generalizing worker with
  | nil => simp at busy
  | cons slot slots ih =>
      cases worker with
      | zero =>
          obtain rfl : slot = some item := by simpa using busy
          simp
      | succ worker =>
          have later := ih (by simpa using busy)
          cases slot with
          | none => simpa using later
          | some other => simpa using (later.cons other).trans (List.Perm.swap item other _)

theorem held_eq_nil {slots : List (Option α)} : held slots = [] ↔ ∀ slot ∈ slots, slot = none := by
  simp only [held, List.filterMap_eq_nil_iff, id_eq]

/-- Progress: a worker holds an item, or every worker is idle and the first can take one. -/
theorem busy_or_idle {slots : List (Option α)} (nonempty : 0 < slots.length) :
    (∃ (worker : Nat) (item : α), slots[worker]? = some (some item)) ∨
      ((∀ slot ∈ slots, slot = none) ∧ slots[0]? = some none) := by
  cases hheld : held slots with
  | nil =>
      obtain ⟨first, rest, rfl⟩ := List.exists_cons_of_length_pos nonempty
      have idle := held_eq_nil.mp hheld
      exact .inr ⟨idle, by simp [idle first List.mem_cons_self]⟩
  | cons item _ =>
      have member : some item ∈ slots := mem_held.mp (by simp [hheld])
      obtain ⟨worker, found⟩ := List.mem_iff_getElem?.mp member
      exact .inl ⟨worker, item, found⟩

end Slots
