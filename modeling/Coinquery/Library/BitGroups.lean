import Mathlib.Data.Nat.Bitwise

/-!
# Words as groups of bits

`bitsOf n x` is the list of the `n` low bits of `x`, the most significant first. A string of
`n`-bit words is the concatenation of their groups, so a conversion between word sizes that keeps
that concatenation keeps the data. The lemmas split a group at a bit position (`bitsOf_add`),
read a group through a mask or a shift, and recover words from their groups (`bitsOf_inj`,
`flatMap_bitsOf_inj`).
-/

namespace BitGroups

/-- The `n` low bits of `x`, the most significant first. -/
def bitsOf : Nat → Nat → List Bool
  | 0, _ => []
  | n + 1, x => x.testBit n :: bitsOf n x

@[simp]
theorem bitsOf_zero (x : Nat) : bitsOf 0 x = [] :=
  rfl

theorem bitsOf_succ (n x : Nat) : bitsOf (n + 1) x = x.testBit n :: bitsOf n x :=
  rfl

@[simp]
theorem length_bitsOf (n x : Nat) : (bitsOf n x).length = n := by
  induction n with
  | zero => rfl
  | succ n induction => simp [bitsOf_succ, induction]

/-- A group only reads the bits below its width. -/
theorem bitsOf_congr {n x y : Nat} (same : ∀ i < n, x.testBit i = y.testBit i) :
    bitsOf n x = bitsOf n y := by
  induction n with
  | zero => rfl
  | succ n induction =>
      rw [bitsOf_succ, bitsOf_succ, same n (Nat.lt_succ_self n),
        induction fun i below => same i (Nat.lt_succ_of_lt below)]

theorem testBit_eq_of_bitsOf_eq {n x y : Nat} (same : bitsOf n x = bitsOf n y) :
    ∀ i < n, x.testBit i = y.testBit i := by
  induction n with
  | zero => intro i below; omega
  | succ n induction =>
      rw [bitsOf_succ, bitsOf_succ, List.cons.injEq] at same
      intro i below
      rcases Nat.lt_succ_iff_lt_or_eq.mp below with lower | rfl
      · exact induction same.2 i lower
      · exact same.1

/-- Words below `2 ^ n` are determined by their group of `n` bits. -/
theorem bitsOf_inj {n x y : Nat} (x_lt : x < 2 ^ n) (y_lt : y < 2 ^ n)
    (same : bitsOf n x = bitsOf n y) : x = y := by
  apply Nat.eq_of_testBit_eq
  intro i
  by_cases below : i < n
  · exact testBit_eq_of_bitsOf_eq same i below
  · have x_lt' : x < 2 ^ i := Nat.lt_of_lt_of_le x_lt (Nat.pow_le_pow_right (by decide) (by omega))
    have y_lt' : y < 2 ^ i := Nat.lt_of_lt_of_le y_lt (Nat.pow_le_pow_right (by decide) (by omega))
    rw [Nat.testBit_lt_two_pow x_lt', Nat.testBit_lt_two_pow y_lt']

/-- A group of `m + n` bits is the group of `m` bits above the low `n`, then the low `n`. -/
theorem bitsOf_add (m n x : Nat) : bitsOf (m + n) x = bitsOf m (x >>> n) ++ bitsOf n x := by
  induction m with
  | zero => simp
  | succ m induction =>
      rw [Nat.add_right_comm, bitsOf_succ, induction, bitsOf_succ, Nat.testBit_shiftRight,
        Nat.add_comm n m, List.cons_append]

/-- Masking with `2 ^ k - 1` keeps a group no wider than `k`. -/
theorem bitsOf_and_mask {n k : Nat} (le : n ≤ k) (x : Nat) : bitsOf n (x &&& (2 ^ k - 1)) = bitsOf n x :=
  bitsOf_congr fun i below => by
    rw [Nat.testBit_and, Nat.testBit_two_pow_sub_one]
    simp [Nat.lt_of_lt_of_le below le]

theorem bitsOf_zero_word (n : Nat) : bitsOf n 0 = List.replicate n false := by
  induction n with
  | zero => rfl
  | succ n induction => simp [bitsOf_succ, List.replicate_succ, induction]

/-- Shifting up by `k` puts `k` zeros below the group. -/
theorem bitsOf_shiftLeft (n k x : Nat) :
    bitsOf (n + k) (x <<< k) = bitsOf n x ++ List.replicate k false := by
  have low : bitsOf k (x <<< k) = bitsOf k 0 := bitsOf_congr fun i below => by
    simp [Nat.testBit_shiftLeft, Nat.not_le_of_lt below]
  rw [bitsOf_add, Nat.shiftLeft_shiftRight, low, bitsOf_zero_word]

/-- A group of zeros is a word whose low bits are zero. -/
theorem bitsOf_eq_replicate_false {n x : Nat} (zeros : bitsOf n x = List.replicate n false) :
    x % 2 ^ n = 0 := by
  apply Nat.eq_of_testBit_eq
  intro i
  rw [Nat.testBit_mod_two_pow, Nat.zero_testBit]
  by_cases below : i < n
  · have read := testBit_eq_of_bitsOf_eq (zeros.trans (bitsOf_zero_word n).symm) i below
    simp [below, read]
  · simp [below]

/-- A string of words of one nonzero width, each below `2 ^ n`, is determined by its bits. -/
theorem flatMap_bitsOf_inj {n : Nat} (positive : 0 < n) {xs ys : List Nat}
    (xs_small : ∀ x ∈ xs, x < 2 ^ n) (ys_small : ∀ y ∈ ys, y < 2 ^ n)
    (same : xs.flatMap (bitsOf n) = ys.flatMap (bitsOf n)) : xs = ys := by
  induction xs generalizing ys with
  | nil =>
      cases ys with
      | nil => rfl
      | cons y ys =>
          have lengths := congrArg List.length same
          simp at lengths
          omega
  | cons x xs induction =>
      cases ys with
      | nil =>
          have lengths := congrArg List.length same
          simp at lengths
          omega
      | cons y ys =>
          rw [List.flatMap_cons, List.flatMap_cons] at same
          obtain ⟨heads, tails⟩ := List.append_inj same (by simp)
          rw [bitsOf_inj (xs_small x List.mem_cons_self) (ys_small y List.mem_cons_self) heads,
            induction (fun z member => xs_small z (List.mem_cons_of_mem x member))
              (fun z member => ys_small z (List.mem_cons_of_mem y member)) tails]

end BitGroups
