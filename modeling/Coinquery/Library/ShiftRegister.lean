import Mathlib.Data.Nat.Bitwise
import Mathlib.Tactic.Ring

/-!
# Shift registers with feedback over `Nat`

A register of `n + 1` symbols of `w` bits each. A step drops the top symbol, shifts the rest up
by one symbol, brings the next input symbol in at the low end and XORs in a feedback word that
depends only on the dropped symbol. This is the shape of every polynomial-remainder checksum
computed one symbol at a time.

The main result, `foldl_step_append_digits`, is the linearity that makes such checksums work:
feeding up to `n + 1` symbols in behaves as feeding zeros and then XORing in the symbols packed
into one word. In particular, appending the digits of a word `m` XORs exactly `m` into the
register.
-/

namespace ShiftRegister

/-- Shift the word `acc` up by one symbol of `w` bits and bring `d` in at the low end. -/
def push (w acc d : Nat) : Nat :=
  acc <<< w ^^^ d

/-- The symbols `ds` packed into one word, the first one highest. -/
def pack (w : Nat) (ds : List Nat) : Nat :=
  ds.foldl (push w) 0

/-- The `k` low symbols of `m`, the highest first. -/
def digits (w k m : Nat) : List Nat :=
  (List.range k).map fun i => m >>> (w * (k - 1 - i)) % 2 ^ w

/-- One step of a register of `n + 1` symbols of `w` bits with feedback `feedback`. -/
def step (w n : Nat) (feedback : Nat → Nat) (c d : Nat) : Nat :=
  push w (c % 2 ^ (w * n)) d ^^^ feedback (c >>> (w * n))

theorem push_eq_add {w acc d : Nat} (small : d < 2 ^ w) : push w acc d = acc * 2 ^ w + d := by
  apply Nat.eq_of_testBit_eq
  intro bit
  rw [push, Nat.testBit_xor, Nat.shiftLeft_eq, Nat.mul_comm acc,
    Nat.testBit_two_pow_mul_add acc small, Nat.testBit_two_pow_mul]
  by_cases low : bit < w
  · simp [low, Nat.not_le_of_lt low]
  · have beyond : d < 2 ^ bit :=
      Nat.lt_of_lt_of_le small (Nat.pow_le_pow_right Nat.zero_lt_two (Nat.le_of_not_lt low))
    simp [low, Nat.le_of_not_lt low, Nat.testBit_lt_two_pow beyond]

theorem push_lt {w acc d m : Nat} (acc_lt : acc < 2 ^ (w * m)) (small : d < 2 ^ w) :
    push w acc d < 2 ^ (w * (m + 1)) := by
  rw [push_eq_add small]
  calc acc * 2 ^ w + d < (acc + 1) * 2 ^ w := by rw [Nat.succ_mul]; omega
    _ ≤ 2 ^ (w * m) * 2 ^ w := Nat.mul_le_mul_right _ acc_lt
    _ = 2 ^ (w * (m + 1)) := by rw [Nat.mul_succ, Nat.pow_add]

@[simp]
theorem pack_nil (w : Nat) : pack w [] = 0 :=
  rfl

@[simp]
theorem pack_append_singleton (w : Nat) (ds : List Nat) (d : Nat) :
    pack w (ds ++ [d]) = push w (pack w ds) d := by
  simp [pack]

@[simp]
theorem length_digits (w k m : Nat) : (digits w k m).length = k := by
  simp [digits]

theorem lt_of_mem_digits {w k m d : Nat} (member : d ∈ digits w k m) : d < 2 ^ w := by
  obtain ⟨_, _, rfl⟩ := List.mem_map.mp member
  exact Nat.mod_lt _ (Nat.two_pow_pos w)

/-- The digits of `m` are the digits of `m` shifted down one symbol, then its lowest symbol. -/
theorem digits_succ (w k m : Nat) :
    digits w (k + 1) m = digits w k (m >>> w) ++ [m % 2 ^ w] := by
  rw [digits, List.range_succ, List.map_append, digits]
  congr 1
  · apply List.map_congr_left
    intro i member
    have below : i < k := List.mem_range.mp member
    have shift : w * (k + 1 - 1 - i) = w + w * (k - 1 - i) := by
      rw [show k + 1 - 1 - i = k - 1 - i + 1 by omega, Nat.mul_succ, Nat.add_comm]
    rw [shift, Nat.shiftRight_add]
  · simp

/-- Packing the `k` digits of `m` gives back `m` below `2 ^ (w * k)`. -/
theorem pack_digits (w k m : Nat) : pack w (digits w k m) = m % 2 ^ (w * k) := by
  induction k generalizing m with
  | zero => simp [digits, Nat.mod_one]
  | succ k induction =>
      rw [digits_succ, pack_append_singleton, induction, push_eq_add (Nat.mod_lt _ (Nat.two_pow_pos w)),
        Nat.shiftRight_eq_div_pow, Nat.mul_succ, Nat.pow_add, Nat.mul_comm (2 ^ (w * k)), Nat.mod_mul]
      ring

section Register

variable {w n : Nat} {feedback : Nat → Nat}

/-- A word below the top symbol passes through a step untouched by the feedback: stepping the
register XORed with it is stepping the register on zero, then XORing in the word pushed up. -/
theorem step_xor {c low d : Nat} (low_lt : low < 2 ^ (w * n)) :
    step w n feedback (c ^^^ low) d = step w n feedback c 0 ^^^ push w low d := by
  have top_unchanged : (c ^^^ low) >>> (w * n) = c >>> (w * n) := by
    rw [Nat.shiftRight_xor_distrib, Nat.shiftRight_eq_div_pow low, Nat.div_eq_of_lt low_lt,
      Nat.xor_zero]
  rw [step, step, top_unchanged, push, push, push, Nat.xor_mod_two_pow, Nat.mod_eq_of_lt low_lt,
    Nat.shiftLeft_xor_distrib, Nat.xor_zero]
  ac_rfl

/-- Linearity of a run: the symbols fed in travel up as a packed word next to the run on zeros,
as long as the packed word stays below the top symbol before each step. -/
theorem foldl_step_xor (ds : List Nat) {c low m : Nat} (fits : m + ds.length ≤ n + 1)
    (low_lt : low < 2 ^ (w * m)) (small : ∀ d ∈ ds, d < 2 ^ w) :
    ds.foldl (step w n feedback) (c ^^^ low) =
      (List.replicate ds.length 0).foldl (step w n feedback) c ^^^ ds.foldl (push w) low := by
  induction ds generalizing c low m with
  | nil => rfl
  | cons d ds induction =>
      have below_top : low < 2 ^ (w * n) :=
        Nat.lt_of_lt_of_le low_lt
          (Nat.pow_le_pow_right Nat.zero_lt_two (Nat.mul_le_mul_left w (by simp at fits; omega)))
      have d_small : d < 2 ^ w := small d List.mem_cons_self
      have rest_small : ∀ e ∈ ds, e < 2 ^ w := fun e member => small e (List.mem_cons_of_mem d member)
      rw [List.foldl_cons, step_xor below_top, List.length_cons, List.replicate_succ,
        List.foldl_cons, List.foldl_cons]
      exact induction (by simp at fits; omega) (push_lt low_lt d_small) rest_small

theorem foldl_step_eq_xor_pack (ds : List Nat) (c : Nat) (fits : ds.length ≤ n + 1)
    (small : ∀ d ∈ ds, d < 2 ^ w) :
    ds.foldl (step w n feedback) c =
      (List.replicate ds.length 0).foldl (step w n feedback) c ^^^ pack w ds := by
  simpa [pack] using @foldl_step_xor w n feedback ds c 0 0 (by omega) (Nat.two_pow_pos _) small

/-- Appending the `n + 1` digits of a word `m` that fits the register XORs exactly `m` into the
register, compared with appending `n + 1` zeros. -/
theorem foldl_step_append_digits (u : List Nat) (c : Nat) {m : Nat}
    (m_lt : m < 2 ^ (w * (n + 1))) :
    (u ++ digits w (n + 1) m).foldl (step w n feedback) c =
      (u ++ List.replicate (n + 1) 0).foldl (step w n feedback) c ^^^ m := by
  rw [List.foldl_append, List.foldl_append,
    foldl_step_eq_xor_pack _ _ (by simp) (fun _ member => lt_of_mem_digits member),
    length_digits, pack_digits, Nat.mod_eq_of_lt m_lt]

theorem step_lt {c d : Nat} (d_lt : d < 2 ^ (w * (n + 1)))
    (feedback_lt : ∀ top, feedback top < 2 ^ (w * (n + 1))) :
    step w n feedback c d < 2 ^ (w * (n + 1)) := by
  have shifted : (c % 2 ^ (w * n)) <<< w < 2 ^ (w * (n + 1)) := by
    simpa [push] using @push_lt w (c % 2 ^ (w * n)) 0 n (Nat.mod_lt c (Nat.two_pow_pos _))
      (Nat.two_pow_pos w)
  exact Nat.xor_lt_two_pow (Nat.xor_lt_two_pow shifted d_lt) (feedback_lt _)

/-- The register stays within its `n + 1` symbols along any run that starts within them. -/
theorem foldl_step_lt (ds : List Nat) {c : Nat} (c_lt : c < 2 ^ (w * (n + 1)))
    (small : ∀ d ∈ ds, d < 2 ^ (w * (n + 1)))
    (feedback_lt : ∀ top, feedback top < 2 ^ (w * (n + 1))) :
    ds.foldl (step w n feedback) c < 2 ^ (w * (n + 1)) := by
  induction ds generalizing c with
  | nil => exact c_lt
  | cons d ds induction =>
      exact induction (step_lt (small d List.mem_cons_self) feedback_lt)
        (fun e member => small e (List.mem_cons_of_mem d member))

end Register

end ShiftRegister
