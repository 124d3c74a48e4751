import Coinquery.Library.ShiftRegister

/-!
# Cashaddr checksums

The checksum half of `pkg/cashaddr`: `PolyMod`, `ExpandPrefix`, `VerifyChecksum` and
`CreateChecksum`, over Go's `uint64` and `byte` as `UInt64` and `UInt8`.

The loop of `PolyMod` is a shift register of eight 5-bit symbols whose feedback depends only on
the symbol shifted out, so `ShiftRegister.foldl_step_append_digits` applies to it. From that,
`verifyChecksum_createChecksum`: any payload followed by its checksum verifies, for every
prefix and every payload.
-/

namespace Coinquery.Cashaddr

/-- Go's `type data []byte`. A Go `string` is modelled by its bytes as well. -/
abbrev Data := List UInt8

/-- One conditional XOR of the loop body of `PolyMod`: add `generator` when `c0` has a bit of
`mask` set. -/
def xorIfSet (c0 mask : UInt8) (generator c : UInt64) : UInt64 :=
  if c0 &&& mask > 0 then c ^^^ generator else c

/-- One iteration of the loop of `PolyMod`, on the input value `d`. -/
def polyModStep (c : UInt64) (d : UInt8) : UInt64 :=
  let c0 := (c >>> 35).toUInt8
  let c := ((c &&& 0x07ffffffff) <<< 5) ^^^ d.toUInt64
  let c := xorIfSet c0 0x01 0x98f2bc8e61 c
  let c := xorIfSet c0 0x02 0x79b76d99e2 c
  let c := xorIfSet c0 0x04 0xf33e5fb3c4 c
  let c := xorIfSet c0 0x08 0xae2eabe2a8 c
  xorIfSet c0 0x10 0x1e4f43e470 c

def polyMod (v : Data) : UInt64 :=
  v.foldl polyModStep 1 ^^^ 1

def expandPrefix (pre : Data) : Data :=
  pre.map (· &&& 0x1f) ++ [0]

/-- Go's `Cat(x, y)` is `append(x, y...)`, here `x ++ y`. -/
def verifyChecksum (pre payload : Data) : Bool :=
  polyMod (expandPrefix pre ++ payload) == 0

def createChecksum (pre payload : Data) : Data :=
  let enc := expandPrefix pre ++ payload ++ [0, 0, 0, 0, 0, 0, 0, 0]
  let mod := polyMod enc
  (List.range 8).map fun i => ((mod >>> UInt64.ofNat (5 * (7 - i))) &&& 0x1f).toUInt8

/-! ## `PolyMod` as a shift register -/

/-- The five conditional XORs of one iteration, applied to zero. -/
def feedback (c0 : UInt8) : UInt64 :=
  xorIfSet c0 0x01 0x98f2bc8e61 0 ^^^ xorIfSet c0 0x02 0x79b76d99e2 0 ^^^
    xorIfSet c0 0x04 0xf33e5fb3c4 0 ^^^ xorIfSet c0 0x08 0xae2eabe2a8 0 ^^^
    xorIfSet c0 0x10 0x1e4f43e470 0

/-- The feedback of `PolyMod` on the symbol shifted out, over `Nat`. -/
def feedbackNat (top : Nat) : Nat :=
  (feedback (UInt8.ofNat top)).toNat

theorem xorIfSet_eq_xor (c0 mask : UInt8) (generator c : UInt64) :
    xorIfSet c0 mask generator c = c ^^^ xorIfSet c0 mask generator 0 := by
  unfold xorIfSet
  split <;> simp

theorem toNat_xorIfSet_lt {c0 mask : UInt8} {generator : UInt64} (small : generator.toNat < 2 ^ 40) :
    (xorIfSet c0 mask generator 0).toNat < 2 ^ 40 := by
  unfold xorIfSet
  split
  · simpa using small
  · simp

theorem toNat_feedback_lt (c0 : UInt8) : (feedback c0).toNat < 2 ^ 40 := by
  unfold feedback
  simp only [UInt64.toNat_xor]
  refine Nat.xor_lt_two_pow (Nat.xor_lt_two_pow (Nat.xor_lt_two_pow (Nat.xor_lt_two_pow ?_ ?_) ?_) ?_) ?_ <;>
    exact toNat_xorIfSet_lt (by decide)

/-- The loop body shifts the low 35 bits up by one symbol, brings `d` in, and XORs in the
feedback of the top symbol. -/
theorem polyModStep_eq (c : UInt64) (d : UInt8) :
    polyModStep c d = ((c &&& 0x07ffffffff) <<< 5) ^^^ d.toUInt64 ^^^ feedback (c >>> 35).toUInt8 := by
  simp only [polyModStep, feedback, xorIfSet_eq_xor _ _ _ (_ ^^^ _)]
  ac_rfl

theorem toNat_polyModStep (c : UInt64) (d : UInt8) :
    (polyModStep c d).toNat = ShiftRegister.step 5 7 feedbackNat c.toNat d.toNat := by
  have low : ((c &&& 0x07ffffffff) <<< 5).toNat = (c.toNat % 2 ^ 35) <<< 5 := by
    have below : (c.toNat % 2 ^ 35) <<< 5 < 2 ^ 64 := by
      rw [Nat.shiftLeft_eq]
      have := Nat.mod_lt c.toNat (Nat.two_pow_pos 35)
      omega
    rw [UInt64.toNat_shiftLeft, UInt64.toNat_and, show (0x07ffffffff : UInt64).toNat = 2 ^ 35 - 1 by decide,
      Nat.and_two_pow_sub_one_eq_mod]
    exact Nat.mod_eq_of_lt below
  have top : (c >>> 35).toUInt8 = UInt8.ofNat (c.toNat >>> 35) := by
    apply UInt8.toNat_inj.mp
    simp [UInt64.toNat_shiftRight]
  rw [polyModStep_eq, UInt64.toNat_xor, UInt64.toNat_xor, low, top, ShiftRegister.step,
    ShiftRegister.push, UInt8.toNat_toUInt64, feedbackNat]

theorem toNat_foldl_polyModStep (v : Data) (c : UInt64) :
    (v.foldl polyModStep c).toNat = (v.map UInt8.toNat).foldl (ShiftRegister.step 5 7 feedbackNat) c.toNat := by
  induction v generalizing c with
  | nil => rfl
  | cons d v induction =>
      rw [List.foldl_cons, induction, toNat_polyModStep]
      rfl

theorem toNat_foldl_polyModStep_lt (v : Data) : (v.foldl polyModStep 1).toNat < 2 ^ 40 := by
  have small : ∀ d ∈ v.map UInt8.toNat, d < 2 ^ (5 * (7 + 1)) := by
    intro d member
    obtain ⟨byte, _, rfl⟩ := List.mem_map.mp member
    exact Nat.lt_trans byte.toNat_lt (by decide)
  rw [toNat_foldl_polyModStep]
  exact @ShiftRegister.foldl_step_lt 5 7 feedbackNat _ 1 (by decide) small
    (fun top => toNat_feedback_lt _)

/-! ## Checksums -/

/-- The checksum values are the eight 5-bit digits of `PolyMod` on eight appended zeros. -/
theorem map_toNat_createChecksum (pre payload : Data) :
    (createChecksum pre payload).map UInt8.toNat =
      ShiftRegister.digits 5 8 (polyMod (expandPrefix pre ++ payload ++ [0, 0, 0, 0, 0, 0, 0, 0])).toNat := by
  rw [createChecksum, ShiftRegister.digits, List.map_map]
  apply List.map_congr_left
  intro i member
  have below : i < 8 := List.mem_range.mp member
  have shift : (UInt64.ofNat (5 * (7 - i))).toNat % 64 = 5 * (8 - 1 - i) := by
    rw [UInt64.toNat_ofNat', Nat.mod_mod_of_dvd _ (by decide : 64 ∣ 2 ^ 64), Nat.mod_eq_of_lt (by omega)]
  simp only [Function.comp_apply, UInt64.toNat_toUInt8, UInt64.toNat_and, UInt64.toNat_shiftRight, shift,
    show (0x1f : UInt64).toNat = 2 ^ 5 - 1 by decide, Nat.and_two_pow_sub_one_eq_mod]
  exact Nat.mod_eq_of_lt (Nat.lt_of_lt_of_le (Nat.mod_lt _ (Nat.two_pow_pos 5)) (by decide))

/-- A payload followed by its checksum always verifies: appending the digits of `PolyMod` on
eight zeros XORs them into the register, which cancels the remainder down to the final `1`. -/
theorem verifyChecksum_createChecksum (pre payload : Data) :
    verifyChecksum pre (payload ++ createChecksum pre payload) = true := by
  have remainder_lt :
      (polyMod (expandPrefix pre ++ payload ++ [0, 0, 0, 0, 0, 0, 0, 0])).toNat < 2 ^ (5 * (7 + 1)) := by
    rw [polyMod, UInt64.toNat_xor]
    exact Nat.xor_lt_two_pow (toNat_foldl_polyModStep_lt _) (by decide)
  have cancels :
      ((expandPrefix pre ++ payload ++ createChecksum pre payload).foldl polyModStep 1).toNat = 1 := by
    rw [toNat_foldl_polyModStep, List.map_append, map_toNat_createChecksum,
      ShiftRegister.foldl_step_append_digits _ _ remainder_lt, polyMod, UInt64.toNat_xor,
      toNat_foldl_polyModStep]
    have zeros_map : (expandPrefix pre ++ payload ++ [0, 0, 0, 0, 0, 0, 0, 0]).map UInt8.toNat =
        (expandPrefix pre ++ payload).map UInt8.toNat ++ List.replicate (7 + 1) 0 := by
      simp
    rw [zeros_map, ← Nat.xor_assoc, Nat.xor_self, Nat.zero_xor]
    rfl
  have run_one : (expandPrefix pre ++ payload ++ createChecksum pre payload).foldl polyModStep 1 = 1 :=
    UInt64.toNat_inj.mp cancels
  simp [verifyChecksum, polyMod, ← List.append_assoc, run_one]

end Coinquery.Cashaddr
