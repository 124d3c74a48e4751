import Coinquery.Cashaddr.Codec
import Coinquery.Library.WhileLoop
import Coinquery.Library.BitGroups

/-!
# Cashaddr payloads and addresses

`convertBits`, `packAddressData`, `CheckEncodeCashAddress`, `CheckDecodeCashAddress` and
`DecodeAddress` of `pkg/cashaddr`. A payload is the version byte and the hash, regrouped from
bytes into 5-bit values; the version byte holds the address type above three bits of size.

`convertBits` keeps the bits it reads: the groups it emits, then the bits still pending, are the
bits of its input (`Regroup.Holds`). Padding adds fewer zeros than a group, and the unpadded
direction takes them off again, so bytes regrouped into 5-bit values come back unchanged
(`convertBits_roundTrip`).
-/

namespace Coinquery.Cashaddr

open BitGroups

/-! ## Regrouping bits -/

/-- The variables of the loop of `convertBits`. -/
structure Regroup where
  acc : Nat
  bits : Nat
  ret : List Nat
deriving DecidableEq, Repr

/-- The inner loop `for bits >= tobits` over the pending bits and the values emitted: each
iteration takes the `toBits` bits below `bits` off `acc`. It never ends when `toBits` is `0`;
otherwise `bits + 1` iterations are room enough. -/
def emitGroups (toBits acc : Nat) (state : Nat × List Nat) : Option (Nat × List Nat) :=
  WhileLoop.run (fun s => decide (toBits ≤ s.1))
    (fun s => (s.1 - toBits, s.2 ++ [(acc >>> (s.1 - toBits)) &&& (2 ^ toBits - 1)]))
    (state.1 + 1) state

/-- One iteration of the outer loop, on the input `value`. -/
def regroupValue (fromBits toBits : Nat) (state : Regroup) (value : UInt8) : Option Regroup :=
  let acc := ((state.acc <<< fromBits) ||| value.toNat) &&& (2 ^ (fromBits + toBits - 1) - 1)
  (emitGroups toBits acc (state.bits + fromBits, state.ret)).map fun emitted =>
    ⟨acc, emitted.1, emitted.2⟩

/-- `convertBits(data, fromBits, tobits, pad)`, the general power-of-two regrouping. Go's `uint`
is 64 bits wide; every value is masked below `2 ^ (fromBits + tobits - 1)` or `2 ^ tobits`, so
where those fit in 64 bits, as at both call sites, the bits Go keeps are the bits kept here. A
loop that does not end is `none`. -/
def convertBits (data : Data) (fromBits toBits : Nat) (pad : Bool) : Option (Except String Data) := do
  let maxv := 2 ^ toBits - 1
  let final ← data.foldlM (regroupValue fromBits toBits) ⟨0, 0, []⟩
  if pad then
    let ret := if 0 < final.bits then final.ret ++ [(final.acc <<< (toBits - final.bits)) &&& maxv]
      else final.ret
    pure (.ok (ret.map UInt8.ofNat))
  else if fromBits ≤ final.bits ∨ (final.acc <<< (toBits - final.bits)) &&& maxv ≠ 0 then
    pure (.error "encoding padding error")
  else pure (.ok (final.ret.map UInt8.ofNat))

/-! ## The bits are kept -/

/-- The invariant of the loop: fewer than a group's bits are pending, and the groups emitted, then
the pending bits, are the bits read. -/
structure Regroup.Holds (toBits : Nat) (input : List Bool) (state : Regroup) : Prop where
  pending_lt : state.bits < toBits
  bits_eq : state.ret.flatMap (bitsOf toBits) ++ bitsOf state.bits state.acc = input
  small : ∀ r ∈ state.ret, r < 2 ^ toBits

theorem Regroup.holds_initial {toBits : Nat} (positive : 0 < toBits) :
    Regroup.Holds toBits [] ⟨0, 0, []⟩ :=
  ⟨positive, rfl, fun _ member => nomatch member⟩

theorem and_two_pow_sub_one_lt (x n : Nat) : x &&& (2 ^ n - 1) < 2 ^ n := by
  rw [Nat.and_two_pow_sub_one_eq_mod]
  exact Nat.mod_lt x (Nat.two_pow_pos n)

/-- The inner loop ends, below a group's bits pending, with the bits of `acc` it took off appended
as groups. -/
theorem emitGroups_spec {toBits : Nat} (positive : 0 < toBits) (acc bits : Nat) (ret : List Nat)
    (small : ∀ r ∈ ret, r < 2 ^ toBits) :
    ∃ bits' ret', emitGroups toBits acc (bits, ret) = some (bits', ret') ∧ bits' < toBits ∧
      ret'.flatMap (bitsOf toBits) ++ bitsOf bits' acc = ret.flatMap (bitsOf toBits) ++ bitsOf bits acc ∧
      ∀ r ∈ ret', r < 2 ^ toBits := by
  let inv : Nat × List Nat → Prop := fun s =>
    s.2.flatMap (bitsOf toBits) ++ bitsOf s.1 acc = ret.flatMap (bitsOf toBits) ++ bitsOf bits acc ∧
      ∀ r ∈ s.2, r < 2 ^ toBits
  have preserve : ∀ s, inv s → decide (toBits ≤ s.1) = true →
      inv (s.1 - toBits, s.2 ++ [(acc >>> (s.1 - toBits)) &&& (2 ^ toBits - 1)]) := by
    rintro ⟨pending, emitted⟩ ⟨same, emitted_small⟩ go
    have enough : toBits ≤ pending := of_decide_eq_true go
    refine ⟨?_, fun r member => ?_⟩
    · -- the group taken off is the `toBits` bits above the `pending - toBits` left
      have split : bitsOf pending acc = bitsOf toBits (acc >>> (pending - toBits)) ++
          bitsOf (pending - toBits) acc := by
        rw [← bitsOf_add, Nat.add_sub_cancel' enough]
      rw [← same, split, List.flatMap_append, List.flatMap_singleton,
        bitsOf_and_mask (le_refl toBits), List.append_assoc]
    · rcases List.mem_append.mp member with old | fresh
      · exact emitted_small r old
      · rw [List.mem_singleton.mp fresh]
        exact and_two_pow_sub_one_lt _ toBits
  have decrease : ∀ s : Nat × List Nat, inv s → decide (toBits ≤ s.1) = true →
      (s.1 - toBits, s.2 ++ [(acc >>> (s.1 - toBits)) &&& (2 ^ toBits - 1)]).1 < s.1 := by
    rintro ⟨pending, emitted⟩ - go
    have enough : toBits ≤ pending := of_decide_eq_true go
    show pending - toBits < pending
    omega
  have initial : inv (bits, ret) := ⟨rfl, small⟩
  obtain ⟨⟨bits', ret'⟩, finished⟩ := Option.isSome_iff_exists.mp
    (WhileLoop.run_isSome_of_measure inv Prod.fst preserve decrease initial (Nat.le_succ bits))
  obtain ⟨⟨same, small'⟩, stop⟩ := WhileLoop.run_invariant inv preserve initial finished
  exact ⟨bits', ret', finished, by simpa using stop, same, small'⟩

/-- Shifting `value` into `acc` and masking keeps the pending bits, followed by `value`'s. -/
theorem bitsOf_shift_in {fromBits toBits bits acc value : Nat} (pending_lt : bits < toBits)
    (value_lt : value < 2 ^ fromBits) :
    bitsOf (bits + fromBits)
        (((acc <<< fromBits) ||| value) &&& (2 ^ (fromBits + toBits - 1) - 1)) =
      bitsOf bits acc ++ bitsOf fromBits value := by
  rw [bitsOf_add, bitsOf_and_mask (by omega)]
  congr 1
  · apply bitsOf_congr
    intro i below
    have above : value.testBit (fromBits + i) = false :=
      Nat.testBit_lt_two_pow (Nat.lt_of_lt_of_le value_lt (Nat.pow_le_pow_right (by decide) (by omega)))
    simp [Nat.testBit_shiftRight, Nat.testBit_or, Nat.testBit_shiftLeft, above]
    intro _
    omega
  · apply bitsOf_congr
    intro i below
    simp [Nat.testBit_or, Nat.testBit_shiftLeft, Nat.not_le_of_lt below]

/-- One iteration of the outer loop keeps the invariant, with the value's bits read. -/
theorem regroupValue_holds {fromBits toBits : Nat} (positive : 0 < toBits) {input : List Bool}
    {state : Regroup} (holds : Regroup.Holds toBits input state) {value : UInt8}
    (value_lt : value.toNat < 2 ^ fromBits) :
    ∃ next, regroupValue fromBits toBits state value = some next ∧
      Regroup.Holds toBits (input ++ bitsOf fromBits value.toNat) next := by
  obtain ⟨bits', ret', emitted, pending_lt, same, small⟩ := emitGroups_spec positive
    (((state.acc <<< fromBits) ||| value.toNat) &&& (2 ^ (fromBits + toBits - 1) - 1))
    (state.bits + fromBits) state.ret holds.small
  refine ⟨_, by rw [regroupValue, emitted]; rfl, pending_lt, ?_, small⟩
  rw [same, bitsOf_shift_in holds.pending_lt value_lt, ← List.append_assoc, holds.bits_eq]

/-- The outer loop over values of `fromBits` bits ends, with the invariant over all their bits. -/
theorem foldlM_regroupValue_holds {fromBits toBits : Nat} (positive : 0 < toBits) (data : Data)
    (small : ∀ v ∈ data, v.toNat < 2 ^ fromBits) {input : List Bool} {state : Regroup}
    (holds : Regroup.Holds toBits input state) :
    ∃ final, data.foldlM (regroupValue fromBits toBits) state = some final ∧
      Regroup.Holds toBits (input ++ (data.map UInt8.toNat).flatMap (bitsOf fromBits)) final := by
  induction data generalizing input state with
  | nil => exact ⟨state, rfl, by simpa using holds⟩
  | cons value data induction =>
      obtain ⟨next, stepped, holds_next⟩ :=
        regroupValue_holds positive holds (small value List.mem_cons_self)
      obtain ⟨final, finished, holds_final⟩ :=
        induction (fun v member => small v (List.mem_cons_of_mem value member)) holds_next
      refine ⟨final, by rw [List.foldlM_cons, stepped]; exact finished, ?_⟩
      simpa using holds_final

/-! ## Padding and its removal -/

theorem length_flatMap_bitsOf (n : Nat) (xs : List Nat) : (xs.flatMap (bitsOf n)).length = xs.length * n := by
  induction xs with
  | nil => simp
  | cons x xs induction => simp [induction, Nat.succ_mul, Nat.add_comm]

/-- The last, padded group: the pending bits, then zeros. -/
theorem bitsOf_pad_group {toBits bits : Nat} (le : bits ≤ toBits) (acc : Nat) :
    bitsOf toBits ((acc <<< (toBits - bits)) &&& (2 ^ toBits - 1)) =
      bitsOf bits acc ++ List.replicate (toBits - bits) false := by
  rw [bitsOf_and_mask (le_refl toBits), ← bitsOf_shiftLeft, Nat.add_sub_cancel' le]

/-- Values of at most eight bits survive the conversion to bytes. -/
theorem map_toNat_map_ofNat {toBits : Nat} (narrow : toBits ≤ 8) {rs : List Nat}
    (small : ∀ r ∈ rs, r < 2 ^ toBits) : (rs.map UInt8.ofNat).map UInt8.toNat = rs := by
  rw [List.map_map]
  refine (List.map_congr_left fun r member => ?_).trans (List.map_id rs)
  have byte : r < 2 ^ 8 := Nat.lt_of_lt_of_le (small r member) (Nat.pow_le_pow_right (by decide) narrow)
  show (UInt8.ofNat r).toNat = r
  rw [UInt8.toNat_ofNat']
  exact Nat.mod_eq_of_lt byte

theorem toNat_lt_of_mem_map_ofNat {toBits : Nat} (narrow : toBits ≤ 8) {rs : List Nat}
    (small : ∀ r ∈ rs, r < 2 ^ toBits) : ∀ o ∈ rs.map UInt8.ofNat, o.toNat < 2 ^ toBits := by
  intro o member
  have read : o.toNat ∈ (rs.map UInt8.ofNat).map UInt8.toNat := List.mem_map_of_mem member
  rw [map_toNat_map_ofNat narrow small] at read
  exact small _ read

/-- With padding, the groups are the bits read followed by fewer zeros than a group. -/
theorem convertBits_pad {fromBits toBits : Nat} (positive : 0 < toBits) (narrow : toBits ≤ 8)
    (data : Data) (small : ∀ v ∈ data, v.toNat < 2 ^ fromBits) :
    ∃ out zeros, convertBits data fromBits toBits true = some (.ok out) ∧ zeros < toBits ∧
      (∀ o ∈ out, o.toNat < 2 ^ toBits) ∧
      (out.map UInt8.toNat).flatMap (bitsOf toBits) =
        (data.map UInt8.toNat).flatMap (bitsOf fromBits) ++ List.replicate zeros false := by
  obtain ⟨final, finished, holds⟩ :=
    foldlM_regroupValue_holds positive data small (Regroup.holds_initial positive)
  rw [List.nil_append] at holds
  by_cases pending : 0 < final.bits
  · -- the pending bits go out in one more group, filled with zeros
    let padded := final.ret ++ [(final.acc <<< (toBits - final.bits)) &&& (2 ^ toBits - 1)]
    have padded_small : ∀ r ∈ padded, r < 2 ^ toBits := by
      intro r member
      rcases List.mem_append.mp member with old | fresh
      · exact holds.small r old
      · rw [List.mem_singleton.mp fresh]
        exact and_two_pow_sub_one_lt _ toBits
    refine ⟨padded.map UInt8.ofNat, toBits - final.bits, by simp [convertBits, finished, pending, padded],
      by omega, toNat_lt_of_mem_map_ofNat narrow padded_small, ?_⟩
    rw [map_toNat_map_ofNat narrow padded_small, List.flatMap_append, List.flatMap_singleton,
      bitsOf_pad_group holds.pending_lt.le, ← List.append_assoc, holds.bits_eq]
  · have none_pending : final.bits = 0 := by omega
    refine ⟨final.ret.map UInt8.ofNat, 0, by simp [convertBits, finished, pending], positive,
      toNat_lt_of_mem_map_ofNat narrow holds.small, ?_⟩
    rw [map_toNat_map_ofNat narrow holds.small, ← holds.bits_eq, none_pending]
    simp

/-- Two splits of one length into whole groups and a remainder below a group agree. -/
theorem eq_of_mul_add_eq {t a b c d : Nat} (b_lt : b < t) (d_lt : d < t)
    (same : a * t + b = c * t + d) : a = c ∧ b = d := by
  have positive : 0 < t := by omega
  have first := (Nat.div_mod_unique positive).mpr ⟨(by ring : b + t * a = a * t + b), b_lt⟩
  have second := (Nat.div_mod_unique positive).mpr ⟨(by ring : d + t * c = c * t + d), d_lt⟩
  rw [same] at first
  exact ⟨first.1.symm.trans second.1, first.2.symm.trans second.2⟩

/-- Without padding, bits that are whole groups followed by fewer zeros than a group and than an
input value are regrouped exactly. -/
theorem convertBits_unpad {fromBits toBits : Nat} (positive : 0 < toBits) {data target : Data} (small : ∀ v ∈ data, v.toNat < 2 ^ fromBits)
    (target_small : ∀ x ∈ target, x.toNat < 2 ^ toBits) {zeros : Nat} (zeros_lt_from : zeros < fromBits)
    (zeros_lt_to : zeros < toBits)
    (bits_eq : (data.map UInt8.toNat).flatMap (bitsOf fromBits) =
      (target.map UInt8.toNat).flatMap (bitsOf toBits) ++ List.replicate zeros false) :
    convertBits data fromBits toBits false = some (.ok target) := by
  obtain ⟨final, finished, holds⟩ :=
    foldlM_regroupValue_holds positive data small (Regroup.holds_initial positive)
  rw [List.nil_append, bits_eq] at holds
  have target_small' : ∀ x ∈ target.map UInt8.toNat, x < 2 ^ toBits := by
    intro x member
    obtain ⟨byte, in_target, rfl⟩ := List.mem_map.mp member
    exact target_small byte in_target
  -- the emitted groups are the target's, and the pending bits are the zeros
  have lengths := congrArg List.length holds.bits_eq
  simp only [List.length_append, length_flatMap_bitsOf, length_bitsOf, List.length_replicate,
    List.length_map] at lengths
  obtain ⟨same_count, pending_eq⟩ := eq_of_mul_add_eq holds.pending_lt zeros_lt_to lengths
  obtain ⟨groups, rest⟩ := List.append_inj holds.bits_eq
    (by rw [length_flatMap_bitsOf, length_flatMap_bitsOf, List.length_map, same_count])
  have ret_eq : final.ret = target.map UInt8.toNat :=
    flatMap_bitsOf_inj positive holds.small target_small' groups
  -- the check on the leftover bits passes
  have fits : ¬fromBits ≤ final.bits := by omega
  have last_zero : (final.acc <<< (toBits - final.bits)) &&& (2 ^ toBits - 1) = 0 := by
    have zero_bits : bitsOf toBits ((final.acc <<< (toBits - final.bits)) &&& (2 ^ toBits - 1)) =
        List.replicate toBits false := by
      rw [bitsOf_pad_group holds.pending_lt.le, rest, pending_eq, List.replicate_append_replicate,
        Nat.add_sub_cancel' zeros_lt_to.le]
    have low := bitsOf_eq_replicate_false zero_bits
    rwa [Nat.mod_eq_of_lt (and_two_pow_sub_one_lt _ toBits)] at low
  rw [Nat.and_two_pow_sub_one_eq_mod] at last_zero
  simp [convertBits, finished, fits, last_zero, ret_eq, Function.comp_def]

/-- Bytes regrouped into 5-bit values with padding, and back without, are unchanged. -/
theorem convertBits_roundTrip (data : Data) :
    ∃ values, convertBits data 8 5 true = some (.ok values) ∧ (∀ v ∈ values, v < 32) ∧
      convertBits values 5 8 false = some (.ok data) := by
  obtain ⟨values, zeros, padded, zeros_lt, small, bits_eq⟩ :=
    @convertBits_pad 8 5 (by decide) (by decide) data fun v _ => v.toNat_lt
  refine ⟨values, padded, fun v member => UInt8.lt_iff_toNat_lt.mpr (small v member), ?_⟩
  exact @convertBits_unpad 5 8 (by decide) _ _ small (fun x _ => x.toNat_lt) _ (by omega) (by omega)
    bits_eq

/-- Regrouping bytes with padding loses nothing: the unpadded direction undoes it. -/
theorem convertBits_pad_inj {first second packed : Data}
    (first_padded : convertBits first 8 5 true = some (.ok packed))
    (second_padded : convertBits second 8 5 true = some (.ok packed)) : first = second := by
  obtain ⟨first_values, first_padded', -, first_back⟩ := convertBits_roundTrip first
  obtain ⟨second_values, second_padded', -, second_back⟩ := convertBits_roundTrip second
  rw [first_padded, Option.some.injEq, Except.ok.injEq] at first_padded'
  rw [second_padded, Option.some.injEq, Except.ok.injEq] at second_padded'
  rw [← first_padded'] at first_back
  rw [← second_padded', first_back, Option.some.injEq, Except.ok.injEq] at second_back
  exact second_back

/-! ## Payloads of a version byte and a hash -/

/-- `AddressType`, a Go `int` with two named values. -/
abbrev AddressType := Int

def P2PKH : AddressType := 0

def P2SH : AddressType := 1

/-- `packAddressData(addrType, addrHash)`: the version byte, then the hash, regrouped into 5-bit
values. Go's `len(addrHash) - 20` is an `int` whose `%` truncates, and `uint(len(addrHash)) - 20`
wraps below zero; the check `encodedSize < 0` on a `uint` never holds. -/
def packAddressData (addrType : AddressType) (addrHash : Data) : Option (Except String Data) :=
  if addrType ≠ P2PKH ∧ addrType ≠ P2SH then some (.error "invalid addrtype")
  else
    let encodedSize := (addrHash.length + 2 ^ 64 - 20) % 2 ^ 64 / 4
    if ((addrHash.length : Int) - 20).tmod 4 ≠ 0 then some (.error "invalid addrhash size")
    else if encodedSize > 8 then some (.error "encoded size out of valid range")
    else convertBits (UInt8.ofNat (addrType.toNat <<< 3 ||| encodedSize) :: addrHash) 8 5 true

/-- `CheckEncodeCashAddress(input, prefix, t)`: a packing error is printed and gives `""`. -/
def checkEncodeCashAddress (input pre : Data) (t : AddressType) : Option Data :=
  match packAddressData t input with
  | none => none
  | some (.error _) => some []
  | some (.ok k) => encode pre k

/-- `CheckDecodeCashAddress(input)`, with its results `(result, prefix, t)` or its error. -/
def checkDecodeCashAddress (input : Data) : Option (Except String (Data × Data × AddressType)) :=
  match decodeCashAddress input with
  | none => none
  | some (.error e) => some (.error e)
  | some (.ok (pre, payload)) =>
    match convertBits payload 5 8 false with
    | none => none
    | some (.error e) => some (.error e)
    | some (.ok data) =>
      if data.length ≠ 21 then some (.error "Incorrect data length")
      else
        -- the switch on `data[0]` has no default: `t` keeps its zero value, `P2PKH`
        let t := if data.head? = some 0x00 then P2PKH else if data.head? = some 0x08 then P2SH else P2PKH
        some (.ok ((data.take 21).drop 1, pre, t))

/-- Packing succeeds for the two types and the hashes of 20 to 52 bytes, in steps of 4, whose
size code is `(len - 20) / 4`. -/
theorem packAddressData_eq {addrType : AddressType} (known : addrType = P2PKH ∨ addrType = P2SH)
    {addrHash : Data} {size : Nat} (sized : addrHash.length = 20 + 4 * size) (in_range : size ≤ 8) :
    packAddressData addrType addrHash =
      convertBits (UInt8.ofNat (addrType.toNat <<< 3 ||| size) :: addrHash) 8 5 true := by
  have checked : ¬(addrType ≠ P2PKH ∧ addrType ≠ P2SH) := by
    rintro ⟨not_pkh, not_sh⟩
    rcases known with pkh | sh
    · exact not_pkh pkh
    · exact not_sh sh
  have whole : ¬((addrHash.length : Int) - 20).tmod 4 ≠ 0 := by
    rw [sized, not_not]
    push_cast
    rw [show (20 + 4 * (size : Int) - 20) = 4 * size by ring]
    exact Int.mul_tmod_right 4 size
  have encoded : (addrHash.length + 2 ^ 64 - 20) % 2 ^ 64 / 4 = size := by omega
  unfold packAddressData
  rw [if_neg checked]
  dsimp only
  rw [if_neg whole, encoded, if_neg (by omega)]

/-- Packing succeeds exactly for the two types and the hashes of 20 to 52 bytes in steps of 4. A Go
slice is shorter than `2 ^ 63`; past `2 ^ 64` bytes the wrapped size code would pass. -/
theorem packAddressData_isOk_iff (addrType : AddressType) {addrHash : Data}
    (bounded : addrHash.length < 2 ^ 63) :
    (∃ packed, packAddressData addrType addrHash = some (.ok packed)) ↔
      (addrType = P2PKH ∨ addrType = P2SH) ∧ ∃ size ≤ 8, addrHash.length = 20 + 4 * size := by
  constructor
  · rintro ⟨packed, packs⟩
    unfold packAddressData at packs
    by_cases unknown : addrType ≠ P2PKH ∧ addrType ≠ P2SH
    · rw [if_pos unknown] at packs
      cases packs
    rw [if_neg unknown] at packs
    dsimp only at packs
    by_cases ragged : ((addrHash.length : Int) - 20).tmod 4 ≠ 0
    · rw [if_pos ragged] at packs
      cases packs
    by_cases large : (addrHash.length + 2 ^ 64 - 20) % 2 ^ 64 / 4 > 8
    · rw [if_neg ragged, if_pos large] at packs
      cases packs
    -- below 20 bytes the size code wraps and is out of range
    have long : 20 ≤ addrHash.length := by omega
    rw [not_not, Int.tmod_eq_emod_of_nonneg (by omega)] at ragged
    refine ⟨by tauto, (addrHash.length - 20) / 4, by omega, by omega⟩
  · rintro ⟨known, size, in_range, sized⟩
    obtain ⟨packed, _, padded, -⟩ :=
      @convertBits_pad 8 5 (by decide) (by decide) (UInt8.ofNat (addrType.toNat <<< 3 ||| size) :: addrHash)
        fun v _ => v.toNat_lt
    exact ⟨packed, (packAddressData_eq known sized in_range).trans padded⟩

theorem packAddressData_isOk_iff_twenty :
    (List.replicate 20 0 : Data).length < 2 ^ 63 ∧
      ((∃ packed, packAddressData P2PKH (List.replicate 20 0) = some (.ok packed)) ↔
        (P2PKH = P2PKH ∨ P2PKH = P2SH) ∧ ∃ size ≤ 8, (List.replicate 20 0 : Data).length = 20 + 4 * size) :=
  ⟨by simp, packAddressData_isOk_iff P2PKH (by simp)⟩

/-- The packed payload regroups back to the version byte and the hash. -/
theorem convertBits_packAddressData {addrType : AddressType} (known : addrType = P2PKH ∨ addrType = P2SH)
    {addrHash : Data} {size : Nat} (sized : addrHash.length = 20 + 4 * size) (in_range : size ≤ 8) :
    ∃ packed, packAddressData addrType addrHash = some (.ok packed) ∧ (∀ v ∈ packed, v < 32) ∧
      convertBits packed 5 8 false = some (.ok (UInt8.ofNat (addrType.toNat <<< 3 ||| size) :: addrHash)) := by
  obtain ⟨packed, padded, small, unpadded⟩ :=
    convertBits_roundTrip (UInt8.ofNat (addrType.toNat <<< 3 ||| size) :: addrHash)
  exact ⟨packed, (packAddressData_eq known sized in_range).trans padded, small, unpadded⟩

/-- Below the size code 8 the version byte keeps the type above its low three bits. -/
theorem versionByte_type {addrType : AddressType} (known : addrType = P2PKH ∨ addrType = P2SH)
    {size : Nat} (small : size < 8) :
    ((UInt8.ofNat (addrType.toNat <<< 3 ||| size) >>> 3).toNat : AddressType) = addrType := by
  rcases known with rfl | rfl <;> revert size <;> decide

/-- Below the size code 8, a packed hash regroups back to a version byte whose type bits are the
type it was packed with, followed by the hash. -/
theorem packAddressData_keeps_type {addrType : AddressType} (known : addrType = P2PKH ∨ addrType = P2SH)
    {addrHash : Data} {size : Nat} (sized : addrHash.length = 20 + 4 * size) (small : size < 8) :
    ∃ packed version, packAddressData addrType addrHash = some (.ok packed) ∧
      convertBits packed 5 8 false = some (.ok (version :: addrHash)) ∧
      ((version >>> 3).toNat : AddressType) = addrType := by
  obtain ⟨packed, packs, -, unpacks⟩ := convertBits_packAddressData known sized small.le
  exact ⟨packed, _, packs, unpacks, versionByte_type known small⟩

theorem packAddressData_keeps_type_twenty :
    (P2SH = P2PKH ∨ P2SH = P2SH) ∧ (List.replicate 20 0 : Data).length = 20 + 4 * 0 ∧ 0 < 8 ∧
      ∃ packed version, packAddressData P2SH (List.replicate 20 0) = some (.ok packed) ∧
        convertBits packed 5 8 false = some (.ok (version :: List.replicate 20 0)) ∧
        ((version >>> 3).toNat : AddressType) = P2SH :=
  ⟨.inr rfl, List.length_replicate, by decide,
    @packAddressData_keeps_type P2SH (.inr rfl) (List.replicate 20 0) 0 List.length_replicate (by decide)⟩

/-- A 52-byte hash packs with the size code 8, which sets the type bit: packed as `P2PKH`, it
regroups back under the version byte `8`, whose type bits are `P2SH`'s. -/
theorem packAddressData_size_code_sets_type_bit {addrHash : Data} (long : addrHash.length = 52) :
    ∃ packed, packAddressData P2PKH addrHash = some (.ok packed) ∧
      convertBits packed 5 8 false = some (.ok (8 :: addrHash)) ∧
      (((8 : UInt8) >>> 3).toNat : AddressType) = P2SH := by
  obtain ⟨packed, packs, -, unpacks⟩ := convertBits_packAddressData (.inl rfl)
    (show addrHash.length = 20 + 4 * 8 by omega) (le_refl 8)
  have version : UInt8.ofNat (P2PKH.toNat <<< 3 ||| 8) = 8 := by decide
  rw [version] at unpacks
  exact ⟨packed, packs, unpacks, by decide⟩

theorem packAddressData_size_code_sets_type_bit_zeros :
    (List.replicate 52 0 : Data).length = 52 ∧
      ∃ packed, packAddressData P2PKH (List.replicate 52 0) = some (.ok packed) ∧
        convertBits packed 5 8 false = some (.ok (8 :: List.replicate 52 0)) ∧
        (((8 : UInt8) >>> 3).toNat : AddressType) = P2SH :=
  ⟨List.length_replicate, packAddressData_size_code_sets_type_bit List.length_replicate⟩

/-- The accepting path of `CheckDecodeCashAddress` on a 21-byte payload: the type read is `P2SH`
for the version byte `8` and `P2PKH` for every other. -/
theorem checkDecodeCashAddress_of_payload {input pre payload hash : Data} {version : UInt8}
    (decoded : decodeCashAddress input = some (.ok (pre, payload)))
    (regrouped : convertBits payload 5 8 false = some (.ok (version :: hash)))
    (length_hash : hash.length = 20) :
    checkDecodeCashAddress input = some (.ok (hash, pre, if version = 8 then P2SH else P2PKH)) := by
  have type_read : (if version = 0 then P2PKH else if version = 8 then P2SH else P2PKH) =
      if version = 8 then P2SH else P2PKH := by
    by_cases zero : version = 0
    · rw [if_pos zero, if_neg (by rw [zero]; decide)]
    · rw [if_neg zero]
  have sliced : ((version :: hash).take 21).drop 1 = hash := by
    rw [List.take_of_length_le (by simp [length_hash]), List.drop_one, List.tail_cons]
  simp only [checkDecodeCashAddress, decoded, regrouped, List.length_cons, length_hash,
    List.head?_cons, Option.some.injEq, sliced, type_read]
  rfl

/-- Every version byte and 20-byte hash, packed under a prefix of lowercase letters, decode back
through `CheckDecodeCashAddress`. -/
theorem checkDecodeCashAddress_encode {pre hash : Data} (pre_ne : pre ≠ [])
    (lower : ∀ c ∈ pre, isLowerByte c = true) (length_hash : hash.length = 20) (version : UInt8) :
    ∃ packed address, convertBits (version :: hash) 8 5 true = some (.ok packed) ∧
      (∀ v ∈ packed, v < 32) ∧ encode pre packed = some address ∧
      checkDecodeCashAddress (pre ++ ':'.toUInt8 :: address) =
        some (.ok (hash, pre, if version = 8 then P2SH else P2PKH)) := by
  obtain ⟨packed, padded, small, unpadded⟩ := convertBits_roundTrip (version :: hash)
  refine ⟨packed, _, padded, small, encode_eq small, ?_⟩
  exact checkDecodeCashAddress_of_payload (decodeCashAddress_of_encode pre_ne lower small (encode_eq small))
    unpadded length_hash

/-- `CheckEncodeCashAddress` of a 20-byte hash is `Encode` of the hash packed with the type's
version byte. -/
theorem checkEncodeCashAddress_eq_encode {input : Data} (length_input : input.length = 20)
    {t : AddressType} (known : t = P2PKH ∨ t = P2SH) (pre : Data) :
    ∃ packed, convertBits (UInt8.ofNat (t.toNat <<< 3 ||| 0) :: input) 8 5 true = some (.ok packed) ∧
      (∀ v ∈ packed, v < 32) ∧ checkEncodeCashAddress input pre t = encode pre packed := by
  obtain ⟨packed, padded, small, -⟩ := convertBits_roundTrip (UInt8.ofNat (t.toNat <<< 3 ||| 0) :: input)
  refine ⟨packed, padded, small, ?_⟩
  rw [checkEncodeCashAddress, packAddressData_eq known (by omega : input.length = 20 + 4 * 0) (by omega),
    padded]

/-- The round trip of a 20-byte hash of either type under a prefix of lowercase letters. -/
theorem checkDecodeCashAddress_checkEncodeCashAddress {pre input : Data} (pre_ne : pre ≠ [])
    (lower : ∀ c ∈ pre, isLowerByte c = true) (length_input : input.length = 20) {t : AddressType}
    (known : t = P2PKH ∨ t = P2SH) :
    ∃ address, checkEncodeCashAddress input pre t = some address ∧
      checkDecodeCashAddress (pre ++ ':'.toUInt8 :: address) = some (.ok (input, pre, t)) := by
  obtain ⟨packed, padded, -, encoded⟩ := checkEncodeCashAddress_eq_encode length_input known pre
  obtain ⟨packed', address, padded', -, encoded', decoded⟩ :=
    checkDecodeCashAddress_encode pre_ne lower length_input (UInt8.ofNat (t.toNat <<< 3 ||| 0))
  rw [padded, Option.some.injEq, Except.ok.injEq] at padded'
  subst padded'
  have type_read : (if UInt8.ofNat (t.toNat <<< 3 ||| 0) = 8 then P2SH else P2PKH) = t := by
    rcases known with rfl | rfl <;> decide
  rw [type_read] at decoded
  exact ⟨address, encoded.trans encoded', decoded⟩

/-! ## Addresses -/

/-- The `chaincfg.Params` read here: the network's name and its legacy address version bytes. -/
structure Params where
  name : String
  pubKeyHashAddrID : UInt8
  scriptHashAddrID : UInt8
deriving DecidableEq, Repr

def mainNetParams : Params := ⟨"mainnet", 0x00, 0x05⟩

def testNet3Params : Params := ⟨"testnet3", 0x6f, 0xc4⟩

def regressionNetParams : Params := ⟨"regtest", 0x6f, 0xc4⟩

/-- A Go string of ASCII text, as its bytes. -/
def ascii (s : String) : Data :=
  s.toList.map Char.toUInt8

/-- `Prefixes`, as `init` fills it. -/
def prefixes (name : String) : Option Data :=
  if name = mainNetParams.name then some (ascii "bitcoincash")
  else if name = testNet3Params.name then some (ascii "bchtest")
  else if name = regressionNetParams.name then some (ascii "bchreg")
  else none

/-- A hash of `ripemd160.Size` bytes. -/
abbrev Hash160 := { hash : Data // hash.length = 20 }

/-- `CashAddressPubKeyHash` and `CashAddressScriptHash`: a hash and the prefix of its network. -/
inductive Address
  | pubKeyHash (hash : Hash160) (pre : Data)
  | scriptHash (hash : Hash160) (pre : Data)
deriving DecidableEq

/-- `newCashAddressPubKeyHash` and `newCashAddressScriptHashFromHash`: the length check, then the
prefix of the network. -/
def newCashAddress (kind : Hash160 → Data → Address) (lengthError : String) (hash : Data)
    (net : Params) : Except String Address :=
  if h : hash.length = 20 then
    match prefixes net.name with
    | none => .error "unknown network parameters"
    | some pre => .ok (kind ⟨hash, h⟩ pre)
  else .error lengthError

def newCashAddressPubKeyHash (pkHash : Data) (net : Params) : Except String Address :=
  newCashAddress .pubKeyHash "pkHash must be 20 bytes" pkHash net

def newCashAddressScriptHashFromHash (scriptHash : Data) (net : Params) : Except String Address :=
  newCashAddress .scriptHash "scriptHash must be 20 bytes" scriptHash net

/-- `encodeCashAddress(hash160, prefix, t)`. -/
def encodeCashAddress (hash160 pre : Data) (t : AddressType) : Option Data :=
  checkEncodeCashAddress (hash160.take 20) pre t

/-- `EncodeAddress()` of either kind of address. -/
def Address.encodeAddress : Address → Option Data
  | .pubKeyHash hash pre => encodeCashAddress hash.1 pre P2PKH
  | .scriptHash hash pre => encodeCashAddress hash.1 pre P2SH

/-- `DecodeAddress(addr, defaultNet)`. A string as long as the prefix and a colon that does not
start with them gets them in front; a shorter one is decoded as it is. -/
def decodeAddress (addr : Data) (defaultNet : Params) : Option (Except String Address) :=
  match prefixes defaultNet.name with
  | none => some (.error "unknown network parameters")
  | some pre =>
    let addr := if pre.length + 1 ≤ addr.length ∧ addr.take (pre.length + 1) ≠ pre ++ [':'.toUInt8]
      then pre ++ ':'.toUInt8 :: addr else addr
    match checkDecodeCashAddress addr with
    | none => none
    -- `ErrChecksumMismatch` is the one error of that text
    | some (.error e) => some (.error (if e = "checksum mismatch" then e else
        "decoded address is of unknown format"))
    | some (.ok (decoded, _, typ)) =>
      if decoded.length = 20 then
        if typ = P2PKH then some (newCashAddressPubKeyHash decoded defaultNet)
        else if typ = P2SH then some (newCashAddressScriptHashFromHash decoded defaultNet)
        else some (.error "unknown address type")
      else some (.error "decoded address is of unknown size")

/-- Every registered prefix is a nonempty word of lowercase letters. -/
theorem prefixes_lowercase {name : String} {pre : Data} (registered : prefixes name = some pre) :
    pre ≠ [] ∧ ∀ c ∈ pre, isLowerByte c = true := by
  unfold prefixes at registered
  -- the elaborator's evaluator runs out of depth on the strings; the kernel evaluates them
  split_ifs at registered <;> cases registered <;> decide +kernel

theorem newCashAddress_of_registered {net : Params} {pre : Data} (registered : prefixes net.name = some pre)
    (kind : Hash160 → Data → Address) (lengthError : String) {hash : Data} (length_hash : hash.length = 20) :
    newCashAddress kind lengthError hash net = .ok (kind ⟨hash, length_hash⟩ pre) := by
  rw [newCashAddress, dif_pos length_hash, registered]

/-- The characters `Encode` writes are lowercase letters and digits. -/
theorem lower_or_digit_of_encode {pre payload address : Data} (values : ∀ d ∈ payload, d < 32)
    (encoded : encode pre payload = some address) :
    ∀ c ∈ address, isLowerByte c = true ∨ isDigitByte c = true := by
  rw [encode_eq values, Option.some.injEq] at encoded
  subst encoded
  exact lower_or_digit_of_mem_charset (toNat_lt_of_mem_checksummed values)

/-- A string that already starts with the prefix and a colon is decoded as it is. -/
theorem decodeAddress_of_prefixed {net : Params} {pre : Data} (registered : prefixes net.name = some pre)
    (address : Data) :
    decodeAddress (pre ++ ':'.toUInt8 :: address) net =
      match checkDecodeCashAddress (pre ++ ':'.toUInt8 :: address) with
      | none => none
      | some (.error e) => some (.error (if e = "checksum mismatch" then e else
          "decoded address is of unknown format"))
      | some (.ok (decoded, _, typ)) =>
        if decoded.length = 20 then
          if typ = P2PKH then some (newCashAddressPubKeyHash decoded net)
          else if typ = P2SH then some (newCashAddressScriptHashFromHash decoded net)
          else some (.error "unknown address type")
        else some (.error "decoded address is of unknown size") := by
  have starts : (pre ++ ':'.toUInt8 :: address).take (pre.length + 1) = pre ++ [':'.toUInt8] := by
    simp [List.take_append, List.take_of_length_le (Nat.le_succ pre.length)]
  unfold decodeAddress
  rw [registered]
  simp only [starts, ne_eq, not_true_eq_false, and_false, if_false]

/-- A version byte other than `0` and `8` reads as `P2PKH`: the lowercase string decodes to a
pay-to-pubkey-hash address, which encodes back with the version byte `0`, another string. -/
theorem decodeAddress_unknown_version_reencodes_differently {net : Params} {pre : Data}
    (registered : prefixes net.name = some pre) {hash : Data} (length_hash : hash.length = 20)
    {version : UInt8} (unknown : version ≠ 0 ∧ version ≠ 8) :
    ∃ packed address, convertBits (version :: hash) 8 5 true = some (.ok packed) ∧
      encode pre packed = some address ∧
      (∀ c ∈ pre ++ ':'.toUInt8 :: address, isUpperByte c = false) ∧
      decodeAddress (pre ++ ':'.toUInt8 :: address) net = some (.ok (.pubKeyHash ⟨hash, length_hash⟩ pre)) ∧
      (Address.pubKeyHash ⟨hash, length_hash⟩ pre).encodeAddress ≠ some address := by
  obtain ⟨pre_ne, lower⟩ := prefixes_lowercase registered
  obtain ⟨packed, address, padded, small, encoded, decoded⟩ :=
    checkDecodeCashAddress_encode pre_ne lower length_hash version
  rw [if_neg unknown.2] at decoded
  refine ⟨packed, address, padded, encoded, ?_, ?_, ?_⟩
  · -- the prefix is lowercase letters, and `Encode` writes lowercase letters and digits
    intro c member
    rcases List.mem_append.mp member with in_pre | rest
    · exact isUpperByte_eq_false (.inl (lower c in_pre))
    rcases List.mem_cons.mp rest with rfl | in_address
    · decide
    · exact isUpperByte_eq_false (lower_or_digit_of_encode small encoded c in_address)
  · rw [decodeAddress_of_prefixed registered, decoded]
    simp only [length_hash, if_true]
    rw [newCashAddressPubKeyHash, newCashAddress_of_registered registered]
  · -- encoding writes the version byte `0`, and `Encode` keeps payloads apart
    intro reencoded
    obtain ⟨packed₀, padded₀, small₀, encoded₀⟩ := checkEncodeCashAddress_eq_encode length_hash (.inl rfl) pre
    rw [Address.encodeAddress, encodeCashAddress, List.take_of_length_le length_hash.le, encoded₀] at reencoded
    have same := encode_injective pre_ne lower small₀ small reencoded encoded
    rw [same] at padded₀
    have versions := convertBits_pad_inj padded₀ padded
    have zero : UInt8.ofNat (P2PKH.toNat <<< 3 ||| 0) = 0 := by decide
    rw [zero, List.cons.injEq] at versions
    exact unknown.1 versions.1.symm

theorem decodeAddress_unknown_version_reencodes_differently_mainnet :
    (prefixes mainNetParams.name = some (ascii "bitcoincash") ∧ (1 : UInt8) ≠ 0 ∧ (1 : UInt8) ≠ 8) ∧
      ∃ packed address, convertBits (1 :: List.replicate 20 0) 8 5 true = some (.ok packed) ∧
        encode (ascii "bitcoincash") packed = some address ∧
        (∀ c ∈ ascii "bitcoincash" ++ ':'.toUInt8 :: address, isUpperByte c = false) ∧
        decodeAddress (ascii "bitcoincash" ++ ':'.toUInt8 :: address) mainNetParams =
          some (.ok (.pubKeyHash ⟨List.replicate 20 0, List.length_replicate⟩ (ascii "bitcoincash"))) ∧
        (Address.pubKeyHash ⟨List.replicate 20 0, List.length_replicate⟩ (ascii "bitcoincash")).encodeAddress ≠
          some address :=
  ⟨⟨by decide, by decide, by decide⟩,
    decodeAddress_unknown_version_reencodes_differently (by decide) List.length_replicate
      ⟨by decide, by decide⟩⟩

end Coinquery.Cashaddr
