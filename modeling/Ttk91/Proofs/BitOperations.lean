import Mathlib.Data.Int.Bitwise
import Mathlib.Data.List.Forall2
import Ttk91.Proofs.WordFields

/-! Residues by operations on bits. Masks, shifts and a flipped sign bit give the same numbers as
remainders do, below zero too, and fields that lie next to each other make up the number that they
were taken from. -/

namespace Ttk91.Bits

/-! Masks. -/

theorem natCast_mask (n : Nat) : ((2 ^ n - 1 : Nat) : Int) = 2 ^ n - 1 := by
  rw [Int.natCast_sub (Nat.two_pow_pos n), Int.natCast_pow]
  rfl

theorem ldiff_mask (n m : Nat) : Nat.ldiff (2 ^ n - 1) m = 2 ^ n - (m % 2 ^ n + 1) := by
  apply Nat.eq_of_testBit_eq
  intro i
  rw [Nat.testBit_ldiff, Nat.testBit_two_pow_sub_one,
    Nat.testBit_two_pow_sub_succ (Nat.mod_lt m (Nat.two_pow_pos n)), Nat.testBit_mod_two_pow]
  by_cases hi : i < n <;> simp [hi]

theorem land_mask (x : Int) (n : Nat) : Int.land x (2 ^ n - 1) = x % 2 ^ n := by
  have hpos : 0 < 2 ^ n := Nat.two_pow_pos n
  rw [← natCast_mask]
  cases x with
  | ofNat m =>
    have hland : Int.land (Int.ofNat m) ((2 ^ n - 1 : Nat) : Int) =
        ((m &&& 2 ^ n - 1 : Nat) : Int) := rfl
    rw [hland, Nat.and_two_pow_sub_one_eq_mod]
    simp
  | negSucc m =>
    -- this is `-(m + 1)`, which has exactly the bits that `m` has not
    have hland : Int.land (Int.negSucc m) ((2 ^ n - 1 : Nat) : Int) =
        (Nat.ldiff (2 ^ n - 1) m : Int) := rfl
    have hlt := Nat.mod_lt m hpos
    rw [hland, ldiff_mask, Int.negSucc_emod m (by exact_mod_cast hpos)]
    push_cast [Nat.succ_le_of_lt hlt]
    omega

/-! The sign bit. -/

theorem xor_two_pow_of_lt {n q : Nat} (h : q < 2 ^ n) : q ^^^ 2 ^ n = q + 2 ^ n := by
  apply Nat.eq_of_testBit_eq
  intro i
  have hsum : q + 2 ^ n = 2 ^ n * 2 ^ 0 + q := by omega
  rw [hsum, Nat.testBit_two_pow_mul_add _ h, Nat.testBit_xor, Nat.testBit_two_pow,
    Nat.testBit_two_pow]
  by_cases hi : i < n
  · simp [hi, Nat.ne_of_gt hi]
  · have hle : 2 ^ n ≤ 2 ^ i := Nat.pow_le_pow_right (by decide) (Nat.le_of_not_lt hi)
    rw [if_neg hi, Nat.testBit_lt_two_pow (Nat.lt_of_lt_of_le h hle), Bool.false_xor]
    exact decide_eq_decide.mpr (by omega)

/-- Flipping the sign bit and taking it away again leaves numbers below it as they are, and moves
the others below zero. -/
theorem xor_sub_of_lt {n q : Nat} (h : q < 2 ^ (n + 1)) :
    ((q ^^^ 2 ^ n : Nat) : Int) - 2 ^ n = signed (n + 1) q := by
  have hpow : (2 : Int) ^ (n + 1) = 2 ^ n * 2 := Int.pow_succ 2 n
  symm
  rw [signed_eq_iff]
  by_cases hq : q < 2 ^ n
  · rw [xor_two_pow_of_lt hq]
    have hcast : (q : Int) < 2 ^ n := by exact_mod_cast hq
    push_cast
    rw [Int.add_sub_cancel]
    exact ⟨by omega, hcast, rfl⟩
  · -- the sign bit is set, so flipping it clears it
    obtain ⟨r, rfl⟩ := Nat.exists_eq_add_of_le (Nat.le_of_not_lt hq)
    have hr : r < 2 ^ n := by omega
    rw [Nat.add_comm (2 ^ n) r, ← xor_two_pow_of_lt hr, Nat.xor_xor_cancel_right,
      xor_two_pow_of_lt hr]
    have hcast : (r : Int) < 2 ^ n := by exact_mod_cast hr
    push_cast
    refine ⟨by omega, by omega, ?_⟩
    rw [← Int.add_emod_right, hpow]
    congr 1
    omega

theorem signed_eq_xor_sub (n : Nat) (x : Int) :
    signed (n + 1) x = Int.xor (Int.land x (2 ^ (n + 1) - 1)) (2 ^ n) - 2 ^ n := by
  have hpos : (0 : Int) < 2 ^ (n + 1) := Int.pow_pos (by decide)
  obtain ⟨q, hq⟩ := Int.eq_ofNat_of_zero_le (Int.emod_nonneg x (Int.ne_of_gt hpos))
  have hlt : q < 2 ^ (n + 1) := by
    have hbound := Int.emod_lt_of_pos x hpos
    rw [hq] at hbound
    exact_mod_cast hbound
  have hxor : Int.xor (q : Int) (2 ^ n) = ((q ^^^ 2 ^ n : Nat) : Int) := by
    have hcast : (2 : Int) ^ n = ((2 ^ n : Nat) : Int) := by push_cast; rfl
    rw [hcast]
    rfl
  rw [land_mask, ← signed_of_emod, hq, hxor, xor_sub_of_lt hlt]

/-- Whether a number fits is whether its two's complement is the number itself. -/
theorem isSigned_succ (n : Nat) (x : Int) :
    isSigned x (n + 1) = .ok (decide (signed (n + 1) x = x)) := by
  have hfits : -modulus n ≤ x ∧ x ≤ modulus n - 1 ↔ signed (n + 1) x = x := by
    rw [signed_eq_iff, natCast_modulus]
    constructor
    · intro h
      exact ⟨h.1, by omega, rfl⟩
    · rintro ⟨hlow, hhigh, -⟩
      exact ⟨hlow, by omega⟩
  have hwidth : ((n : Int) + 1).toNat - 1 = n := by omega
  rw [isSigned, if_neg (by omega), hwidth]
  exact congrArg Except.ok (decide_eq_decide.mpr hfits)

/-! Neighbouring fields. -/

/-- Ranges that cut the bits below `top` into neighbours, from the highest to the lowest. -/
inductive Cuts : (top : Nat) → List (Int × Int) → Prop
  | nil : Cuts 0 []
  | cons {high low : Nat} {ranges : List (Int × Int)} (hle : low ≤ high)
    (hrest : Cuts low ranges) : Cuts (high + 1) ((high, low) :: ranges)

def width (range : Int × Int) : Nat := (range.1 - range.2 + 1).toNat

/-- The bits of a range: they are shifted down and masked, and so they have no sign. -/
structure IsField (value : Int) (range : Int × Int) (part : Int) : Prop where
  masked : part = Int.land (value >>> range.2.toNat) (2 ^ width range - 1)
  bounds : 0 ≤ part ∧ part ≤ 2 ^ width range - 1

def recombine (ranges : List (Int × Int)) (parts : List Int) : Int :=
  (List.zipWith (fun range part => part <<< range.2.toNat) ranges parts).sum

theorem width_natCast {high low : Nat} (h : low ≤ high) :
    width (high, low) = high + 1 - low := by
  rw [width]
  omega

theorem isField_field (value : Int) {high low : Nat} (h : low ≤ high) :
    IsField value (high, low) (field value high low) := by
  have hbounds := field_bounds value high low
  constructor
  · rw [land_mask, width_natCast h, field, natCast_modulus]
    rfl
  · rw [width_natCast h]
    omega

theorem recombine_cons (high low : Nat) (part : Int) (ranges : List (Int × Int))
    (parts : List Int) :
    recombine ((high, low) :: ranges) (part :: parts) =
      part * 2 ^ low + recombine ranges parts := by
  rw [recombine, List.zipWith_cons_cons, List.sum_cons, Int.shiftLeft_eq]
  rfl

/-- The fields of neighbouring ranges make up the number, as far as the ranges reach. -/
theorem fields_of_cuts {top : Nat} {ranges : List (Int × Int)} (h : Cuts top ranges)
    (value : Int) :
    ∃ parts, fields value ranges = .ok parts ∧ List.Forall₂ (IsField value) ranges parts ∧
      recombine ranges parts = value % 2 ^ top := by
  -- down the ranges: each field adds its bits to what the ranges below it make up
  induction h with
  | nil => exact ⟨[], rfl, .nil, (Int.emod_one value).symm⟩
  | @cons high low ranges hle hrest ih =>
    obtain ⟨parts, hparts, hfields, hsum⟩ := ih
    have hvalid : ¬((high : Int) < low ∨ (high : Int) < 0 ∨ (low : Int) < 0) := by omega
    refine ⟨field value high low :: parts, ?_, .cons (isField_field value hle) hfields, ?_⟩
    · rw [fields, if_neg hvalid, hparts]
      rfl
    · rw [recombine_cons, hsum, field_add_emod value high low (by omega)]

/-- Sign extension gives the only number of its width that agrees with `x` modulo the size, by a
mask and a flipped sign bit, and changes exactly the numbers that do not fit. The fields at
neighbouring ranges are numbers without sign that make up the value, as far as the ranges reach. -/
theorem signExtend_unique_and_recombine_fields :
    (∀ x bits : Int, 0 < bits →
      ∃ y, signExtend x bits = .ok y ∧
        (∀ z, z = y ↔ -2 ^ (bits.toNat - 1) ≤ z ∧ z ≤ 2 ^ (bits.toNat - 1) - 1 ∧
          z % 2 ^ bits.toNat = x % 2 ^ bits.toNat) ∧
        isSigned x bits = .ok (decide (y = x)) ∧
        y = Int.xor (Int.land x (2 ^ bits.toNat - 1)) (2 ^ (bits.toNat - 1)) -
          2 ^ (bits.toNat - 1)) ∧
    ∀ (value : Int) (top : Nat) (ranges : List (Int × Int)), Cuts top ranges →
      ∃ parts, fields value ranges = .ok parts ∧ List.Forall₂ (IsField value) ranges parts ∧
        recombine ranges parts = value % 2 ^ top := by
  refine ⟨fun x bits hbits => ?_, fun value top ranges h => fields_of_cuts h value⟩
  obtain ⟨n, rfl⟩ : ∃ n : Nat, bits = n + 1 := ⟨(bits - 1).toNat, by omega⟩
  have hbits : ((n : Int) + 1).toNat = n + 1 := by omega
  refine ⟨signed (n + 1) x, ?_, fun z => ?_, isSigned_succ n x, ?_⟩
  · rw [signExtend, if_neg (by omega), hbits]
  · rw [hbits, Nat.add_sub_cancel, eq_comm, signed_eq_iff]
    constructor
    · rintro ⟨hlow, hhigh, hmod⟩
      exact ⟨hlow, by omega, hmod⟩
    · rintro ⟨hlow, hhigh, hmod⟩
      exact ⟨hlow, by omega, hmod⟩
  · rw [hbits]
    exact signed_eq_xor_sub n x

/-- A number one below the range of 16 bits comes out at its upper end, and the lowest eight bits of
-5 are cut into three fields. -/
theorem signExtend_unique_and_recombine_fields_negative :
    (signExtend (-32769) 16 = .ok 32767 ∧ isSigned (-32769) 16 = .ok false ∧
      Int.xor (Int.land (-32769) (2 ^ 16 - 1)) (2 ^ 15) - 2 ^ 15 = 32767) ∧
    Cuts 8 [(7, 5), (4, 1), (0, 0)] ∧ fields (-5) [(7, 5), (4, 1), (0, 0)] = .ok [7, 13, 1] ∧
      recombine [(7, 5), (4, 1), (0, 0)] [7, 13, 1] = 251 := by
  obtain ⟨hextend, hfields⟩ := signExtend_unique_and_recombine_fields
  obtain ⟨y, hy, hunique, hsigned, hxor⟩ := hextend (-32769) 16 (by decide)
  obtain rfl : 32767 = y := (hunique 32767).mpr (by decide)
  have h0 : Cuts 1 [(0, 0)] := .cons (Nat.le_refl 0) .nil
  have h4 : Cuts 5 [(4, 1), (0, 0)] := .cons (by decide : 1 ≤ 4) h0
  have h7 : Cuts 8 [(7, 5), (4, 1), (0, 0)] := .cons (by decide : 5 ≤ 7) h4
  obtain ⟨parts, hparts, -, hsum⟩ := hfields (-5) 8 _ h7
  have hlist : fields (-5) [(7, 5), (4, 1), (0, 0)] = .ok [7, 13, 1] := rfl
  obtain rfl : [7, 13, 1] = parts := Except.ok.inj (hlist.symm.trans hparts)
  exact ⟨⟨hy, hsigned, hxor.symm⟩, h7, hparts, hsum⟩

end Ttk91.Bits
