import Mathlib.Algebra.Group.Int.Defs
import Ttk91.Machine

/-! Words and their fields: what two's complement leaves of a number, and why the fields of a word
give the word back. -/

namespace Ttk91

namespace Bits

theorem natCast_modulus (bits : Nat) : (modulus bits : Int) = 2 ^ bits := by
  rw [modulus, Nat.pow_eq, Int.natCast_pow]
  rfl

theorem unsigned_eq (bits : Nat) (x : Int) : unsigned bits x = x % 2 ^ bits := by
  rw [unsigned, natCast_modulus]

theorem signed_bounds (n : Nat) (x : Int) :
    -2 ^ n ≤ signed (n + 1) x ∧ signed (n + 1) x < 2 ^ n := by
  have hpos : 0 < modulus (n + 1) := Nat.two_pow_pos (n + 1)
  have hle := Int.le_bmod (x := x) hpos
  have hlt := Int.bmod_lt (x := x) hpos
  rw [natCast_modulus, Int.pow_succ] at hle hlt
  rw [signed]
  omega

theorem signed_of_bounds {n : Nat} {x : Int} (h : -2 ^ n ≤ x ∧ x < 2 ^ n) :
    signed (n + 1) x = x := by
  have hpow : (modulus (n + 1) : Int) = 2 ^ n * 2 := by rw [natCast_modulus, Int.pow_succ]
  apply Int.bmod_eq_of_le
  · rw [hpow]
    omega
  · rw [hpow]
    omega

theorem signed_word (x : Int) :
    signed 32 x = x % 2 ^ 32 ∨ signed 32 x = x % 2 ^ 32 - 2 ^ 32 := by
  have hdef := Int.bmod_def x (modulus 32)
  rw [natCast_modulus] at hdef
  rw [signed]
  split at hdef
  · exact Or.inl hdef
  · exact Or.inr hdef

theorem signed_emod (bits : Nat) (x : Int) : signed bits x % 2 ^ bits = x % 2 ^ bits := by
  rw [signed, ← natCast_modulus]
  exact Int.bmod_emod

theorem signed_of_emod (bits : Nat) (x : Int) : signed bits (x % 2 ^ bits) = signed bits x := by
  rw [← natCast_modulus]
  exact Int.emod_bmod x (modulus bits)

/-- Two's complement gives the only number in its range that agrees with `x` modulo its size. -/
theorem signed_eq_iff {n : Nat} {x y : Int} :
    signed (n + 1) x = y ↔ -2 ^ n ≤ y ∧ y < 2 ^ n ∧ y % 2 ^ (n + 1) = x % 2 ^ (n + 1) := by
  constructor
  · rintro rfl
    exact ⟨(signed_bounds n x).1, (signed_bounds n x).2, signed_emod (n + 1) x⟩
  · rintro ⟨hlow, hhigh, hmod⟩
    rw [← signed_of_emod, ← hmod, signed_of_emod, signed_of_bounds ⟨hlow, hhigh⟩]

theorem signed_address {a : Int} (h : -32768 ≤ a ∧ a ≤ 65535) :
    signed 16 a = if a ≤ 32767 then a else a - 65536 := by
  split
  · exact signed_of_bounds (n := 15) (by omega)
  · have hmod := signed_emod 16 a
    have hbounds : -2 ^ 15 ≤ signed 16 a ∧ signed 16 a < 2 ^ 15 := signed_bounds 15 a
    omega

theorem field_eq (value : Int) (high low : Nat) :
    field value high low = value / 2 ^ low % 2 ^ (high + 1 - low) := by
  rw [field, natCast_modulus, Int.shiftRight_eq_div_pow, Int.natCast_pow]
  rfl

theorem field_bounds (value : Int) (high low : Nat) :
    0 ≤ field value high low ∧ field value high low < 2 ^ (high + 1 - low) := by
  have hpos : (0 : Int) < 2 ^ (high + 1 - low) := Int.pow_pos (by decide)
  rw [field_eq]
  exact ⟨Int.emod_nonneg _ (Int.ne_of_gt hpos), Int.emod_lt_of_pos _ hpos⟩

theorem unsigned_field (value : Int) (high low : Nat) :
    unsigned (high + 1 - low) (field value high low) = field value high low := Int.emod_emod _ _

theorem field_add_emod (value : Int) (high low : Nat) (h : low ≤ high + 1) :
    field value high low * 2 ^ low + value % 2 ^ low = value % 2 ^ (high + 1) := by
  obtain ⟨width, hwidth⟩ := Nat.exists_eq_add_of_le h
  have hpos : (0 : Int) ≤ 2 ^ low := Int.le_of_lt (Int.pow_pos (by decide))
  rw [field_eq, hwidth, Nat.add_sub_cancel_left, Int.pow_add, Int.emod_def, Int.emod_def,
    Int.emod_def, Int.ediv_ediv_of_nonneg hpos]
  grind

end Bits

namespace Fields

theorem pack_bounds (opcode first mode index address : Int) :
    -2 ^ 31 ≤ pack opcode first mode index address ∧
      pack opcode first mode index address < 2 ^ 31 := Bits.signed_bounds 31 _

theorem val_ofNat_toNat {x : Int} (h : 0 ≤ x ∧ x < 8) :
    ((Register.ofNat x.toNat).val : Int) = x := by
  simp only [Register.ofNat, Fin.val_ofNat]
  omega

theorem ofWord_mode_bounds (word : Int) : 0 ≤ (ofWord word).mode ∧ (ofWord word).mode < 4 :=
  Bits.field_bounds word 20 19

theorem ofWord_address_bounds (word : Int) :
    -2 ^ 15 ≤ (ofWord word).address ∧ (ofWord word).address < 2 ^ 15 := Bits.signed_bounds 15 _

/-- Putting the fields of a word together gives the word, cut to 32 bits. -/
theorem toWord_ofWord (word : Int) : (ofWord word).toWord = Bits.signed 32 word := by
  have hopcode : Bits.unsigned 8 (ofWord word).opcode = Bits.field word 31 24 :=
    Bits.unsigned_field word 31 24
  have hfirst : Bits.unsigned 3 (ofWord word).first.val = Bits.field word 23 21 := by
    simp only [ofWord, val_ofNat_toNat (Bits.field_bounds word 23 21)]
    exact Bits.unsigned_field word 23 21
  have hmode : Bits.unsigned 2 (ofWord word).mode = Bits.field word 20 19 :=
    Bits.unsigned_field word 20 19
  have hindex : Bits.unsigned 3 (ofWord word).index.val = Bits.field word 18 16 := by
    simp only [ofWord, val_ofNat_toNat (Bits.field_bounds word 18 16)]
    exact Bits.unsigned_field word 18 16
  have haddress : Bits.unsigned 16 (ofWord word).address = word % 2 ^ 16 := by
    have hlow := Bits.field_add_emod word 15 0 (by decide)
    rw [Bits.unsigned_eq]
    simp only [ofWord, Bits.signed_emod]
    omega
  have hsum : Bits.field word 31 24 * 0x1000000 + Bits.field word 23 21 * 0x200000 +
      Bits.field word 20 19 * 0x80000 + Bits.field word 18 16 * 0x10000 + word % 2 ^ 16 =
      word % 2 ^ 32 := by
    have h31 := Bits.field_add_emod word 31 24 (by decide)
    have h23 := Bits.field_add_emod word 23 21 (by decide)
    have h20 := Bits.field_add_emod word 20 19 (by decide)
    have h18 := Bits.field_add_emod word 18 16 (by decide)
    simp only [Nat.reduceAdd] at h31 h23 h20 h18
    rw [← h31, ← h23, ← h20, ← h18]
    simp only [Int.add_assoc]
    rfl
  rw [toWord, pack, hopcode, hfirst, hmode, hindex, haddress, hsum, Bits.signed_of_emod]

/-- The fields of a packed word are the ones that went in; the address gets a sign. -/
theorem ofWord_pack {opcode mode : Int} (first index : Register) (address : Int)
    (hopcode : 0 ≤ opcode ∧ opcode < 256) (hmode : 0 ≤ mode ∧ mode < 4) :
    ofWord (pack opcode first.val mode index.val address) =
      ⟨opcode, first, mode, index, Bits.signed 16 address⟩ := by
  have hword := Bits.signed_word (Bits.unsigned 8 opcode * 0x1000000 +
    Bits.unsigned 3 first.val * 0x200000 + Bits.unsigned 2 mode * 0x80000 +
    Bits.unsigned 3 index.val * 0x10000 + Bits.unsigned 16 address)
  rw [← pack] at hword
  generalize pack opcode first.val mode index.val address = word at hword
  simp only [Bits.unsigned_eq] at hword
  have hf := first.isLt
  have hi := index.isLt
  have hrest : Bits.field word 15 0 = address % 2 ^ 16 := by
    rw [Bits.field_eq]
    omega
  have h31 : Bits.field word 31 24 = opcode := by
    rw [Bits.field_eq]
    omega
  have h23 : Bits.field word 23 21 = first.val := by
    rw [Bits.field_eq]
    omega
  have h20 : Bits.field word 20 19 = mode := by
    rw [Bits.field_eq]
    omega
  have h18 : Bits.field word 18 16 = index.val := by
    rw [Bits.field_eq]
    omega
  simp only [ofWord, h31, h23, h20, h18, hrest, Bits.signed_of_emod, mk.injEq, true_and, and_true]
  exact ⟨Fin.ext (by simp [Register.ofNat]), Fin.ext (by simp [Register.ofNat])⟩

theorem ofWord_toWord {f : Fields} (hopcode : 0 ≤ f.opcode ∧ f.opcode < 256)
    (hmode : 0 ≤ f.mode ∧ f.mode < 4) (haddress : -2 ^ 15 ≤ f.address ∧ f.address < 2 ^ 15) :
    ofWord f.toWord = f := by
  rw [toWord, ofWord_pack _ _ _ hopcode hmode, Bits.signed_of_bounds haddress]

end Fields
end Ttk91
