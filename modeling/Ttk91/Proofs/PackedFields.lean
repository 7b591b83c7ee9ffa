import Ttk91.Proofs.BitOperations

/-! Packing fields into words and splitting words into fields. The five fields are next to each
other and have no bit in common, so laying them over each other loses nothing but what does not fit
into a field, and splitting a word never meets a value that is out of range. -/

namespace Ttk91

namespace Bits

/-- Laying numbers without common bits over each other adds them. -/
theorem lor_of_dvd {high low : Int} {k : Nat} (hhigh : 0 ≤ high) (hdvd : 2 ^ k ∣ high)
    (hlow : 0 ≤ low ∧ low < 2 ^ k) : Int.lor high low = high + low := by
  obtain ⟨q, rfl⟩ := hdvd
  have hpos : (0 : Int) < 2 ^ k := Int.pow_pos (by decide)
  obtain ⟨a, rfl⟩ := Int.eq_ofNat_of_zero_le (Int.nonneg_of_mul_nonneg_right hhigh hpos)
  obtain ⟨b, rfl⟩ := Int.eq_ofNat_of_zero_le hlow.1
  have hb : b < 2 ^ k := by exact_mod_cast hlow.2
  have hcast : (2 : Int) ^ k * a = ((2 ^ k * a : Nat) : Int) := by push_cast; rfl
  have hor : Int.lor ((2 ^ k * a : Nat) : Int) (b : Int) = ((2 ^ k * a ||| b : Nat) : Int) := rfl
  rw [hcast, hor, ← Nat.two_pow_add_eq_or_of_lt hb, Int.natCast_add]

theorem field_emod (value : Int) {high low n : Nat} (hle : low ≤ high + 1) (hn : high + 1 ≤ n) :
    field (value % 2 ^ n) high low = field value high low := by
  have hpos : (0 : Int) < 2 ^ low := Int.pow_pos (by decide)
  have hwhole := field_add_emod value high low hle
  have hcut := field_add_emod (value % 2 ^ n) high low hle
  rw [Int.emod_emod_of_dvd value (pow_dvd_pow 2 hn),
    Int.emod_emod_of_dvd value (pow_dvd_pow 2 (Nat.le_trans hle hn)), ← hwhole] at hcut
  exact Int.eq_of_mul_eq_mul_right (Int.ne_of_gt hpos) (by omega)

end Bits

theorem Register.ofInt_of_bounds {n : Int} (h : 0 ≤ n ∧ n < 8) :
    Register.ofInt n = .ok (Register.ofNat n.toNat) := by
  rw [Register.ofInt, dif_pos h]
  congr 1
  apply Fin.ext
  simp only [Register.ofNat, Fin.val_ofNat]
  omega

namespace Fields

/-! Splitting. -/

/-- The ranges of the fields in a word, from the operation code down to the address. -/
def ranges : List (Int × Int) := [(31, 24), (23, 21), (20, 19), (18, 16), (15, 0)]

/-- The fields as they are read one after the other, by operations that refuse what is out of range:
the bits of the ranges, two registers by their numbers, and the sign of the address. -/
def Decodes (word : Int) (f : Fields) : Prop :=
  ∃ first index address : Int,
    Bits.fields (Bits.unsigned 32 word) ranges = .ok [f.opcode, first, f.mode, index, address] ∧
    Register.ofInt first = .ok f.first ∧ Register.ofInt index = .ok f.index ∧
    Bits.signExtend address 16 = .ok f.address

theorem field_unsigned (word : Int) {high low : Nat} (hle : low ≤ high) (hhigh : high < 32) :
    Bits.field (Bits.unsigned 32 word) high low = Bits.field word high low := by
  rw [Bits.unsigned_eq]
  exact Bits.field_emod word (by omega) (by omega)

theorem ofWord_unsigned (word : Int) : ofWord (Bits.unsigned 32 word) = ofWord word := by
  simp (disch := decide) only [ofWord, field_unsigned]

theorem decodes_ofWord (word : Int) : Decodes word (ofWord word) := by
  rw [← ofWord_unsigned]
  exact ⟨Bits.field (Bits.unsigned 32 word) 23 21, Bits.field (Bits.unsigned 32 word) 18 16,
    Bits.field (Bits.unsigned 32 word) 15 0, rfl,
    Register.ofInt_of_bounds (Bits.field_bounds _ 23 21),
    Register.ofInt_of_bounds (Bits.field_bounds _ 18 16), rfl⟩

/-! Packing. -/

/-- Five numbers, each masked to the width of its field and shifted to its place, laid over each
other. -/
def overlay (opcode first mode index address : Int) : Int :=
  Int.lor (Int.lor (Int.lor (Int.lor
    (Int.land opcode 0xFF <<< (24 : Nat)) (Int.land first 0x7 <<< (21 : Nat)))
    (Int.land mode 0x3 <<< (19 : Nat))) (Int.land index 0x7 <<< (16 : Nat)))
    (Int.land address 0xFFFF)

/-- No field reaches into the one above it. -/
theorem overlay_eq_add (opcode first mode index address : Int) :
    overlay opcode first mode index address =
      opcode % 2 ^ 8 * 2 ^ 24 + first % 2 ^ 3 * 2 ^ 21 + mode % 2 ^ 2 * 2 ^ 19 +
        index % 2 ^ 3 * 2 ^ 16 + address % 2 ^ 16 := by
  have hopcode : Int.land opcode 0xFF = opcode % 2 ^ 8 := Bits.land_mask opcode 8
  have hfirst : Int.land first 0x7 = first % 2 ^ 3 := Bits.land_mask first 3
  have hmode : Int.land mode 0x3 = mode % 2 ^ 2 := Bits.land_mask mode 2
  have hindex : Int.land index 0x7 = index % 2 ^ 3 := Bits.land_mask index 3
  have haddress : Int.land address 0xFFFF = address % 2 ^ 16 := Bits.land_mask address 16
  -- from the highest field down: what is already laid out ends where the next field begins
  have h24 : Int.lor (opcode % 2 ^ 8 * 2 ^ 24) (first % 2 ^ 3 * 2 ^ 21) = _ :=
    Bits.lor_of_dvd (k := 24) (by omega) (by omega) (by omega)
  have h21 : Int.lor (opcode % 2 ^ 8 * 2 ^ 24 + first % 2 ^ 3 * 2 ^ 21)
      (mode % 2 ^ 2 * 2 ^ 19) = _ :=
    Bits.lor_of_dvd (k := 21) (by omega) (by omega) (by omega)
  have h19 : Int.lor (opcode % 2 ^ 8 * 2 ^ 24 + first % 2 ^ 3 * 2 ^ 21 + mode % 2 ^ 2 * 2 ^ 19)
      (index % 2 ^ 3 * 2 ^ 16) = _ :=
    Bits.lor_of_dvd (k := 19) (by omega) (by omega) (by omega)
  rw [overlay, hopcode, hfirst, hmode, hindex, haddress]
  simp only [Int.shiftLeft_eq]
  rw [h24, h21, h19]
  exact Bits.lor_of_dvd (k := 16) (by omega) (by omega) (by omega)

theorem pack_eq_overlay (opcode first mode index address : Int) :
    pack opcode first mode index address =
      Bits.signed 32 (overlay opcode first mode index address) := by
  rw [overlay_eq_add, pack]
  simp only [Bits.unsigned_eq]
  rfl

/-- The fields that five numbers leave, cut to their widths. The address keeps a sign. -/
structure CutFrom (f : Fields) (opcode first mode index address : Int) : Prop where
  opcode : f.opcode = opcode % 2 ^ 8
  first : (f.first.val : Int) = first % 2 ^ 3
  mode : f.mode = mode % 2 ^ 2
  index : (f.index.val : Int) = index % 2 ^ 3
  address : -2 ^ 15 ≤ f.address ∧ f.address ≤ 2 ^ 15 - 1 ∧ f.address % 2 ^ 16 = address % 2 ^ 16

/-- A word takes only as much of each number as fits into its field. -/
theorem pack_emod (opcode first mode index address : Int) :
    pack (opcode % 2 ^ 8) (first % 2 ^ 3) (mode % 2 ^ 2) (index % 2 ^ 3) address =
      pack opcode first mode index address := by
  simp only [pack, Bits.unsigned_eq, Int.emod_emod]

theorem cutFrom_ofWord_pack (opcode first mode index address : Int) :
    (ofWord (pack opcode first mode index address)).CutFrom opcode first mode index address := by
  have hfirst : ((Register.ofNat (first % 2 ^ 3).toNat).val : Int) = first % 2 ^ 3 :=
    val_ofNat_toNat (by omega)
  have hindex : ((Register.ofNat (index % 2 ^ 3).toNat).val : Int) = index % 2 ^ 3 :=
    val_ofNat_toNat (by omega)
  have hopcode : 0 ≤ opcode % 2 ^ 8 ∧ opcode % 2 ^ 8 < 256 := by omega
  have hmode : 0 ≤ mode % 2 ^ 2 ∧ mode % 2 ^ 2 < 4 := by omega
  have hfields := ofWord_pack (Register.ofNat (first % 2 ^ 3).toNat)
    (Register.ofNat (index % 2 ^ 3).toNat) address hopcode hmode
  rw [hfirst, hindex, pack_emod] at hfields
  have haddress := Bits.signed_bounds 15 address
  rw [hfields]
  exact ⟨rfl, hfirst, rfl, hindex, haddress.1, Int.le_sub_one_of_lt haddress.2,
    Bits.signed_emod 16 address⟩

/-- Packing and splitting undo each other on all integers. Splitting a packed word gives the numbers
that went in, each cut to its width, and packing the fields of a word gives the word, cut to 32 bits
with a sign. Packing lays the fields over each other, and splitting reads them where they lie. -/
theorem pack_split_inverse :
    (∀ opcode first mode index address : Int,
      (ofWord (pack opcode first mode index address)).CutFrom opcode first mode index address ∧
      pack opcode first mode index address =
        Bits.signed 32 (overlay opcode first mode index address)) ∧
    ∀ word : Int,
      (ofWord word).toWord = Bits.signed 32 word ∧
      (-2 ^ 31 ≤ Bits.signed 32 word ∧ Bits.signed 32 word ≤ 2 ^ 31 - 1 ∧
        Bits.signed 32 word % 2 ^ 32 = word % 2 ^ 32) ∧
      Decodes word (ofWord word) := by
  constructor
  · intro opcode first mode index address
    exact ⟨cutFrom_ofWord_pack .., pack_eq_overlay ..⟩
  · intro word
    have hbounds := Bits.signed_bounds 31 word
    exact ⟨toWord_ofWord word, ⟨hbounds.1, Int.le_sub_one_of_lt hbounds.2,
      Bits.signed_emod 32 word⟩, decodes_ofWord word⟩

end Fields
end Ttk91
