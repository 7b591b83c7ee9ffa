import Mathlib.Algebra.Group.Nat.Defs
import Ttk91.Text.Decimal
import Ttk91.Text.Basic
import Ttk91.Text.UpperCase
import Ttk91.Source.Operand
import Ttk91.Proofs.WordFields

/-! Decimal numerals read back: as numbers of an image, up to the limit on their digits, and as
literals of a source text, up to 32 bits. -/

namespace Ttk91

namespace Text

/-! ASCII digits. -/

theorem isDigit_iff {c : Char} : c.isDigit = true ↔ 48 ≤ c.toNat ∧ c.toNat ≤ 57 := by
  simp only [Char.isDigit, Bool.and_eq_true, decide_eq_true_eq, UInt32.le_iff_toNat_le]
  rfl

theorem inRanges_eq_false {ranges : List (Nat × Nat)} {c : Char}
    (h : ∀ r ∈ ranges, c.toNat < r.1 ∨ r.2 < c.toNat) : inRanges ranges c = false := by
  rw [inRanges, List.any_eq_false]
  intro r hr
  simp only [Bool.and_eq_true, decide_eq_true_eq]
  rcases h r hr with h | h <;> omega

theorem isBlank_of_graphic {c : Char} (h : 33 ≤ c.toNat ∧ c.toNat ≤ 126) : isBlank c = false := by
  apply inRanges_eq_false
  intro r hr
  simp only [blankRanges, List.mem_cons, List.not_mem_nil, or_false] at hr
  rcases hr with rfl | rfl | rfl | rfl | rfl | rfl | rfl | rfl | rfl | rfl <;>
    simp only <;> omega

theorem isBreak_of_not_isBlank {c : Char} (h : isBlank c = false) : isBreak c = false := by
  cases hb : isBreak c with
  | false => rfl
  | true => rw [isBlank_of_isBreak hb] at h; exact h

theorem isBlank_of_isDigit {c : Char} (h : c.isDigit = true) : isBlank c = false := by
  have hc := isDigit_iff.mp h
  exact isBlank_of_graphic (by omega)

/-- What holds of the characters of a range, one by one, holds of every character in it. -/
theorem of_range {p : Char → Prop} {first count : Nat}
    (h : ∀ n < count, p (Char.ofNat (first + n))) {c : Char}
    (hc : first ≤ c.toNat ∧ c.toNat < first + count) : p c := by
  have hp := h (c.toNat - first) (by omega)
  have hcode : first + (c.toNat - first) = c.toNat := by omega
  rwa [hcode, Char.ofNat_toNat] at hp

theorem of_isDigit {p : Char → Prop} (h : ∀ n < 10, p (Char.ofNat (48 + n))) {c : Char}
    (hc : c.isDigit = true) : p c := by
  have hrange := isDigit_iff.mp hc
  exact of_range h (by omega)

theorem upperChar_of_isDigit {c : Char} (h : c.isDigit = true) : upperChar c = [c] :=
  of_isDigit (p := fun c => upperChar c = [c]) (by decide) h

theorem upper_of_forall {t : Text} (h : ∀ c ∈ t, upperChar c = [c]) : upper t = t := by
  induction t with
  | nil => rfl
  | cons c t ih =>
    have hcons : upper (c :: t) = upperChar c ++ upper t := rfl
    rw [hcons, h c List.mem_cons_self, ih fun d hd => h d (List.mem_cons_of_mem c hd),
      List.singleton_append]

theorem decimalValue?_of_isDigit {c : Char} (h : c.isDigit = true) :
    decimalValue? c = some (c.toNat - 48) := by
  have hc := isDigit_iff.mp h
  have hfirst : (decide (0x30 ≤ c.toNat) && decide (c.toNat < 0x30 + 10)) = true := by
    simp only [Bool.and_eq_true, decide_eq_true_eq]
    omega
  have hfind : decimalZeros.find? (fun z => z ≤ c.toNat && c.toNat < z + 10) = some 0x30 := by
    rw [show decimalZeros = 0x30 :: decimalZeros.tail from rfl]
    exact List.find?_cons_of_pos hfirst
  rw [decimalValue?, hfind, Option.map_some]

/-! The numerals of natural numbers. -/

theorem isDigit_of_mem_ofNat {n : Nat} {c : Char} (h : c ∈ ofNat n) : c.isDigit = true :=
  Nat.isDigit_of_mem_toDigits (by decide) (by decide) h

theorem ne_of_mem_ofNat {n : Nat} {c d : Char} (h : c ∈ ofNat n) (hd : d.isDigit = false) :
    c ≠ d := by
  rintro rfl
  rw [isDigit_of_mem_ofNat h] at hd
  cases hd

theorem ofNat_ne_nil (n : Nat) : ofNat n ≠ [] := Nat.toDigits_ne_nil

theorem exists_ofNat_eq_cons (n : Nat) : ∃ c t, ofNat n = c :: t ∧ c.isDigit = true := by
  obtain ⟨c, t, h⟩ := List.exists_cons_of_ne_nil (ofNat_ne_nil n)
  exact ⟨c, t, h, isDigit_of_mem_ofNat (n := n) (by simp [h])⟩

theorem numeralBound_eq : numeralBound = 10 ^ maxDigits := by
  unfold numeralBound
  generalize maxDigits = digits
  rfl

theorem length_ofNat_le {n : Nat} (h : n < numeralBound) : (ofNat n).length ≤ maxDigits := by
  rw [numeralBound_eq] at h
  exact (Nat.length_toDigits_le_iff (by decide) (by decide)).mpr h

theorem foldl_ofNat (n : Nat) :
    ((ofNat n).map fun c => c.toNat - 48).foldl (fun m d => 10 * m + d) 0 = n := by
  have h : Nat.ofDigitChars 10 (ofNat n) 0 = n := Nat.ofDigitChars_ten_toDigits
  rw [Nat.ofDigitChars_eq_foldl] at h
  rw [List.foldl_map]
  exact h

theorem mapM_eq_some {α β : Type} {f : α → Option β} {g : α → β} {as : List α}
    (h : ∀ a ∈ as, f a = some (g a)) : as.mapM f = some (as.map g) := by
  induction as with
  | nil => rfl
  | cons a as ih =>
    rw [List.mapM_cons, h a List.mem_cons_self, ih fun b hb => h b (List.mem_cons_of_mem a hb)]
    rfl

theorem toNat?_ofNat {n : Nat} (h : n < numeralBound) : toNat? (ofNat n) = some n := by
  have hgroups : pieces (· == '_') (ofNat n) = [ofNat n] := by
    apply pieces_of_all_not
    intro c hc
    exact beq_eq_false_iff_ne.mpr (ne_of_mem_ofNat hc (by decide))
  have hvalues : (ofNat n).mapM decimalValue? = some ((ofNat n).map fun c => c.toNat - 48) :=
    mapM_eq_some fun c hc => decimalValue?_of_isDigit (isDigit_of_mem_ofNat hc)
  have hlen := length_ofNat_le h
  simp only [toNat?, hgroups, List.flatten_cons, List.flatten_nil, List.append_nil, hvalues,
    Option.map_some, ofDigits, foldl_ofNat]
  simp [ofNat_ne_nil, Nat.not_lt.mpr hlen]

/-! The numerals of integers. -/

theorem mem_ofInt {n : Int} {c : Char} (h : c ∈ ofInt n) : c.isDigit = true ∨ c = '-' := by
  cases n with
  | ofNat n => exact Or.inl (isDigit_of_mem_ofNat h)
  | negSucc n =>
    rcases List.mem_cons.mp h with rfl | h
    · exact Or.inr rfl
    · exact Or.inl (isDigit_of_mem_ofNat h)

theorem ofInt_ne_nil (n : Int) : ofInt n ≠ [] := by
  cases n with
  | ofNat n => exact ofNat_ne_nil n
  | negSucc n => simp [ofInt]

theorem graphic_of_mem_ofInt {n : Int} {c : Char} (h : c ∈ ofInt n) :
    45 ≤ c.toNat ∧ c.toNat ≤ 57 := by
  rcases mem_ofInt h with hc | rfl
  · have := isDigit_iff.mp hc
    omega
  · decide

theorem isBlank_of_mem_ofInt {n : Int} {c : Char} (h : c ∈ ofInt n) : isBlank c = false := by
  have hc := graphic_of_mem_ofInt h
  exact isBlank_of_graphic (by omega)

theorem toInt?_ofInt {n : Int} (h : isShowable n = true) : toInt? (ofInt n) = some n := by
  have hn : n.natAbs < numeralBound := by simpa [isShowable] using h
  have htrim : trimBy isNumeralBlank (ofInt n) = ofInt n := by
    apply trimBy_of_all_not
    intro c hc
    rw [isNumeralBlank, isBlank_of_mem_ofInt hc, Bool.false_and]
  rw [toInt?, htrim]
  cases n with
  | negSucc n =>
    have hread := toNat?_ofNat (n := n + 1) hn
    simp only [ofInt, hread]
    rfl
  | ofNat n =>
    have hread := toNat?_ofNat (n := n) hn
    obtain ⟨c, t, hct, hc⟩ := exists_ofNat_eq_cons n
    simp only [ofInt]
    rw [hct] at hread ⊢
    split
    · rename_i heq
      obtain ⟨rfl, -⟩ := List.cons.inj heq
      simp at hc
    · rename_i heq
      obtain ⟨rfl, -⟩ := List.cons.inj heq
      simp at hc
    · rw [hread]
      rfl

theorem isShowable_of_natAbs_lt {n : Int} (h : n.natAbs < 2 ^ 64) : isShowable n = true := by
  have hbound : (2 : Nat) ^ 64 ≤ numeralBound := by
    rw [numeralBound_eq]
    exact Nat.le_trans (by decide : (2 : Nat) ^ 64 ≤ 10 ^ 20)
      (Nat.pow_le_pow_right (by decide) (by decide))
  simpa [isShowable] using Nat.lt_of_lt_of_le h hbound

end Text

namespace Literal

open Text

/-! Literals. -/

theorem digit?_of_isDigit {c : Char} (h : c.isDigit = true) :
    digit? 10 c = some (c.toNat - 48) := by
  have hc := isDigit_iff.mp h
  have hlt : c.toNat - 48 < 10 := by omega
  simp [digit?, hc, hlt]

theorem toLower_of_isDigit {c : Char} (h : c.isDigit = true) : c.toLower = c :=
  of_isDigit (p := fun c => c.toLower = c) (by decide) h

theorem splitRadix_of_forall {t : Text} (h : ∀ c ∈ t, c ≠ 'b' ∧ c ≠ 'o' ∧ c ≠ 'x') :
    splitRadix t = (10, t) := by
  fun_cases splitRadix t with
  | case1 t => exact absurd rfl (h 'b' (by simp)).1
  | case2 t => exact absurd rfl (h 'o' (by simp)).2.1
  | case3 t => exact absurd rfl (h 'x' (by simp)).2.2
  | case4 => rfl

theorem splitRadix_ofNat (n : Nat) : splitRadix (ofNat n) = (10, ofNat n) :=
  splitRadix_of_forall fun _ hc =>
    ⟨ne_of_mem_ofNat hc (by decide), ne_of_mem_ofNat hc (by decide),
      ne_of_mem_ofNat hc (by decide)⟩

theorem dropPlus_of_forall {t : Text} (h : ∀ c ∈ t, c ≠ '+') : dropPlus t = t := by
  fun_cases dropPlus t with
  | case1 t => exact absurd rfl (h '+' (by simp))
  | case2 => rfl

theorem dropPlus_ofNat (n : Nat) : dropPlus (ofNat n) = ofNat n :=
  dropPlus_of_forall fun _ hc => ne_of_mem_ofNat hc (by decide)

theorem magnitude_ofNat (token : Text) {n : Nat} (h : n ≤ 0xFFFFFFFF) :
    magnitude token (ofNat n) = .ok n := by
  have hvalues : (ofNat n).mapM (digit? 10) = some ((ofNat n).map fun c => c.toNat - 48) :=
    mapM_eq_some fun c hc => digit?_of_isDigit (isDigit_of_mem_ofNat hc)
  have hvalue : value? 10 (ofNat n) = some n := by
    simp only [value?, List.isEmpty_iff, ofNat_ne_nil, if_false, hvalues, Option.map_some,
      foldl_ofNat]
  have hlen : (ofNat n).length ≤ maxDigits := by
    have hshow : isShowable n = true := isShowable_of_natAbs_lt (by omega)
    exact length_ofNat_le (by simpa [isShowable] using hshow)
  simp only [magnitude, splitRadix_ofNat, dropPlus_ofNat, hvalue]
  simp [Nat.not_lt.mpr hlen, Nat.not_lt.mpr h]

theorem integer_ofInt {n : Int} (h : -2 ^ 31 ≤ n ∧ n < 2 ^ 31) : integer (ofInt n) = .ok n := by
  cases n with
  | negSucc n =>
    have hmag := magnitude_ofNat (ofInt (.negSucc n)) (n := n + 1) (by omega)
    have hsigned : Bits.signed 32 (-((n + 1 : Nat) : Int)) = .negSucc n :=
      Bits.signed_of_bounds (n := 31) h
    simp only [ofInt] at hmag ⊢
    rw [integer, hmag]
    exact congrArg Except.ok hsigned
  | ofNat n =>
    have hn : (n : Int) < 2 ^ 31 := h.2
    have hmag := magnitude_ofNat (ofNat n) (n := n) (by omega)
    have hsigned : Bits.signed 32 n = n := Bits.signed_of_bounds (n := 31) h
    have hlower : (ofNat n).map Char.toLower = ofNat n := by
      have hsame : ∀ c ∈ ofNat n, c.toLower = id c := fun c hc =>
        toLower_of_isDigit (isDigit_of_mem_ofNat hc)
      rw [List.map_congr_left hsame, List.map_id]
    obtain ⟨c, t, hct, hc⟩ := exists_ofNat_eq_cons n
    simp only [ofInt, integer]
    split
    · rename_i heq
      rw [hct] at heq
      obtain ⟨rfl, -⟩ := List.cons.inj heq
      simp at hc
    · rw [hlower, hmag]
      exact congrArg Except.ok hsigned

theorem mem_constants_of_constant? {name : Text} {n : Int} (h : constant? name = some n) :
    (name, n) ∈ constants := by
  obtain ⟨before, after, heq, -⟩ := List.lookup_eq_some_iff.mp h
  simp [heq]

theorem constant?_ofInt (n : Int) : constant? (ofInt n) = none := by
  cases h : constant? (ofInt n) with
  | none => rfl
  | some value =>
    have hletter : ∀ entry ∈ constants, entry.1.any (fun c => 57 < c.toNat) = true := by decide
    obtain ⟨c, hc, hlt⟩ := List.any_eq_true.mp (hletter _ (mem_constants_of_constant? h))
    have hle := (graphic_of_mem_ofInt hc).2
    simp only [decide_eq_true_eq] at hlt
    omega

end Literal
end Ttk91
