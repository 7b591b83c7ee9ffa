import Ttk91.Proofs.Numeral
import Ttk91.Source.Statement

/-! Upper-case forms are stable: no character of an upper-case form has another upper-case form. So
a word is of the same kind as its upper-case form, and a keyword in upper case is spelled as the
tables spell it. -/

namespace Ttk91

namespace Text

/-! The codes that change, and the codes that they change to. -/

def CaseRange.codes (r : CaseRange) : List Nat :=
  (List.range ((r.last - r.first) / r.stride + 1)).map fun k => r.first + r.stride * k

theorem CaseRange.mem_codes {r : CaseRange} {n : Nat} (h : r.covers n = true) : n ∈ r.codes := by
  simp only [covers, Bool.and_eq_true, decide_eq_true_eq, beq_iff_eq] at h
  obtain ⟨⟨hfirst, hlast⟩, hmod⟩ := h
  have hdiv := Nat.div_add_mod (n - r.first) r.stride
  refine List.mem_map.mpr ⟨(n - r.first) / r.stride, List.mem_range.mpr ?_, by omega⟩
  exact Nat.lt_succ_of_le (Nat.div_le_div_right (by omega))

def changedCodes : List Nat :=
  caseExpansions.map Prod.fst ++ caseRanges.flatMap CaseRange.codes

def formCodes : List Nat :=
  caseExpansions.flatMap Prod.snd ++
    caseRanges.flatMap fun r => r.codes.map fun n : Nat => ((n : Int) + r.shift).toNat

theorem upperCodes_of_not_mem {n : Nat} (h : n ∉ changedCodes) : upperCodes n = [n] := by
  simp only [changedCodes, List.mem_append, List.mem_map, List.mem_flatMap, not_or, not_exists,
    not_and] at h
  have hlookup : caseExpansions.lookup n = none := by
    rw [List.lookup_eq_none_iff]
    intro entry hentry
    simpa using Ne.symm (h.1 entry hentry)
  have hfind : caseRanges.find? (·.covers n) = none := by
    rw [List.find?_eq_none]
    exact fun r hr hcovers => h.2 r hr (CaseRange.mem_codes hcovers)
  rw [upperCodes, hlookup, hfind]

theorem mem_upperCodes {n m : Nat} (h : m ∈ upperCodes n) :
    m ∈ formCodes ∨ m = n ∧ upperCodes n = [n] := by
  cases hlookup : caseExpansions.lookup n with
  | some codes =>
    obtain ⟨before, after, hsplit, -⟩ := List.lookup_eq_some_iff.mp hlookup
    have hentry : (n, codes) ∈ caseExpansions := by simp [hsplit]
    rw [upperCodes, hlookup] at h
    exact Or.inl (List.mem_append_left _ (List.mem_flatMap.mpr ⟨_, hentry, h⟩))
  | none =>
    cases hfind : caseRanges.find? (·.covers n) with
    | some r =>
      have hcovers : r.covers n = true := by simpa using List.find?_some hfind
      rw [upperCodes, hlookup, hfind, List.mem_singleton] at h
      refine Or.inl (List.mem_append_right _ (List.mem_flatMap.mpr ?_))
      exact ⟨r, List.mem_of_find?_eq_some hfind, List.mem_map.mpr ⟨n, CaseRange.mem_codes hcovers, h.symm⟩⟩
    | none =>
      have hsame : upperCodes n = [n] := by rw [upperCodes, hlookup, hfind]
      rw [hsame, List.mem_singleton] at h
      exact Or.inr ⟨h, hsame⟩

/-! The two sets of codes have no member in common. Each becomes the bits of one number, so that
one conjunction of numbers compares all their members. -/

def codeMask (codes : List Nat) : Nat := codes.foldr (fun n mask => 1 <<< n ||| mask) 0

theorem testBit_codeMask (codes : List Nat) (n : Nat) :
    (codeMask codes).testBit n = true ↔ n ∈ codes := by
  induction codes with
  | nil => simp [codeMask]
  | cons m codes ih =>
    have hcons : codeMask (m :: codes) = 1 <<< m ||| codeMask codes := rfl
    rw [hcons, Nat.testBit_or, Nat.one_shiftLeft, Nat.testBit_two_pow, Bool.or_eq_true, ih,
      decide_eq_true_eq, List.mem_cons, eq_comm]

theorem not_mem_of_codeMask {codes others : List Nat} (h : codeMask codes &&& codeMask others = 0)
    {n : Nat} (hn : n ∈ codes) : n ∉ others := by
  intro hother
  have hbit : (codeMask codes &&& codeMask others).testBit n = true := by
    rw [Nat.testBit_and, (testBit_codeMask codes n).mpr hn, (testBit_codeMask others n).mpr hother]
    rfl
  rw [h, Nat.zero_testBit] at hbit
  cases hbit

theorem formCodes_apart : codeMask formCodes &&& codeMask changedCodes = 0 := by decide +kernel

theorem formCodes_valid :
    formCodes.all (fun n => (0x7A < n && n < 0xD800) || n < 0x61 || (0xDFFF < n && n < 0x110000)) =
      true := by decide +kernel

theorem toNat_ofNat_of_mem {n : Nat} (h : n ∈ formCodes) : (Char.ofNat n).toNat = n := by
  have hvalid := List.all_eq_true.mp formCodes_valid n h
  simp only [Bool.or_eq_true, Bool.and_eq_true, decide_eq_true_eq] at hvalid
  have hchar : n.isValidChar := by
    rw [Nat.isValidChar]
    omega
  rw [Char.ofNat, dif_pos hchar]
  rfl

theorem toUpper_of_not_small {c : Char} (h : c.toNat < 0x61 ∨ 0x7A < c.toNat) : c.toUpper = c := by
  refine dif_neg fun hsmall => ?_
  have hlow : 0x61 ≤ c.toNat := hsmall.1
  have hhigh : c.toNat ≤ 0x7A := hsmall.2
  omega

theorem upperChar_of_mem_formCodes {n : Nat} (h : n ∈ formCodes) :
    upperChar (Char.ofNat n) = [Char.ofNat n] := by
  have hcode := toNat_ofNat_of_mem h
  have hvalid := List.all_eq_true.mp formCodes_valid n h
  simp only [Bool.or_eq_true, Bool.and_eq_true, decide_eq_true_eq] at hvalid
  by_cases hascii : n < 0x80
  · rw [upperChar_of_ascii (by omega), toUpper_of_not_small (by omega)]
  · have hsame := upperCodes_of_not_mem (not_mem_of_codeMask formCodes_apart h)
    rw [upperChar, hcode, if_neg hascii, hsame, List.map_singleton]

/-! Texts. -/

theorem upperChar_of_mem_upperChar {c d : Char} (h : d ∈ upperChar c) : upperChar d = [d] := by
  by_cases hascii : c.toNat < 0x80
  · have hstable : ∀ n < 0x80, upperChar (Char.ofNat (0 + n)).toUpper =
        [(Char.ofNat (0 + n)).toUpper] := by decide +kernel
    rw [upperChar_of_ascii hascii, List.mem_singleton] at h
    rw [h]
    exact of_range (p := fun c => upperChar c.toUpper = [c.toUpper]) hstable (by omega)
  · rw [upperChar, if_neg hascii] at h
    obtain ⟨n, hn, rfl⟩ := List.mem_map.mp h
    rcases mem_upperCodes hn with hform | ⟨rfl, hsame⟩
    · exact upperChar_of_mem_formCodes hform
    · rw [Char.ofNat_toNat, upperChar, if_neg hascii, hsame, List.map_singleton, Char.ofNat_toNat]

/-- Upper case is stable, whatever the script. -/
@[simp] theorem upper_upper (t : Text) : upper (upper t) = upper t := by
  apply upper_of_forall
  intro d hd
  obtain ⟨c, -, hc⟩ := List.mem_flatMap.mp hd
  exact upperChar_of_mem_upperChar hc

end Text

/-! Keywords. -/

namespace WordKind

theorem ofWord_upper (word : Text) : ofWord (Text.upper word) = ofWord word := by
  simp only [ofWord, Text.upper_upper]

end WordKind
end Ttk91
