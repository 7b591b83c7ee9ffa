import Ttk91.Proofs.NormalForm

/-! The grammar of integer literals, said with a table of the digits. A text is read as a number if
and only if it is spelled so, and the number is the one of 32 bits with sign that its digits come
to. -/

namespace Ttk91

namespace Literal

/-! Radixes and their digits. -/

inductive Radix
  | binary
  | octal
  | decimal
  | hexadecimal
  deriving DecidableEq, Repr

namespace Radix

def base : Radix → Nat
  | binary => 2
  | octal => 8
  | decimal => 10
  | hexadecimal => 16

def mark : Radix → Text
  | binary => ['0', 'b']
  | octal => ['0', 'o']
  | decimal => []
  | hexadecimal => ['0', 'x']

def capitalMark : Radix → Text
  | binary => ['0', 'B']
  | octal => ['0', 'O']
  | decimal => []
  | hexadecimal => ['0', 'X']

theorem base_le (radix : Radix) : radix.base ≤ 16 := by
  cases radix <;> decide

end Radix

def smallDigits : Text := "0123456789abcdef".toList

def capitalDigits : Text := "0123456789ABCDEF".toList

/-- The character `c` is the digit `d` of a radix. -/
def IsDigit (radix : Radix) (c : Char) (d : Nat) : Prop :=
  d < radix.base ∧ (smallDigits[d]? = some c ∨ capitalDigits[d]? = some c)

theorem digit?_sixteen {c : Char} {d : Nat} :
    digit? 16 c = some d ↔ smallDigits[d]? = some c ∨ capitalDigits[d]? = some c := by
  constructor
  · intro h
    simp only [digit?, Option.ite_none_right_eq_some, Option.some.injEq] at h
    obtain ⟨hlt, rfl⟩ := h
    revert hlt
    split
    · intro _
      exact Or.inl (Text.of_range (p := fun c => smallDigits[c.toNat - 48]? = some c)
        (by decide) (show 48 ≤ c.toNat ∧ c.toNat < 48 + 10 by omega))
    · split
      · intro _
        exact Or.inl (Text.of_range (p := fun c => smallDigits[c.toNat - 87]? = some c)
          (by decide) (show 97 ≤ c.toNat ∧ c.toNat < 97 + 6 by omega))
      · split
        · intro _
          exact Or.inr (Text.of_range (p := fun c => capitalDigits[c.toNat - 55]? = some c)
            (by decide) (show 65 ≤ c.toNat ∧ c.toNat < 65 + 6 by omega))
        · intro hlt
          omega
  · have hsmall : ∀ d < smallDigits.length, (smallDigits[d]?).bind (digit? 16) = some d := by
      decide
    have hcapital : ∀ d < capitalDigits.length,
        (capitalDigits[d]?).bind (digit? 16) = some d := by
      decide
    rintro (hc | hc)
    · simpa [hc] using hsmall d (List.getElem?_eq_some_iff.mp hc).1
    · simpa [hc] using hcapital d (List.getElem?_eq_some_iff.mp hc).1

theorem digit?_eq_some_iff {radix : Radix} {c : Char} {d : Nat} :
    digit? radix.base c = some d ↔ IsDigit radix c d := by
  have hbase := radix.base_le
  rw [IsDigit, ← digit?_sixteen]
  simp only [digit?, Option.ite_none_right_eq_some, Option.some.injEq]
  omega

theorem mapM_digit?_eq_some_iff {radix : Radix} {ds : Text} {values : List Nat} :
    ds.mapM (digit? radix.base) = some values ↔ List.Forall₂ (IsDigit radix) ds values := by
  simp only [Text.mapM_eq_some_iff_forall₂, digit?_eq_some_iff]

theorem IsDigit.ne {radix : Radix} {c d' : Char} {d : Nat} (h : IsDigit radix c d)
    (hnone : digit? radix.base d' = none) : c ≠ d' := by
  rintro rfl
  rw [digit?_eq_some_iff.mpr h] at hnone
  cases hnone

/-! Letter case. -/

theorem toLower_of_not_capital {c : Char} (h : ¬ (65 ≤ c.toNat ∧ c.toNat ≤ 90)) :
    c.toLower = c := dif_neg h

theorem toNat_toLower_of_capital {c : Char} (h : 65 ≤ c.toNat ∧ c.toNat ≤ 90) :
    c.toLower.toNat = c.toNat + 32 :=
  Text.of_range (p := fun c => c.toLower.toNat = c.toNat + 32)
    (by decide) (show 65 ≤ c.toNat ∧ c.toNat < 65 + 26 by omega)

theorem eq_of_toLower {c d : Char} (h : c.toLower = d) :
    c = d ∨ 65 ≤ c.toNat ∧ c.toNat ≤ 90 ∧ c.toNat + 32 = d.toNat := by
  by_cases hc : 65 ≤ c.toNat ∧ c.toNat ≤ 90
  · exact Or.inr ⟨hc.1, hc.2, by rw [← h, toNat_toLower_of_capital hc]⟩
  · exact Or.inl (by rw [← h, toLower_of_not_capital hc])

theorem eq_of_toLower_of_lt {c d : Char} (hd : d.toNat < 97) (h : c.toLower = d) : c = d := by
  rcases eq_of_toLower h with rfl | ⟨hlow, -, hcode⟩
  · rfl
  · omega

theorem isDigit_toLower {radix : Radix} {c : Char} {d : Nat} :
    IsDigit radix c.toLower d ↔ IsDigit radix c d := by
  have hsame : digit? 16 c.toLower = digit? 16 c := by
    by_cases hc : 65 ≤ c.toNat ∧ c.toNat ≤ 90
    · exact Text.of_range (p := fun c => digit? 16 c.toLower = digit? 16 c)
        (by decide) (show 65 ≤ c.toNat ∧ c.toNat < 65 + 26 by omega)
    · rw [toLower_of_not_capital hc]
  rw [IsDigit, IsDigit, ← digit?_sixteen, ← digit?_sixteen, hsame]

theorem eq_of_toLower_zero_letter {mark : Text} {small capital : Char}
    (hcode : capital.toNat + 32 = small.toNat) (h : mark.map Char.toLower = ['0', small]) :
    mark = ['0', small] ∨ mark = ['0', capital] := by
  simp only [List.map_eq_cons_iff, List.map_eq_nil_iff] at h
  obtain ⟨zero, _, rfl, hzero, letter, _, rfl, hletter, rfl⟩ := h
  obtain rfl : zero = '0' := eq_of_toLower_of_lt (by decide) hzero
  rcases eq_of_toLower hletter with rfl | ⟨-, -, hletter⟩
  · exact Or.inl rfl
  · obtain rfl : letter = capital := Char.toNat_inj.mp (by omega)
    exact Or.inr rfl

theorem map_toLower_eq_mark {radix : Radix} {mark : Text} :
    mark.map Char.toLower = radix.mark ↔ mark = radix.mark ∨ mark = radix.capitalMark := by
  constructor
  · intro h
    cases radix with
    | binary => exact eq_of_toLower_zero_letter (by decide) h
    | octal => exact eq_of_toLower_zero_letter (by decide) h
    | decimal => exact Or.inl (List.map_eq_nil_iff.mp h)
    | hexadecimal => exact eq_of_toLower_zero_letter (by decide) h
  · rintro (rfl | rfl) <;> cases radix <;> decide

/-! Runs of digits. -/

theorem value?_eq_some_iff {radix : Radix} {ds : Text} {n : Nat} :
    value? radix.base ds = some n ↔ ds ≠ [] ∧
      ∃ values, List.Forall₂ (IsDigit radix) ds values ∧
        Nat.ofDigits radix.base values.reverse = n := by
  simp only [value?, Option.ite_none_left_eq_some, Option.map_eq_some_iff, mapM_digit?_eq_some_iff,
    Text.foldl_eq_ofDigits, List.isEmpty_iff, ne_eq]

/-! Numerals without a minus sign. -/

/-- Digits of a radix, and whether a plus sign stands before them. -/
structure Numeral where
  radix : Radix
  plus : Bool
  digits : Text
  values : List Nat
  digits_ne_nil : digits ≠ []
  isDigit : List.Forall₂ (IsDigit radix) digits values
  length_le : radix = .decimal → digits.length ≤ 4300
  raw_le : Nat.ofDigits radix.base values.reverse ≤ 2 ^ 32 - 1

def plusText (plus : Bool) : Text := if plus then ['+'] else []

namespace Numeral

def raw (u : Numeral) : Nat := Nat.ofDigits u.radix.base u.values.reverse

def textAfter (u : Numeral) (mark : Text) : Text := mark ++ (plusText u.plus ++ u.digits)

theorem isDigit_of_mem (u : Numeral) {c : Char} (h : c ∈ u.digits) :
    ∃ d ∈ u.values, IsDigit u.radix c d :=
  Image.exists_mem_of_forall₂ u.isDigit.flip h

theorem ne_of_mem (u : Numeral) {c d : Char} (h : c ∈ u.digits)
    (hnone : digit? u.radix.base d = none) : c ≠ d := by
  obtain ⟨_, -, hc⟩ := u.isDigit_of_mem h
  exact hc.ne hnone

end Numeral

theorem exists_splitRadix (text : Text) :
    ∃ radix : Radix, ∃ rest, splitRadix text = (radix.base, rest) ∧ text = radix.mark ++ rest := by
  fun_cases splitRadix text with
  | case1 t => exact ⟨.binary, t, rfl, rfl⟩
  | case2 t => exact ⟨.octal, t, rfl, rfl⟩
  | case3 t => exact ⟨.hexadecimal, t, rfl, rfl⟩
  | case4 => exact ⟨.decimal, text, rfl, rfl⟩

theorem exists_dropPlus (t : Text) : ∃ plus, t = plusText plus ++ dropPlus t := by
  fun_cases dropPlus t with
  | case1 t => exact ⟨true, rfl⟩
  | case2 t => exact ⟨false, rfl⟩

theorem dropPlus_plusText {plus : Bool} {t : Text} (h : ∀ c ∈ t, c ≠ '+') :
    dropPlus (plusText plus ++ t) = t := by
  cases plus with
  | true => rfl
  | false =>
    rw [plusText, if_neg (by decide), List.nil_append, dropPlus_of_forall h]

theorem Numeral.splitRadix_textAfter (u : Numeral) :
    splitRadix (u.textAfter u.radix.mark) = (u.radix.base, plusText u.plus ++ u.digits) := by
  rw [textAfter]
  cases hradix : u.radix with
  | binary => rfl
  | octal => rfl
  | hexadecimal => rfl
  | decimal =>
    change splitRadix (plusText u.plus ++ u.digits) = _
    apply splitRadix_of_forall
    intro c hc
    rcases List.mem_append.mp hc with hc | hc
    · obtain rfl : c = '+' := by
        revert hc
        cases u.plus <;> simp [plusText]
      decide
    · exact ⟨u.ne_of_mem hc (by rw [hradix]; rfl), u.ne_of_mem hc (by rw [hradix]; rfl),
        u.ne_of_mem hc (by rw [hradix]; rfl)⟩

theorem Numeral.dropPlus_digits (u : Numeral) : dropPlus (plusText u.plus ++ u.digits) = u.digits :=
  dropPlus_plusText fun _ hc => u.ne_of_mem hc (by cases u.radix <;> rfl)

theorem magnitude_of_splitRadix {token text rest : Text} {radix : Radix} {n : Nat}
    (h : splitRadix text = (radix.base, rest)) :
    magnitude token text = .ok n ↔ value? radix.base (dropPlus rest) = some n ∧
      (radix = .decimal → (dropPlus rest).length ≤ 4300) ∧ n ≤ 2 ^ 32 - 1 := by
  have hbase : radix.base = 10 ↔ radix = .decimal := by cases radix <;> decide
  simp only [magnitude, h, hbase, Text.maxDigits]
  cases value? radix.base (dropPlus rest) with
  | none => simp
  | some m =>
    simp only
    split
    · rename_i hlong
      simp [hlong]
    · rename_i hshort
      have hlength : radix = .decimal → (dropPlus rest).length ≤ 4300 := fun hradix =>
        Nat.le_of_not_lt fun hlong => hshort ⟨hradix, hlong⟩
      split
      · rename_i hwide
        simp only [reduceCtorEq, false_iff, Option.some.injEq, not_and]
        rintro rfl _
        omega
      · rename_i hnarrow
        simp only [Except.ok.injEq, Option.some.injEq]
        constructor
        · rintro rfl
          exact ⟨rfl, hlength, by omega⟩
        · exact And.left

theorem magnitude_eq_ok_iff {token text : Text} {n : Nat} :
    magnitude token text = .ok n ↔
      ∃ u : Numeral, u.textAfter u.radix.mark = text ∧ u.raw = n := by
  constructor
  · intro h
    obtain ⟨radix, rest, hsplit, rfl⟩ := exists_splitRadix text
    obtain ⟨plus, hplus⟩ := exists_dropPlus rest
    obtain ⟨hvalue, hlength, hbound⟩ := (magnitude_of_splitRadix hsplit).mp h
    obtain ⟨hne, values, hdigits, rfl⟩ := value?_eq_some_iff.mp hvalue
    exact ⟨⟨radix, plus, dropPlus rest, values, hne, hdigits, hlength, hbound⟩,
      congrArg (radix.mark ++ ·) hplus.symm, rfl⟩
  · rintro ⟨u, rfl, rfl⟩
    rw [magnitude_of_splitRadix u.splitRadix_textAfter, u.dropPlus_digits]
    exact ⟨value?_eq_some_iff.mpr ⟨u.digits_ne_nil, u.values, u.isDigit, rfl⟩, u.length_le,
      u.raw_le⟩

def Numeral.respell (u : Numeral) (ds : Text) (h : List.Forall₂ (IsDigit u.radix) ds u.values) :
    Numeral where
  radix := u.radix
  plus := u.plus
  digits := ds
  values := u.values
  digits_ne_nil := by
    have hlength := h.length_eq.trans u.isDigit.length_eq.symm
    have hne := u.digits_ne_nil
    rw [ne_eq, ← List.length_eq_zero_iff] at hne ⊢
    omega
  isDigit := h
  length_le := by
    rw [h.length_eq.trans u.isDigit.length_eq.symm]
    exact u.length_le
  raw_le := u.raw_le

theorem map_toLower_plusText {plus : Bool} {t : Text} :
    t.map Char.toLower = plusText plus ↔ t = plusText plus := by
  cases plus with
  | false => exact List.map_eq_nil_iff
  | true =>
    constructor
    · intro h
      obtain ⟨c, rest, rfl, hc, hrest⟩ := List.map_eq_cons_iff.mp h
      obtain rfl : c = '+' := eq_of_toLower_of_lt (by decide) hc
      rw [List.map_eq_nil_iff.mp hrest]
      rfl
    · rintro rfl
      rfl

theorem forall₂_map_toLower {radix : Radix} {ds : Text} {values : List Nat} :
    List.Forall₂ (IsDigit radix) (ds.map Char.toLower) values ↔
      List.Forall₂ (IsDigit radix) ds values := by
  simp only [List.forall₂_map_left_iff, isDigit_toLower]

/-- A text comes to a numeral in small letters if it is one with letters of either case. -/
theorem textAfter_eq_map_toLower_iff {t : Text} {n : Nat} :
    (∃ u : Numeral, u.textAfter u.radix.mark = t.map Char.toLower ∧ u.raw = n) ↔
      ∃ u : Numeral, ∃ mark, (mark = u.radix.mark ∨ mark = u.radix.capitalMark) ∧
        u.textAfter mark = t ∧ u.raw = n := by
  constructor
  · rintro ⟨u, htext, rfl⟩
    obtain ⟨mark, rest, rfl, hmark, hrest⟩ := List.map_eq_append_iff.mp htext.symm
    obtain ⟨plus, ds, rfl, hplus, hdigits⟩ := List.map_eq_append_iff.mp hrest
    obtain rfl := map_toLower_plusText.mp hplus
    have hvalues : List.Forall₂ (IsDigit u.radix) ds u.values :=
      forall₂_map_toLower.mp (hdigits ▸ u.isDigit)
    exact ⟨u.respell ds hvalues, mark, map_toLower_eq_mark.mp hmark, rfl, rfl⟩
  · rintro ⟨u, mark, hmark, rfl, rfl⟩
    refine ⟨u.respell (u.digits.map Char.toLower) (forall₂_map_toLower.mpr u.isDigit), ?_, rfl⟩
    rw [Numeral.textAfter, Numeral.textAfter, List.map_append, List.map_append,
      map_toLower_eq_mark.mpr hmark, map_toLower_plusText.mpr rfl]
    rfl

/-! Literals. -/

/-- A numeral with the sign and the mark of its radix that stand in front of it. Behind a minus
sign the mark has to be a small letter. -/
structure Spelling extends Numeral where
  negative : Bool
  mark : Text
  mark_eq : mark = radix.mark ∨ negative = false ∧ mark = radix.capitalMark

namespace Spelling

def text (s : Spelling) : Text :=
  if s.negative then '-' :: s.textAfter s.mark else s.textAfter s.mark

/-- The number that the literal spells, before it is cut down to 32 bits. -/
def value (s : Spelling) : Int := if s.negative then -s.raw else s.raw

theorem ne_minus_of_mem (s : Spelling) {c : Char} (h : c ∈ s.textAfter s.mark) : c ≠ '-' := by
  rcases List.mem_append.mp h with h | h
  · have hmark : ∀ radix : Radix, '-' ∉ radix.mark ∧ '-' ∉ radix.capitalMark := by
      rintro (_ | _ | _ | _) <;> decide
    rintro rfl
    rcases s.mark_eq with heq | ⟨-, heq⟩
    · exact (hmark s.radix).1 (heq ▸ h)
    · exact (hmark s.radix).2 (heq ▸ h)
  · rcases List.mem_append.mp h with h | h
    · revert h
      cases s.plus <;> simp +contextual [plusText]
    · exact s.ne_of_mem h (by cases s.radix <;> rfl)

theorem head?_text (s : Spelling) : s.text.head? = some '-' ↔ s.negative = true := by
  cases hnegative : s.negative with
  | true => simp [text, hnegative]
  | false =>
    simp only [text, hnegative, Bool.false_eq_true, if_false, iff_false]
    intro h
    exact s.ne_minus_of_mem (List.mem_of_mem_head? h) rfl

end Spelling

theorem integer_minus (t : Text) :
    integer ('-' :: t) =
      (magnitude ('-' :: t) t).map fun n : Nat => Bits.signed 32 (-(n : Int)) := by
  rw [integer]
  cases magnitude ('-' :: t) t <;> rfl

theorem integer_of_head? {token : Text} (h : token.head? ≠ some '-') :
    integer token =
      (magnitude token (token.map Char.toLower)).map fun n : Nat => Bits.signed 32 n := by
  fun_cases integer token with
  | case1 t => exact absurd rfl h
  | case2 => cases magnitude token (token.map Char.toLower) <;> rfl

theorem integer_eq_ok_iff {token : Text} {n : Int} :
    integer token = .ok n ↔ ∃ s : Spelling, s.text = token ∧ Bits.signed 32 s.value = n := by
  by_cases hminus : token.head? = some '-'
  · obtain ⟨t, rfl⟩ := List.head?_eq_some_iff.mp hminus
    rw [integer_minus, map_eq_ok]
    constructor
    · rintro ⟨m, hm, rfl⟩
      obtain ⟨u, rfl, rfl⟩ := magnitude_eq_ok_iff.mp hm
      exact ⟨{ u with negative := true, mark := u.radix.mark, mark_eq := Or.inl rfl }, rfl, rfl⟩
    · rintro ⟨s, htext, rfl⟩
      have hnegative : s.negative = true := s.head?_text.mp (htext ▸ hminus)
      have hmark : s.mark = s.radix.mark := by simpa [hnegative] using s.mark_eq
      simp only [Spelling.text, hnegative, if_true, List.cons.injEq, true_and, hmark] at htext
      exact ⟨s.raw, magnitude_eq_ok_iff.mpr ⟨s.toNumeral, htext, rfl⟩,
        by simp [Spelling.value, hnegative]⟩
  · rw [integer_of_head? hminus, map_eq_ok]
    simp only [magnitude_eq_ok_iff, textAfter_eq_map_toLower_iff]
    constructor
    · rintro ⟨m, ⟨u, mark, hmark, rfl, rfl⟩, rfl⟩
      exact ⟨{ u with negative := false, mark := mark, mark_eq := by simpa using hmark }, rfl, rfl⟩
    · rintro ⟨s, rfl, rfl⟩
      have hnegative : s.negative = false := by simpa [s.head?_text] using hminus
      have hmark : s.mark = s.radix.mark ∨ s.mark = s.radix.capitalMark :=
        s.mark_eq.imp_right And.right
      exact ⟨s.raw, ⟨s.toNumeral, s.mark, hmark, by simp [Spelling.text, hnegative], rfl⟩,
        by simp [Spelling.value, hnegative]⟩

theorem Spelling.integer_text (s : Spelling) : integer s.text = .ok (Bits.signed 32 s.value) :=
  integer_eq_ok_iff.mpr ⟨s, rfl, rfl⟩

theorem magnitude_error {token text : Text} {e : Error} (h : magnitude token text = .error e) :
    e = .malformed token ∨ (∃ count, e = .tooManyDigits count) ∨ e = .tooWide token := by
  simp only [magnitude] at h
  split at h
  · exact Or.inl (Except.error.inj h).symm
  · split at h
    · exact Or.inr (Or.inl ⟨_, (Except.error.inj h).symm⟩)
    · split at h
      · exact Or.inr (Or.inr (Except.error.inj h).symm)
      · cases h

theorem integer_error {token : Text} {e : Error} (h : integer token = .error e) :
    e = .malformed token ∨ (∃ count, e = .tooManyDigits count) ∨ e = .tooWide token := by
  by_cases hminus : token.head? = some '-'
  · obtain ⟨t, rfl⟩ := List.head?_eq_some_iff.mp hminus
    rw [integer_minus, map_eq_error] at h
    exact magnitude_error h
  · rw [integer_of_head? hminus, map_eq_error] at h
    exact magnitude_error h

/-- A text is read as an integer if and only if it is a spelling of one. The integer is then the
only number of 32 bits with sign that agrees with the digits, or with their negation behind a minus
sign, modulo `2 ^ 32`. Any other text is malformed, too long or too wide. -/
theorem integer_grammar (token : Text) :
    ((∃ n, integer token = .ok n) ↔ ∃ s : Spelling, s.text = token) ∧
    (∀ s : Spelling, s.text = token → ∀ n, integer token = .ok n ↔
      -2 ^ 31 ≤ n ∧ n ≤ 2 ^ 31 - 1 ∧
        n % 2 ^ 32 = (if token.head? = some '-' then -(s.raw : Int) else s.raw) % 2 ^ 32) ∧
    ((¬ ∃ s : Spelling, s.text = token) → ∃ e, integer token = .error e ∧
      (e = .malformed token ∨ (∃ count, e = .tooManyDigits count) ∨ e = .tooWide token)) := by
  have hread : (∃ n, integer token = .ok n) ↔ ∃ s : Spelling, s.text = token := by
    simp only [integer_eq_ok_iff]
    exact ⟨fun ⟨_, s, htext, _⟩ => ⟨s, htext⟩, fun ⟨s, htext⟩ => ⟨_, s, htext, rfl⟩⟩
  refine ⟨hread, ?_, ?_⟩
  · rintro s rfl n
    simp only [s.head?_text]
    rw [s.integer_text, Except.ok.injEq, Bits.signed_eq_iff (n := 31), Int.le_sub_one_iff]
    rfl
  · intro hnone
    cases h : integer token with
    | ok n => exact absurd (hread.mp ⟨n, h⟩) hnone
    | error e => exact ⟨e, rfl, integer_error h⟩

/-- A minus sign, a small radix letter, a plus sign and digits of both cases: the digits are past
`2 ^ 31`, so the number is positive. With a capital radix letter there is no spelling. -/
theorem integer_grammar_wrapped :
    (∃ s : Spelling, s.text = "-0x+Ffff0001".toList ∧ s.raw = 0xFFFF0001) ∧
      integer "-0x+Ffff0001".toList = .ok 65535 ∧
      (¬ ∃ s : Spelling, s.text = "-0XFF".toList) ∧
      ∃ e, integer "-0XFF".toList = .error e ∧ (e = .malformed "-0XFF".toList ∨
        (∃ count, e = .tooManyDigits count) ∨ e = .tooWide "-0XFF".toList) := by
  have hnone : ¬ ∃ s : Spelling, s.text = "-0XFF".toList := by
    have herror : integer "-0XFF".toList = .error (.malformed "-0XFF".toList) := by decide
    rw [← (integer_grammar "-0XFF".toList).1, herror]
    simp
  let s : Spelling :=
    { radix := .hexadecimal, plus := true, digits := "Ffff0001".toList,
      values := [15, 15, 15, 15, 0, 0, 0, 1], digits_ne_nil := by decide,
      isDigit := mapM_digit?_eq_some_iff.mp (by decide), length_le := by decide,
      raw_le := by decide, negative := true, mark := "0x".toList, mark_eq := Or.inl rfl }
  have hraw : s.raw = 0xFFFF0001 := by decide
  have htext : s.text = "-0x+Ffff0001".toList := by decide
  refine ⟨⟨s, htext, hraw⟩, ?_, hnone, (integer_grammar "-0XFF".toList).2.2 hnone⟩
  rw [(integer_grammar "-0x+Ffff0001".toList).2.1 s htext, hraw]
  decide

end Literal
end Ttk91
