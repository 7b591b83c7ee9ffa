import Mathlib.Algebra.Order.BigOperators.Group.List
import Ttk91.Proofs.AssembledImage
import Ttk91.Proofs.LiteralGrammar

/-! Literals behind a minus sign. Only digits up to `2 ^ 31` keep the sign. Beyond that the number
comes out positive, so that it passes for an origin and, if it is small enough for memory, for a
reservation. -/

namespace Ttk91

namespace Literal

theorem IsDigit.eq_zero {radix : Radix} {c : Char} (h : IsDigit radix c 0) : c = '0' := by
  rcases h.2 with h | h
  · exact (Option.some.inj h).symm
  · exact (Option.some.inj h).symm

theorem Numeral.raw_pos (u : Numeral) (h : ∃ c ∈ u.digits, c ≠ '0') : 0 < u.raw := by
  obtain ⟨c, hc, hne⟩ := h
  obtain ⟨d, hd, hdigit⟩ := u.isDigit_of_mem hc
  have hpos : 0 < d := by
    apply Nat.pos_of_ne_zero
    rintro rfl
    exact hne hdigit.eq_zero
  have hbase : 1 ≤ u.radix.base := by cases u.radix <;> decide
  calc
    0 < d := hpos
    _ ≤ u.values.reverse.sum := List.le_sum_of_mem (List.mem_reverse.mpr hd)
    _ ≤ u.raw := Nat.sum_le_ofDigits _ hbase

namespace Spelling

theorem constant?_text {s : Spelling} (h : s.negative = true) : constant? s.text = none := by
  cases hname : constant? s.text with
  | none => rfl
  | some n =>
    have hletter : ∀ entry ∈ constants, entry.1.head? ≠ some '-' := by decide
    exact absurd (s.head?_text.mpr h) (hletter _ (mem_constants_of_constant? hname))

theorem value_text {s : Spelling} (h : s.negative = true) :
    Literal.value s.text = .ok (Bits.signed 32 s.value) := by
  rw [Literal.value, constant?_text h, integer_text]

theorem signed_value {s : Spelling} (h : s.negative = true) :
    Bits.signed 32 s.value = if s.raw ≤ 2 ^ 31 then -(s.raw : Int) else 2 ^ 32 - s.raw := by
  have hraw : s.raw ≤ 2 ^ 32 - 1 := s.raw_le
  rw [value, if_pos h, Bits.signed_eq_iff (n := 31)]
  split <;> omega

end Spelling
end Literal

namespace Statement

variable {st : Statement} {n : Int}

theorem value_of_operands {text : Text} (hoperands : st.operands = [text])
    (h : Literal.value text = .ok n) : st.value = .ok n := by
  simp only [value, hoperands, h]

theorem originValue_of_value (hlabel : st.label = none) (h : st.value = .ok n) (hn : 0 ≤ n) :
    st.originValue = .ok n := by
  simp [originValue, hlabel, h, Int.not_lt.mpr hn]

end Statement

namespace Program

variable {program : Program} {st : Statement} {n : Int}

/-- A statement of this kind, with this keyword, has the text as its only operand. -/
def Uses (kind : WordKind) (keyword text : Text) (program : Program) : Prop :=
  ∃ st ∈ program, st.kind = kind ∧ st.keyword = keyword ∧ st.operands = [text]

/-! The numbers that programs are accepted with. -/

def IsOrigin (n : Int) : Prop := 0 ≤ n

def IsReservation (n : Int) : Prop := 0 < n ∧ n ≤ lastAddress + 1

/-- Data that stays in memory takes no more words than memory has, statement by statement. -/
theorem size_of_checkDataAfter {last : Int} (hlast : -1 ≤ last)
    (h : checkDataAfter last program = .ok ()) (hst : st ∈ program) (hkind : st.kind = .data) :
    ∃ n, st.size = .ok n ∧ n ≤ lastAddress + 1 := by
  fun_induction checkDataAfter last program with
  | case1 => cases hst
  | case2 | case3 => cases h
  | case4 last first rest _ n hsize hfits ih =>
    -- Sizes are positive, so the address before the next statement is not below `-1` either.
    have hpos := (Statement.size_eq_ok hsize).2
    rcases List.mem_cons.mp hst with rfl | hst
    · exact ⟨n, hsize, by omega⟩
    · exact ih (by omega) h hst
  | case5 last first rest hne ih =>
    rcases List.mem_cons.mp hst with rfl | hst
    · exact absurd hkind hne
    · exact ih hlast h hst

theorem isOrigin_of_layout {layout : Layout} (h : program.layout = .ok layout) (hst : st ∈ program)
    (hkind : st.kind = .directive) (hvalue : st.value = .ok n) : IsOrigin n := by
  obtain ⟨origin, -, -, horigin, -⟩ := layout_eq_ok h
  have hgiven := ((value_of_originAfter horigin).2 st hst hkind).2
  obtain rfl : n = origin := Except.ok.inj (hvalue.symm.trans hgiven)
  exact (bounds_of_origin horigin).1

theorem isReservation_of_layout {layout : Layout} (h : program.layout = .ok layout)
    (hst : st ∈ program) (hkind : st.kind = .data) (hkey : st.keyword = WordKind.ds)
    (hvalue : st.value = .ok n) : IsReservation n := by
  obtain ⟨origin, _, -, horigin, -, hfits, -⟩ := layout_eq_ok h
  have hnonneg := (bounds_of_origin horigin).1
  obtain ⟨m, hsize, hm⟩ := size_of_checkDataAfter (by omega) hfits hst hkind
  rw [Statement.size, if_neg (by rw [hkey]; decide)] at hsize
  obtain ⟨hgiven, hpos⟩ := Statement.reservation_eq_ok hsize
  obtain rfl : n = m := Except.ok.inj (hvalue.symm.trans hgiven)
  exact ⟨hpos, hm⟩

theorem checkLabels_alone (hlabel : st.label = none) : checkLabels [st] = .ok () :=
  checkLabels_eq_ok_iff.mpr (by simp [labels, hlabel])

theorem layout_of_isOrigin (hkind : st.kind = .directive) (hkey : st.keyword = WordKind.org)
    (hlabel : st.label = none) (hvalue : st.value = .ok n) (hn : IsOrigin n) :
    layout [st] = .ok ⟨[], n, 0⟩ := by
  have horigin : origin [st] = .ok n := by
    simp [origin, originAfter, hkind, hkey, Statement.originValue_of_value hlabel hvalue hn]
  have hsymbols : symbols [st] = .ok [] := by
    simp [symbols, symbolsFrom, hkind]
  have hsize : codeSize [st] = 0 := by
    simp [codeSize, hkind]
  have hfits (start : Int) : checkDataFits [st] start = .ok () := by
    simp [checkDataFits, checkDataAfter, hkind]
  simp only [layout, checkLabels_alone hlabel, horigin, hsymbols, hsize, hfits]
  rfl

theorem layout_of_isReservation (hkind : st.kind = .data) (hkey : st.keyword = WordKind.ds)
    (hlabel : st.label = none) (hvalue : st.value = .ok n) (hn : IsReservation n) :
    layout [st] = .ok ⟨[], 0, 0⟩ := by
  have hreserved := Statement.reservation_of_value hvalue hn.1
  have horigin : origin [st] = .ok 0 := by
    simp [origin, originAfter, hkind]
  have hsymbols : symbols [st] = .ok [] := by
    simp [symbols, symbolsFrom, hkind, Statement.span, hkey, hreserved, SymbolTable.define, hlabel]
  have hsize : codeSize [st] = 0 := by
    simp [codeSize, hkind]
  have hfits : checkDataFits [st] 0 = .ok () := by
    have hne : WordKind.ds ≠ WordKind.dc := by decide
    have hle : ¬ lastAddress < -1 + n := by
      have := hn.2
      omega
    simp [checkDataFits, checkDataAfter, hkind, Statement.size, hkey, hne, hreserved, hle]
  simp only [layout, checkLabels_alone hlabel, horigin, hsymbols, hsize]
  change (checkDataFits [st] 0 >>= fun _ => _) = _
  rw [hfits]
  rfl

/-- If a statement alone is accepted with just the numbers that any program needs of it, then a
text with another number in it is refused everywhere, and only such a text. -/
theorem refuses_iff {kind : WordKind} {keyword text : Text} {Accepts : Int → Prop}
    (hvalue : Literal.value text = .ok n)
    (hneeds : ∀ (program : Program) (layout : Layout) (st : Statement),
      program.layout = .ok layout → st ∈ program → st.kind = kind → st.keyword = keyword →
        st.value = .ok n → Accepts n)
    (halone : ∀ st : Statement, st.kind = kind → st.keyword = keyword → st.label = none →
      st.value = .ok n → Accepts n → ∃ layout, Program.layout [st] = .ok layout) :
    (∀ program : Program, program.Uses kind keyword text →
      ∃ failure, program.layout = .error failure) ↔ ¬ Accepts n := by
  constructor
  · intro hall haccepts
    let st : Statement := ⟨kind, keyword, [text], 1, none, none⟩
    obtain ⟨layout, hok⟩ :=
      halone st rfl rfl rfl (Statement.value_of_operands rfl hvalue) haccepts
    obtain ⟨failure, herror⟩ := hall [st] ⟨st, List.mem_singleton_self st, rfl, rfl, rfl⟩
    rw [hok] at herror
    cases herror
  · rintro hnot program ⟨st, hst, hkind, hkey, hoperands⟩
    cases hlayout : program.layout with
    | error failure => exact ⟨failure, rfl⟩
    | ok layout =>
      have hnumber := Statement.value_of_operands hoperands hvalue
      exact absurd (hneeds program layout st hlayout hst hkind hkey hnumber) hnot

theorem refuses_origin_iff {text : Text} (hvalue : Literal.value text = .ok n) :
    (∀ program : Program, program.Uses .directive WordKind.org text →
      ∃ failure, program.layout = .error failure) ↔ ¬ IsOrigin n :=
  refuses_iff hvalue
    (fun _ _ _ hok hst hkind _ hnumber => isOrigin_of_layout hok hst hkind hnumber)
    (fun _ hkind hkey hlabel hnumber hn => ⟨_, layout_of_isOrigin hkind hkey hlabel hnumber hn⟩)

theorem refuses_reservation_iff {text : Text} (hvalue : Literal.value text = .ok n) :
    (∀ program : Program, program.Uses .data WordKind.ds text →
      ∃ failure, program.layout = .error failure) ↔ ¬ IsReservation n :=
  refuses_iff hvalue
    (fun _ _ _ hok hst hkind hkey hnumber => isReservation_of_layout hok hst hkind hkey hnumber)
    (fun _ hkind hkey hlabel hnumber hn =>
      ⟨_, layout_of_isReservation hkind hkey hlabel hnumber hn⟩)

end Program

namespace Literal

/-- Digits that are not all zero, behind a minus sign, are negated if they come to at most
`2 ^ 31`. Just then every program is refused that takes them for its origin. More than that comes
out positive. A program may reserve that many words, too, if memory has them. -/
theorem integer_negative (s : Spelling) (hnegative : s.negative = true)
    (hdigit : ∃ c ∈ s.digits, c ≠ '0') :
    ∃ n, integer s.text = .ok n ∧
      (n = -s.raw ∧ n < 0 ↔ s.raw ≤ 2 ^ 31) ∧
      (2 ^ 31 < s.raw → n = 2 ^ 32 - s.raw ∧ 0 < n) ∧
      ((∀ program : Program, program.Uses .directive WordKind.org s.text →
        ∃ failure, program.layout = .error failure) ↔ s.raw ≤ 2 ^ 31) ∧
      ((∀ program : Program, program.Uses .data WordKind.ds s.text →
        ∃ failure, program.layout = .error failure) ↔ s.raw < 2 ^ 32 - 2 ^ 16) := by
  have hpos := s.raw_pos hdigit
  have hbound : s.raw ≤ 2 ^ 32 - 1 := s.raw_le
  refine ⟨_, s.integer_text, ?_, ?_, ?_, ?_⟩
  · rw [Spelling.signed_value hnegative]
    split <;> omega
  · intro hbeyond
    rw [Spelling.signed_value hnegative, if_neg (by omega)]
    omega
  · rw [Program.refuses_origin_iff (Spelling.value_text hnegative), Program.IsOrigin,
      Spelling.signed_value hnegative]
    split <;> omega
  · rw [Program.refuses_reservation_iff (Spelling.value_text hnegative), Program.IsReservation,
      Program.lastAddress, Spelling.signed_value hnegative]
    split <;> omega

/-- The widest literal comes out as 1, and some program has it for its origin. -/
theorem integer_negative_widest :
    ∃ s : Spelling, s.text = "-4294967295".toList ∧ s.negative = true ∧
      (∃ c ∈ s.digits, c ≠ '0') ∧ s.raw = 4294967295 ∧
      integer s.text = .ok 1 ∧
      ¬ ∀ program : Program, program.Uses .directive WordKind.org s.text →
        ∃ failure, program.layout = .error failure := by
  obtain ⟨s, htext, hnegative, hdigit, hraw⟩ : ∃ s : Spelling, s.text = "-4294967295".toList ∧
      s.negative = true ∧ (∃ c ∈ s.digits, c ≠ '0') ∧ s.raw = 4294967295 :=
    ⟨{ radix := .decimal, plus := false, digits := "4294967295".toList,
       values := [4, 2, 9, 4, 9, 6, 7, 2, 9, 5], digits_ne_nil := by decide,
       isDigit := mapM_digit?_eq_some_iff.mp (by decide), length_le := by decide,
       raw_le := by decide, negative := true, mark := [], mark_eq := Or.inl rfl },
      by decide, rfl, ⟨'4', by decide, by decide⟩, by decide⟩
  obtain ⟨n, hn, -, hbeyond, horigin, -⟩ := integer_negative s hnegative hdigit
  obtain rfl : n = 1 := by omega
  exact ⟨s, htext, hnegative, hdigit, hraw, hn, by rw [horigin]; omega⟩

end Literal
end Ttk91
