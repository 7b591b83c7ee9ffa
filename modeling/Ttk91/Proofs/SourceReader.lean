import Ttk91.Source.Statement
import Ttk91.Proofs.Splitting

/-! What is true of every statement that was read from a source text. -/

namespace Ttk91

theorem bind_eq_ok {ε α β : Type} {x : Except ε α} {f : α → Except ε β} {b : β} :
    (x >>= f) = .ok b ↔ ∃ a, x = .ok a ∧ f a = .ok b := by
  cases x <;> simp [bind, Except.bind]

theorem map_eq_ok {ε α β : Type} {x : Except ε α} {f : α → β} {b : β} :
    x.map f = .ok b ↔ ∃ a, x = .ok a ∧ f a = b := by
  cases x <;> simp [Except.map]

theorem bind_eq_error {ε α β : Type} {x : Except ε α} {f : α → Except ε β} {e : ε} :
    (x >>= f) = .error e ↔ x = .error e ∨ ∃ a, x = .ok a ∧ f a = .error e := by
  cases x <;> simp [bind, Except.bind]

theorem map_eq_error {ε α β : Type} {x : Except ε α} {f : α → β} {e : ε} :
    x.map f = .error e ↔ x = .error e := by
  cases x <;> simp [Except.map]

theorem eq_ok_of_toOption {ε α : Type} {x : Except ε α} {a : α} (h : x.toOption = some a) :
    x = .ok a := by
  cases x with
  | error e => cases h
  | ok b => exact congrArg Except.ok (Option.some.inj h)

namespace Statement

/-- The kind of a read statement is that of a keyword, its label is a word, and its comment is part
of a line. -/
structure IsRead (st : Statement) : Prop where
  kind_ne_plain : st.kind ≠ .plain
  kind_ne_register : st.kind ≠ .register
  label_ne_nil : ∀ label, st.label = some label → label ≠ []
  isBlank_of_mem_label : ∀ label, st.label = some label → ∀ c ∈ label, Text.isBlank c = false
  isBreak_of_mem_comment : ∀ text, st.comment = some text → ∀ c ∈ text, Text.isBreak c = false

theorem ofKeyword_eq_ok {line : Int} {label comment : Option Text} {word : Text}
    {operands : List Text} {st : Statement}
    (h : ofKeyword line label comment word operands = .ok st) :
    st = ⟨WordKind.ofWord (Text.upper word), Text.upper word, operands, line, label, comment⟩ ∧
      st.kind ≠ .plain ∧ st.kind ≠ .register := by
  unfold ofKeyword at h
  simp only at h
  split at h
  · cases h
  · cases h
  · rename_i hplain hregister
    cases h
    exact ⟨rfl, hplain, hregister⟩

theorem isBlank_of_isSeparator {c : Char} (h : isSeparator c = false) : Text.isBlank c = false := by
  rw [isSeparator, Bool.or_eq_false_iff] at h
  exact h.2

/-- The parts of a line that make a statement: words, and what follows the first semicolon. -/
theorem ofLine_eq_some {line : Int} {text : Text} {st : Statement}
    (h : ofLine line text = .ok (some st)) :
    st.line = line ∧ st.comment = (Text.cut ';' text).2 ∧ st.kind ≠ .plain ∧ st.kind ≠ .register ∧
      st.operands.length < (words (Text.cut ';' text).1).length ∧
      ∀ label, st.label = some label → label ∈ words (Text.cut ';' text).1 := by
  unfold ofLine at h
  simp only at h
  split at h
  · cases h
  · rename_i word rest hwords
    split at h
    · split at h
      · cases h
      · obtain ⟨st', hst', heq⟩ := map_eq_ok.mp h
        obtain rfl := Option.some.inj heq
        obtain ⟨rfl, hkind⟩ := ofKeyword_eq_ok hst'
        refine ⟨rfl, rfl, hkind.1, hkind.2, ?_, fun label hlabel => ?_⟩
        · rw [hwords]
          exact Nat.lt_succ_of_lt (Nat.lt_succ_self _)
        · obtain rfl : word = label := Option.some.inj hlabel
          simp [hwords]
    · obtain ⟨st', hst', heq⟩ := map_eq_ok.mp h
      obtain rfl := Option.some.inj heq
      obtain ⟨rfl, hkind⟩ := ofKeyword_eq_ok hst'
      exact ⟨rfl, rfl, hkind.1, hkind.2, by simp [hwords], fun label hlabel => by cases hlabel⟩

theorem isRead_of_ofLine {line : Int} {text : Text} {st : Statement}
    (htext : ∀ c ∈ text, Text.isBreak c = false) (h : ofLine line text = .ok (some st)) :
    st.IsRead := by
  obtain ⟨-, hcomment, hplain, hregister, -, hlabel⟩ := ofLine_eq_some h
  refine ⟨hplain, hregister, fun label hl => ?_, fun label hl c hc => ?_,
    fun comment hc c hmem => ?_⟩
  · exact Text.ne_nil_of_mem_wordsBy (hlabel label hl)
  · exact isBlank_of_isSeparator (Text.mem_word (hlabel label hl) hc).1
  · have hcut : Text.cut ';' text = ((Text.cut ';' text).1, some comment) :=
      Prod.ext rfl (hcomment.symm.trans hc)
    have hsplit := (Text.cut_eq_some hcut).1
    apply htext
    rw [hsplit]
    simp [hmem]

theorem length_operands_of_ofLine {line : Int} {text : Text} {st : Statement}
    (h : ofLine line text = .ok (some st)) : st.operands.length ≤ text.length := by
  obtain ⟨-, -, -, -, hoperands, -⟩ := ofLine_eq_some h
  have hwords : (words (Text.cut ';' text).1).length ≤ _ := Text.length_wordsBy_le isSeparator _
  have hcut := Text.length_cut_le ';' text
  omega

end Statement

namespace Program

theorem ofLines_eq_ok {line : Nat} {texts : List Text} {program : Program}
    (htexts : ∀ text ∈ texts, ∀ c ∈ text, Text.isBreak c = false)
    (h : ofLines line texts = .ok program) :
    (∀ st ∈ program, st.IsRead) ∧ program.length ≤ texts.length := by
  fun_induction ofLines line texts generalizing program with
  | case1 =>
    cases h
    simp
  | case2 => cases h
  | case3 line text rest hnone ih =>
    obtain ⟨hread, hlen⟩ := ih (fun t ht => htexts t (by simp [ht])) h
    exact ⟨hread, Nat.le_succ_of_le hlen⟩
  | case4 line text rest st hst ih =>
    obtain ⟨program, hprogram, rfl⟩ := map_eq_ok.mp h
    obtain ⟨hread, hlen⟩ := ih (fun t ht => htexts t (by simp [ht])) hprogram
    refine ⟨fun st' hmem => ?_, Nat.succ_le_succ hlen⟩
    rcases List.mem_cons.mp hmem with rfl | hmem
    · exact Statement.isRead_of_ofLine (htexts text (by simp)) hst
    · exact hread st' hmem

theorem isRead_of_parse {source : Text} {program : Program} (h : parse source = .ok program) :
    ∀ st ∈ program, st.IsRead :=
  (ofLines_eq_ok (fun _ hl _ hc => Text.isBreak_of_mem_line hl hc) h).1

theorem length_le_of_parse {source : Text} {program : Program} (h : parse source = .ok program) :
    program.length ≤ source.length :=
  Nat.le_trans (ofLines_eq_ok (fun _ hl _ hc => Text.isBreak_of_mem_line hl hc) h).2
    (Text.length_lines_le source)

theorem length_operands_of_ofLines {line : Nat} {texts : List Text} {program : Program}
    {bound : Nat} (htexts : ∀ text ∈ texts, text.length ≤ bound)
    (h : ofLines line texts = .ok program) : ∀ st ∈ program, st.operands.length ≤ bound := by
  fun_induction ofLines line texts generalizing program with
  | case1 =>
    cases h
    simp
  | case2 => cases h
  | case3 line text rest hnone ih => exact ih (fun t ht => htexts t (by simp [ht])) h
  | case4 line text rest st hst ih =>
    obtain ⟨program, hprogram, rfl⟩ := map_eq_ok.mp h
    intro st' hmem
    rcases List.mem_cons.mp hmem with rfl | hmem
    · exact Nat.le_trans (Statement.length_operands_of_ofLine hst) (htexts text (by simp))
    · exact ih (fun t ht => htexts t (by simp [ht])) hprogram st' hmem

theorem length_operands_of_parse {source : Text} {program : Program}
    (h : parse source = .ok program) : ∀ st ∈ program, st.operands.length ≤ source.length :=
  length_operands_of_ofLines (fun _ => Text.length_le_of_mem_lines) h

end Program
end Ttk91
