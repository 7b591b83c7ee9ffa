import Ttk91.Proofs.SourceReader
import Ttk91.Source.Operand

/-! The grammar of second operands. It is unambiguous, and reading an operand takes it apart as the
grammar does. -/

namespace Ttk91.Operand

/-! The parts of an operand. -/

/-- The sign in front of an operand, which moves the mode. -/
inductive Sign
  | lower
  | none
  | raise
  deriving DecidableEq, Repr

namespace Sign

def text : Sign → Text
  | .lower => ['=']
  | .none => []
  | .raise => ['@']

def mode : Sign → Int
  | .lower => -1
  | .none => 0
  | .raise => 1

theorem eq_of_mode_eq {s s' : Sign} (h : s.mode = s'.mode) : s = s' := by
  cases s <;> cases s' <;> first | rfl | cases h

end Sign

inductive Body
  | register (name : Text)
  | indexed (before name after : Text)
  | address (text : Text)
  deriving DecidableEq, Repr

namespace Body

def text : Body → Text
  | register name => name
  | indexed before name after => before ++ '(' :: (name ++ ')' :: after)
  | address text => text

/-- What a body comes to behind a sign of the given mode and a minus sign or none. A register on its
own lowers the mode and takes no minus sign; a register in parentheses is the first thing in
parentheses, with an address on one side at most. -/
inductive Means (mode : Int) (minus : Text) : Body → Operand → Prop
  | register {name : Text} {r : Register} (h : Register.parse name = .ok r) (hminus : minus = []) :
    Means mode minus (.register name) ⟨mode - 1, r, []⟩
  | indexed {before name after : Text} {r : Register}
    (hnot : Register.isName (indexed before name after).text = false)
    (hbefore : '(' ∉ before) (hname : ')' ∉ name) (h : Register.parse name = .ok r)
    (hside : before = [] ∨ after = []) :
    Means mode minus (.indexed before name after) ⟨mode, r, minus ++ before ++ after⟩
  | address {text : Text} (hnot : Register.isName text = false) (hparen : '(' ∉ text) :
    Means mode minus (.address text) ⟨mode, Register.zero, minus ++ text⟩

end Body

structure Parts where
  sign : Sign
  minus : Bool
  body : Body
  deriving DecidableEq, Repr

namespace Parts

def minusText (parts : Parts) : Text := if parts.minus then ['-'] else []

/-- The parts make up `token` and come to `operand`. A sign that could stand for itself does. -/
structure Reads (parts : Parts) (token : Text) (operand : Operand) : Prop where
  text : token = parts.sign.text ++ (parts.minusText ++ parts.body.text)
  sign : parts.sign = .none → token.head? ≠ some '=' ∧ token.head? ≠ some '@'
  minus : parts.minus = false → parts.body.text.head? ≠ some '-'
  body : parts.body.Means parts.sign.mode parts.minusText operand

end Parts

/-! The reader, part by part. -/

theorem splitMode_append {s : Sign} {rest : Text}
    (h : s = .none → rest.head? ≠ some '=' ∧ rest.head? ≠ some '@') :
    splitMode (s.text ++ rest) = (s.mode, rest) := by
  cases s with
  | lower => rfl
  | raise => rfl
  | none =>
    obtain ⟨hlower, hraise⟩ := h rfl
    simp only [Sign.text, List.nil_append, Sign.mode]
    rw [splitMode.eq_def]
    split
    · exact absurd rfl hlower
    · exact absurd rfl hraise
    · rfl

theorem exists_splitMode (token : Text) :
    ∃ (s : Sign) (rest : Text), token = s.text ++ rest ∧ splitMode token = (s.mode, rest) ∧
      (s = .none → token.head? ≠ some '=' ∧ token.head? ≠ some '@') := by
  unfold splitMode
  split
  · exact ⟨.lower, _, rfl, rfl, nofun⟩
  · exact ⟨.raise, _, rfl, rfl, nofun⟩
  · rename_i hlower hraise
    refine ⟨.none, token, rfl, rfl, fun _ => ?_⟩
    cases token with
    | nil => simp
    | cons c t =>
      constructor
      · rintro heq
        obtain rfl := Option.some.inj heq
        exact hlower t rfl
      · rintro heq
        obtain rfl := Option.some.inj heq
        exact hraise t rfl

theorem splitMinus_append {minus : Bool} {rest : Text}
    (h : minus = false → rest.head? ≠ some '-') :
    splitMinus ((if minus then ['-'] else []) ++ rest) = (if minus then ['-'] else [], rest) := by
  cases minus with
  | true => rfl
  | false =>
    have hhead := h rfl
    simp only [Bool.false_eq_true, if_false, List.nil_append]
    rw [splitMinus.eq_def]
    split
    · exact absurd rfl hhead
    · rfl

theorem exists_splitMinus (text : Text) :
    ∃ (minus : Bool) (rest : Text), text = (if minus then ['-'] else []) ++ rest ∧
      splitMinus text = (if minus then ['-'] else [], rest) ∧
      (minus = false → rest.head? ≠ some '-') := by
  unfold splitMinus
  split
  · exact ⟨true, _, rfl, rfl, nofun⟩
  · rename_i hminus
    refine ⟨false, text, rfl, rfl, fun _ => ?_⟩
    cases text with
    | nil => simp
    | cons c t =>
      rintro heq
      obtain rfl := Option.some.inj heq
      exact hminus t rfl

theorem isName_eq_false_iff {text : Text} :
    Register.isName text = false ↔ ∃ e, Register.parse text = .error e := by
  unfold Register.isName
  cases Register.parse text <;> simp [Except.isOk, Except.toBool]

theorem mem_text_indexed (before name after : Text) : '(' ∈ (Body.indexed before name after).text := by
  simp [Body.text]

theorem cut_text_indexed {before name : Text} (after : Text) (hbefore : '(' ∉ before)
    (hname : ')' ∉ name) :
    Text.cut '(' (Body.indexed before name after).text = (before, some (name ++ ')' :: after)) ∧
      Text.cut ')' (name ++ ')' :: after) = (name, some after) :=
  ⟨Text.cut_append _ hbefore, Text.cut_append _ hname⟩

variable {token : Text} {mode : Int} {minus : Text} {operand : Operand}

theorem parseBody_of_means {body : Body} (h : body.Means mode minus operand) :
    parseBody token mode minus body.text = .ok operand := by
  cases h with
  | register h hminus =>
    subst hminus
    simp only [parseBody, Body.text, h, List.isEmpty_nil, if_true]
  | @indexed before name after r hnot hbefore hname h hside =>
    obtain ⟨e, he⟩ := isName_eq_false_iff.mp hnot
    obtain ⟨hopen, hclose⟩ := cut_text_indexed after hbefore hname
    have hone : (!before.isEmpty && !after.isEmpty) = false := by
      rcases hside with rfl | rfl <;> simp
    simp only [parseBody, he, hopen, hclose, h, hone, Bool.false_eq_true, if_false]
  | address hnot hparen =>
    obtain ⟨e, he⟩ := isName_eq_false_iff.mp hnot
    simp only [parseBody, Body.text, he, Text.cut_of_not_mem hparen]

theorem exists_means_of_parseBody {text : Text}
    (h : parseBody token mode minus text = .ok operand) :
    ∃ body : Body, body.text = text ∧ body.Means mode minus operand := by
  unfold parseBody at h
  split at h
  · rename_i r hr
    split at h
    · rename_i hminus
      cases h
      exact ⟨.register text, rfl, .register hr (List.isEmpty_iff.mp hminus)⟩
    · cases h
  · rename_i e he
    have hnot : Register.isName text = false := isName_eq_false_iff.mpr ⟨e, he⟩
    split at h
    · rename_i before hcut
      cases h
      exact ⟨.address text, rfl, .address hnot (Text.not_mem_of_cut hcut)⟩
    · rename_i before inner hopen
      obtain ⟨rfl, hbefore⟩ := Text.cut_eq_some hopen
      split at h
      · cases h
      · rename_i name after hclose
        obtain ⟨rfl, hname⟩ := Text.cut_eq_some hclose
        split at h
        · cases h
        · rename_i r hr
          split at h
          · cases h
          · rename_i hside
            cases h
            have hone : before = [] ∨ after = [] := by
              cases before with
              | nil => exact Or.inl rfl
              | cons c t => exact Or.inr (by simpa using hside)
            exact ⟨.indexed before name after, rfl, .indexed hnot hbefore hname hr hone⟩

theorem parseBody_eq_ok_iff {text : Text} :
    parseBody token mode minus text = .ok operand ↔
      ∃ body : Body, body.text = text ∧ body.Means mode minus operand := by
  constructor
  · exact exists_means_of_parseBody
  · rintro ⟨body, rfl, h⟩
    exact parseBody_of_means h

namespace Body

theorem isName_of_parse {name : Text} {r : Register} (h : Register.parse name = .ok r) :
    Register.isName name = true := by
  rw [Register.isName, h]
  rfl

theorem Means.unique {mode' : Int} {minus' : Text} {body body' : Body} {operand' : Operand}
    (h : body.Means mode minus operand) (h' : body'.Means mode' minus' operand')
    (htext : body.text = body'.text) : body = body' := by
  cases h with
  | register h =>
    cases h' with
    | register => exact congrArg Body.register htext
    | indexed hnot =>
      rw [← htext, text, isName_of_parse h] at hnot
      cases hnot
    | address hnot =>
      rw [text, text] at htext
      rw [← htext, isName_of_parse h] at hnot
      cases hnot
  | @indexed before name after r hnot hbefore hname h =>
    cases h' with
    | register h' =>
      rw [htext, text, isName_of_parse h'] at hnot
      cases hnot
    | @indexed before' name' after' r' _ hbefore' hname' =>
      obtain ⟨hopen, hclose⟩ := cut_text_indexed after hbefore hname
      obtain ⟨hopen', hclose'⟩ := cut_text_indexed after' hbefore' hname'
      rw [htext, hopen', Prod.mk.injEq, Option.some.injEq] at hopen
      rw [← hopen.2, hclose', Prod.mk.injEq, Option.some.injEq] at hclose
      rw [hopen.1, hclose.1, hclose.2]
    | address _ hparen =>
      have hmem := mem_text_indexed before name after
      rw [htext] at hmem
      exact absurd hmem hparen
  | address hnot hparen =>
    cases h' with
    | register h' =>
      rw [text, text] at htext
      rw [htext, isName_of_parse h'] at hnot
      cases hnot
    | @indexed before name after =>
      have hmem := mem_text_indexed before name after
      rw [← htext] at hmem
      exact absurd hmem hparen
    | address => exact congrArg Body.address htext

end Body

namespace Parts

variable {parts parts' : Parts} {operand' : Operand}

theorem Reads.splitMode_eq (h : parts.Reads token operand) :
    splitMode token = (parts.sign.mode, parts.minusText ++ parts.body.text) := by
  rw [h.text]
  apply splitMode_append
  intro hsign
  have hhead := h.sign hsign
  rwa [h.text, hsign] at hhead

theorem Reads.splitMinus_eq (h : parts.Reads token operand) :
    splitMinus (parts.minusText ++ parts.body.text) = (parts.minusText, parts.body.text) :=
  splitMinus_append h.minus

theorem Reads.parse_eq (h : parts.Reads token operand) : parse token = .ok operand := by
  simp only [parse, h.splitMode_eq, h.splitMinus_eq]
  exact parseBody_of_means h.body

theorem exists_reads_of_parse (h : parse token = .ok operand) :
    ∃ parts : Parts, parts.Reads token operand := by
  obtain ⟨sign, unsigned, htoken, hsplit, hsign⟩ := exists_splitMode token
  obtain ⟨minus, text, rfl, hminus, hplain⟩ := exists_splitMinus unsigned
  simp only [parse, hsplit, hminus] at h
  obtain ⟨body, rfl, hbody⟩ := parseBody_eq_ok_iff.mp h
  exact ⟨⟨sign, minus, body⟩, htoken, hsign, hplain, hbody⟩

theorem minusText_injective {parts parts' : Parts} (h : parts.minusText = parts'.minusText) :
    parts.minus = parts'.minus := by
  unfold minusText at h
  cases hm : parts.minus <;> cases hm' : parts'.minus <;> first | rfl | simp [hm, hm'] at h

theorem Reads.unique (h : parts.Reads token operand) (h' : parts'.Reads token operand') :
    parts = parts' := by
  have hmode := h.splitMode_eq.symm.trans h'.splitMode_eq
  rw [Prod.mk.injEq] at hmode
  have hminus := h.splitMinus_eq
  rw [hmode.2, h'.splitMinus_eq, Prod.mk.injEq] at hminus
  have hbody := h.body.unique h'.body hminus.2.symm
  obtain ⟨sign, minus, body⟩ := parts
  obtain ⟨sign', minus', body'⟩ := parts'
  obtain rfl : sign = sign' := Sign.eq_of_mode_eq hmode.1
  obtain rfl : minus = minus' := minusText_injective hminus.1.symm
  obtain rfl : body = body' := hbody
  rfl

end Parts

/-- A text is an operand exactly when the grammar has parts for it, which are then unique, and it is
read as what they come to. Any other text is refused. -/
theorem parse_grammar (token : Text) :
    (∀ operand, parse token = .ok operand ↔ ∃ parts : Parts, parts.Reads token operand) ∧
    (∀ parts parts' operand operand', Parts.Reads parts token operand →
      Parts.Reads parts' token operand' → parts = parts') ∧
    ((¬ ∃ parts operand, Parts.Reads parts token operand) → ∃ e, parse token = .error e) := by
  refine ⟨fun operand => ⟨Parts.exists_reads_of_parse, fun ⟨parts, h⟩ => h.parse_eq⟩,
    fun parts parts' operand operand' h h' => h.unique h', fun hnone => ?_⟩
  cases h : parse token with
  | error e => exact ⟨e, rfl⟩
  | ok operand =>
    obtain ⟨parts, hparts⟩ := Parts.exists_reads_of_parse h
    exact absurd ⟨parts, operand, hparts⟩ hnone

/-- All parts at once, with a long s in the name of the register, and an operand whose second
parenthesis counts as text. -/
theorem parse_grammar_indexed :
    let parts : Parts := ⟨.raise, true, .indexed "tbl".toList "\u017FP".toList []⟩
    let other : Parts := ⟨.none, false, .indexed [] "r2".toList "=(".toList⟩
    (parse "@-tbl(\u017FP)".toList = .ok ⟨1, 6, "-tbl".toList⟩ ∧
      ∀ parts' operand', Parts.Reads parts' "@-tbl(\u017FP)".toList operand' → parts' = parts) ∧
    parse "(r2)=(".toList = .ok ⟨0, 2, "=(".toList⟩ ∧
      ∀ parts' operand', Parts.Reads parts' "(r2)=(".toList operand' → parts' = other := by
  intro parts other
  have h : parts.Reads "@-tbl(\u017FP)".toList ⟨1, 6, "-tbl".toList⟩ := by
    refine ⟨by decide, nofun, nofun, .indexed (by decide +kernel) (by decide) (by decide) ?_
      (Or.inr rfl)⟩
    exact eq_ok_of_toOption (by decide +kernel)
  have hother : other.Reads "(r2)=(".toList ⟨0, 2, "=(".toList⟩ := by
    refine ⟨by decide, fun _ => by decide, fun _ => by decide, .indexed (by decide +kernel)
      (by decide) (by decide) ?_ (Or.inl rfl)⟩
    exact eq_ok_of_toOption (by decide +kernel)
  have hgrammar := parse_grammar "@-tbl(\u017FP)".toList
  have hgrammar' := parse_grammar "(r2)=(".toList
  exact ⟨⟨(hgrammar.1 _).mpr ⟨parts, h⟩, fun _ _ h' => hgrammar.2.1 _ _ _ _ h' h⟩,
    (hgrammar'.1 _).mpr ⟨other, hother⟩, fun _ _ h' => hgrammar'.2.1 _ _ _ _ h' hother⟩

end Ttk91.Operand
