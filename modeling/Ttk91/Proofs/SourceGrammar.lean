import Ttk91.Proofs.ImageGrammar
import Ttk91.Proofs.KnownKeywords

/-! The lines that can be read, and the statements that are read from them. A keyword is found by
its kind once as it is written and once in upper case; both finds agree, so the later passes know
the keywords of all statements. -/

namespace Ttk91

theorem Text.pieces_map {sep sep' : Char → Bool} {f : Char → Char} (hsep : ∀ c, sep' (f c) = sep c)
    (hfix : ∀ c, sep c = false → f c = c) (t : Text) : pieces sep' (t.map f) = pieces sep t := by
  induction t with
  | nil => rfl
  | cons c t ih =>
    cases hc : sep c with
    | true => simp [pieces, hsep, hc, ih]
    | false =>
      have hsame := hfix c hc
      have hc' : sep' c = false := by rw [← hsame, hsep, hc]
      simp [pieces, hc, hc', ih, hsame]

namespace Statement

/-- The words of a line: its comment is left out, and its commas become spaces. -/
def lineWords (text : Text) : List Text :=
  Text.words ((Text.cut ';' text).1.map fun c => if c = ',' then ' ' else c)

theorem words_eq_lineWords (text : Text) : words (Text.cut ';' text).1 = lineWords text := by
  have hsep (c : Char) : Text.isBlank (if c = ',' then ' ' else c) = isSeparator c := by
    by_cases hc : c = ','
    · simp [hc, isSeparator]
      decide
    · simp [hc, isSeparator]
  have hfix (c : Char) (hc : isSeparator c = false) : (if c = ',' then ' ' else c) = c := by
    rw [if_neg]
    rintro rfl
    cases hc
  rw [words, Text.wordsBy, lineWords, Text.words, Text.wordsBy, Text.pieces_map hsep hfix]

/-- What the words of a line can be: none at all, a keyword with its operands, or a label in front
of these. -/
inductive IsLine : List Text → Prop
  | blank : IsLine []
  | bare {word : Text} {operands : List Text} (h : (WordKind.ofWord word).IsKeyword) :
    IsLine (word :: operands)
  | labelled {label word : Text} {operands : List Text} (hlabel : WordKind.ofWord label = .plain)
    (h : (WordKind.ofWord word).IsKeyword) : IsLine (label :: word :: operands)

inductive IsAt (line : Nat) (text : Text) : Statement → Prop
  | bare {word : Text} {operands : List Text} (hwords : lineWords text = word :: operands)
    (h : (WordKind.ofWord word).IsKeyword) :
    IsAt line text ⟨WordKind.ofWord word, Text.upper word, operands, line, none,
      (Text.cut ';' text).2⟩
  | labelled {label word : Text} {operands : List Text}
    (hwords : lineWords text = label :: word :: operands)
    (hlabel : WordKind.ofWord label = .plain) (h : (WordKind.ofWord word).IsKeyword) :
    IsAt line text ⟨WordKind.ofWord word, Text.upper word, operands, line, some label,
      (Text.cut ';' text).2⟩

variable {line : Nat} {text : Text} {st : Statement}

theorem IsLine.exists_isAt (h : IsLine (lineWords text)) (line : Nat) :
    lineWords text = [] ∨ lineWords text ≠ [] ∧ ∃ st, IsAt line text st := by
  generalize hwords : lineWords text = ws at h
  cases h with
  | blank => exact Or.inl rfl
  | bare h => exact Or.inr ⟨by simp, _, .bare hwords h⟩
  | labelled hlabel h => exact Or.inr ⟨by simp, _, .labelled hwords hlabel h⟩

theorem IsAt.line_eq (h : IsAt line text st) : st.line = line := by
  cases h <;> rfl

theorem IsAt.ofWord_label (h : IsAt line text st) {label : Text} (hlabel : st.label = some label) :
    WordKind.ofWord label = .plain := by
  cases h with
  | bare => cases hlabel
  | labelled _ hplain =>
    obtain rfl := Option.some.inj hlabel
    exact hplain

theorem IsAt.keyword_mem (h : IsAt line text st) : st.keyword ∈ st.kind.spellings := by
  cases h with
  | bare _ h => exact WordKind.upper_mem_spellings h
  | labelled _ _ h => exact WordKind.upper_mem_spellings h

/-! The reader, line by line. -/

theorem ofKeyword_of_isKeyword {word : Text} (h : (WordKind.ofWord word).IsKeyword) (line : Int)
    (label comment : Option Text) (operands : List Text) :
    ofKeyword line label comment word operands =
      .ok ⟨WordKind.ofWord word, Text.upper word, operands, line, label, comment⟩ := by
  unfold ofKeyword
  simp only [WordKind.ofWord_upper]
  split
  · rename_i hplain
    exact absurd hplain (WordKind.isKeyword_iff.mp h).1
  · rename_i hregister
    exact absurd hregister (WordKind.isKeyword_iff.mp h).2
  · rfl

theorem ofKeyword_of_not_isKeyword {word : Text} (h : ¬ (WordKind.ofWord word).IsKeyword)
    (line : Int) (label comment : Option Text) (operands : List Text) :
    ∃ fault, ofKeyword line label comment word operands = .error fault ∧
      fault.category = .lexical := by
  unfold ofKeyword
  simp only [WordKind.ofWord_upper]
  split
  · exact ⟨_, rfl, rfl⟩
  · exact ⟨_, rfl, rfl⟩
  · rename_i hplain hregister
    exact absurd (WordKind.isKeyword_iff.mpr ⟨hplain, hregister⟩) h

theorem ofLine_of_nil (line : Int) (h : lineWords text = []) : ofLine line text = .ok none := by
  simp [ofLine, words_eq_lineWords, h]

theorem IsAt.ofLine_eq (h : IsAt line text st) : ofLine line text = .ok (some st) := by
  cases h with
  | bare hwords h =>
    simp only [ofLine, words_eq_lineWords, hwords, (WordKind.isKeyword_iff.mp h).1, if_false,
      ofKeyword_of_isKeyword h, Except.map]
  | labelled hwords hlabel h =>
    simp only [ofLine, words_eq_lineWords, hwords, hlabel, if_true, ofKeyword_of_isKeyword h,
      Except.map]

theorem ofLine_of_not_isLine (line : Int) (h : ¬ IsLine (lineWords text)) :
    ∃ fault, ofLine line text = .error fault ∧ fault.category = .lexical := by
  unfold ofLine
  simp only [words_eq_lineWords]
  generalize lineWords text = ws at h ⊢
  split
  · exact absurd .blank h
  · rename_i word rest
    split
    · rename_i hplain
      split
      · exact ⟨_, rfl, rfl⟩
      · rename_i keyword operands
        obtain ⟨fault, hfault, hcategory⟩ := ofKeyword_of_not_isKeyword
          (fun hkeyword => h (.labelled hplain hkeyword)) line (some word) (Text.cut ';' text).2
          operands
        exact ⟨fault, map_eq_error.mpr hfault, hcategory⟩
    · obtain ⟨fault, hfault, hcategory⟩ := ofKeyword_of_not_isKeyword
        (fun hkeyword => h (.bare hkeyword)) line none (Text.cut ';' text).2 rest
      exact ⟨fault, map_eq_error.mpr hfault, hcategory⟩

end Statement

namespace Program

open Statement (IsLine IsAt lineWords)

variable {first : Nat} {texts : List Text} {program rest : Program} {st : Statement}

def wordedLines (first : Nat) (texts : List Text) : List (Text × Nat) :=
  (texts.zipIdx first).filter fun entry => !(lineWords entry.1).isEmpty

theorem wordedLines_cons_of_nil {text : Text} (h : lineWords text = []) :
    wordedLines first (text :: texts) = wordedLines (first + 1) texts := by
  simp [wordedLines, List.zipIdx_cons, h]

theorem wordedLines_cons_of_ne {text : Text} (h : lineWords text ≠ []) :
    wordedLines first (text :: texts) = (text, first) :: wordedLines (first + 1) texts := by
  simp [wordedLines, List.zipIdx_cons, h]

theorem wordedLines_increasing (first : Nat) (texts : List Text) :
    (wordedLines first texts).Pairwise fun a b => a.2 < b.2 := by
  have hnumbers : ((texts.zipIdx first).map Prod.snd).Pairwise (· < ·) := by
    rw [List.zipIdx_map_snd]
    exact List.pairwise_lt_range'
  exact (List.pairwise_map.mp hnumbers).filter _

theorem ofLines_of_isLine (h : ∀ text ∈ texts, IsLine (lineWords text)) (first : Nat) :
    ∃ program, ofLines first texts = .ok program ∧
      List.Forall₂ (fun entry st => IsAt entry.2 entry.1 st) (wordedLines first texts) program := by
  induction texts generalizing first with
  | nil => exact ⟨[], rfl, .nil⟩
  | cons text texts ih =>
    obtain ⟨hline, hlines⟩ := List.forall_mem_cons.mp h
    obtain ⟨program, hprogram, hstatements⟩ := ih hlines (first + 1)
    rcases hline.exists_isAt first with hnil | ⟨hne, st, hst⟩
    · refine ⟨program, ?_, by rwa [wordedLines_cons_of_nil hnil]⟩
      simp only [ofLines, Statement.ofLine_of_nil _ hnil, hprogram]
    · refine ⟨st :: program, ?_, by rw [wordedLines_cons_of_ne hne]; exact .cons hst hstatements⟩
      simp only [ofLines, hst.ofLine_eq, hprogram, Except.map]

/-- A failure at the first line that cannot be read. -/
def BlamesFirst (first : Nat) (texts : List Text) (failure : Failure) : Prop :=
  ∃ (index : Nat) (text : Text) (fault : Fault),
    failure = .faulty (first + index : Nat) fault ∧ fault.category = .lexical ∧
    texts[index]? = some text ∧ ¬ IsLine (lineWords text) ∧
    ∀ earlier ∈ texts.take index, IsLine (lineWords earlier)

theorem ofLines_of_not_isLine (h : ∃ text ∈ texts, ¬ IsLine (lineWords text)) (first : Nat) :
    ∃ failure, ofLines first texts = .error failure ∧ BlamesFirst first texts failure := by
  induction texts generalizing first with
  | nil => simp at h
  | cons text texts ih =>
    by_cases hline : IsLine (lineWords text)
    · have hlater : ∃ later ∈ texts, ¬ IsLine (lineWords later) := by
        obtain ⟨bad, hmem, hbad⟩ := h
        rcases List.mem_cons.mp hmem with rfl | hmem
        · exact absurd hline hbad
        · exact ⟨bad, hmem, hbad⟩
      obtain ⟨failure, hfailure, index, bad, fault, rfl, hcategory, hget, hbad, hearlier⟩ :=
        ih hlater (first + 1)
      have hnumber : first + 1 + index = first + (index + 1) := by omega
      rw [hnumber] at hfailure
      refine ⟨_, ?_, index + 1, bad, fault, rfl, hcategory, hget, hbad, ?_⟩
      · rcases hline.exists_isAt first with hnil | ⟨-, st, hst⟩
        · simp only [ofLines, Statement.ofLine_of_nil _ hnil, hfailure]
        · simp only [ofLines, hst.ofLine_eq, hfailure, Except.map]
      · rw [List.take_succ_cons, List.forall_mem_cons]
        exact ⟨hline, hearlier⟩
    · obtain ⟨fault, hfault, hcategory⟩ := Statement.ofLine_of_not_isLine first hline
      refine ⟨.faulty first fault, by simp only [ofLines, hfault], 0, text, fault, rfl, hcategory,
        rfl, hline, by simp⟩

/-! Whole source texts. -/

/-- What is true of a program that was read from the given lines. -/
structure ReadFrom (texts : List Text) (program : Program) : Prop where
  statements : List.Forall₂ (fun entry st => IsAt entry.2 entry.1 st) (wordedLines 1 texts) program
  increasing : program.Pairwise fun st later => st.line < later.line
  label : ∀ st ∈ program, ∀ label, st.label = some label → WordKind.ofWord label = .plain
  keyword : ∀ st ∈ program, st.keyword ∈ st.kind.spellings
  origin : ∀ failure, program.origin = .error failure → Known failure
  dataSegment : ∀ failure, program.dataSegment = .error failure → Known failure
  encode : ∀ symbols address failure,
    program.encode symbols address = .error failure → Known failure
  instruction : ∀ st ∈ program, st.kind = .code →
    ∀ symbols fault, st.encode symbols = .error fault → fault.isForeign = false

theorem increasing_of_forall₂ {entries : List (Text × Nat)}
    (h : List.Forall₂ (fun entry st => IsAt entry.2 entry.1 st) entries program)
    (hentries : entries.Pairwise fun a b => a.2 < b.2) :
    program.Pairwise fun st later => st.line < later.line := by
  induction h with
  | nil => exact .nil
  | @cons entry st entries program hst hrest ih =>
    rw [List.pairwise_cons] at hentries
    refine .cons (fun later hlater => ?_) (ih hentries.2)
    obtain ⟨other, hother, hat⟩ := Image.exists_mem_of_forall₂ hrest hlater
    rw [hst.line_eq, hat.line_eq]
    exact Int.ofNat_lt.mpr (hentries.1 other hother)

theorem readFrom_of_forall₂ {texts : List Text}
    (h : List.Forall₂ (fun entry st => IsAt entry.2 entry.1 st) (wordedLines 1 texts) program) :
    ReadFrom texts program := by
  have hat : ∀ st ∈ program, ∃ line text, IsAt line text st := by
    intro st hst
    obtain ⟨entry, -, hentry⟩ := Image.exists_mem_of_forall₂ h hst
    exact ⟨entry.2, entry.1, hentry⟩
  have hkeyword : ∀ st ∈ program, st.keyword ∈ st.kind.spellings := by
    intro st hst
    obtain ⟨line, text, hst⟩ := hat st hst
    exact hst.keyword_mem
  refine ⟨h, increasing_of_forall₂ h (wordedLines_increasing 1 texts), fun st hst label hlabel => ?_,
    hkeyword, fun _ => known_of_originAfter hkeyword, fun _ => known_of_dataSegment hkeyword,
    fun _ _ _ => known_of_encode hkeyword, fun st hst hcode symbols fault => ?_⟩
  · obtain ⟨line, text, hst⟩ := hat st hst
    exact hst.ofWord_label hlabel
  · exact Statement.isForeign_of_encode (hcode ▸ hkeyword st hst)

/-- A source text can be read exactly when each of its lines holds no words, a keyword with its
operands, or a label in front of these; otherwise the first line that is not so is blamed. What is
read is one statement for each line with words, and the passes know its keyword. -/
theorem parse_outcome (source : Text) :
    ((∃ program, parse source = .ok program) ↔
      ∀ text ∈ Text.lines source, IsLine (lineWords text)) ∧
    (∀ failure, parse source = .error failure → BlamesFirst 1 (Text.lines source) failure) ∧
    ∀ program, parse source = .ok program → ReadFrom (Text.lines source) program := by
  by_cases h : ∀ text ∈ Text.lines source, IsLine (lineWords text)
  · obtain ⟨program, hprogram, hstatements⟩ := ofLines_of_isLine h 1
    have hparse : parse source = .ok program := hprogram
    refine ⟨⟨fun _ => h, fun _ => ⟨program, hparse⟩⟩, fun failure hfailure => ?_,
      fun other hother => ?_⟩
    · rw [hparse] at hfailure
      cases hfailure
    · obtain rfl := Except.ok.inj (hparse.symm.trans hother)
      exact readFrom_of_forall₂ hstatements
  · have hbad : ∃ text ∈ Text.lines source, ¬ IsLine (lineWords text) := by simpa using h
    obtain ⟨failure, hfailure, hblames⟩ := ofLines_of_not_isLine hbad 1
    have hparse : parse source = .error failure := hfailure
    refine ⟨⟨fun ⟨program, hprogram⟩ => ?_, fun hall => absurd hall h⟩, fun other hother => ?_,
      fun program hprogram => ?_⟩
    · rw [hparse] at hprogram
      cases hprogram
    · obtain rfl := Except.error.inj (hparse.symm.trans hother)
      exact hblames
    · rw [hparse] at hprogram
      cases hprogram

/-- A keyword with a ligature, a label, and lines without words. In the other text, a long s makes a
register of the word that opens the second line. -/
theorem parse_outcome_ligature :
    let source := "x\t\uFB06ore r1,x ; put\n ; only\n\norg 7".toList
    let program : Program :=
      [⟨.code, "STORE".toList, ["r1".toList, "x".toList], 1, some "x".toList, some " put".toList⟩,
       ⟨.directive, "ORG".toList, ["7".toList], 4, none, none⟩]
    let refused := "nop\n\u017Fp add r2\nlone".toList
    let failure : Failure := .faulty 2 (.registerAsKeyword "SP".toList)
    (parse source = .ok program ∧ ReadFrom (Text.lines source) program) ∧
      parse refused = .error failure ∧ BlamesFirst 1 (Text.lines refused) failure := by
  intro source program refused failure
  have hsource : parse source = .ok program := eq_ok_of_toOption (by decide +kernel)
  have hrefused : parse refused = .error failure := by decide +kernel
  exact ⟨⟨hsource, (parse_outcome source).2.2 program hsource⟩, hrefused,
    (parse_outcome refused).2.1 failure hrefused⟩

end Program
end Ttk91
