import Ttk91.Proofs.AssembledImage
import Ttk91.Proofs.EncoderDomain
import Ttk91.Proofs.Faults

/-! Failures are reported at lines of the source. Each pass over a program blames one of its
statements, every statement stands on a line with words, and no number in a message is far beyond
the length of the source. -/

namespace Ttk91

/-- Among the given texts, the first of which is line `first`, this line has a word before its
comment. -/
def HasWords (first : Nat) (texts : List Text) (line : Int) : Prop :=
  ∃ (index : Nat) (text : Text), line = first + index ∧ texts[index]? = some text ∧
    Statement.words (Text.cut ';' text).1 ≠ []

namespace HasWords

variable {first : Nat} {text : Text} {rest : List Text}

theorem head {result : Except Fault (Option Statement)}
    (h : Statement.ofLine first text = result) (hne : result ≠ .ok none) :
    HasWords first (text :: rest) first := by
  refine ⟨0, text, by simp, rfl, fun hnil => hne ?_⟩
  simp [← h, Statement.ofLine, hnil]

theorem tail {line : Int} (h : HasWords (first + 1) rest line) :
    HasWords first (text :: rest) line := by
  obtain ⟨index, text', rfl, hget, hwords⟩ := h
  exact ⟨index + 1, text', by omega, hget, hwords⟩

theorem natAbs_le {source : Text} {line : Int} (h : HasWords 1 (Text.lines source) line) :
    line.natAbs ≤ source.length := by
  obtain ⟨index, text, rfl, hget, -⟩ := h
  have hindex := (List.getElem?_eq_some_iff.mp hget).1
  have hlines := Text.length_lines_le source
  omega

end HasWords

theorem SymbolTable.Resolves.natAbs_le {symbols : SymbolTable} {bound : Nat}
    (hbound : 2 ^ 31 ≤ bound)
    (hsymbols : ∀ name s, symbols.find? name = some s → s.offset.natAbs ≤ bound) {text : Text}
    {n : Int} (h : symbols.Resolves text n) : n.natAbs ≤ bound := by
  cases h with
  | empty => simp
  | constant hne h =>
    have := Literal.constant?_bounds h
    omega
  | symbol hne hconstant h => exact hsymbols text _ h
  | literal hne hconstant hsymbol h =>
    have := Literal.integer_bounds h
    omega

/-! The numbers in messages. -/

theorem Fault.OfValue.numbers_eq {fault : Fault} (h : fault.OfValue) : fault.numbers = [] := by
  cases h <;> rfl

namespace Statement

variable {st : Statement} {fault : Fault}

theorem numbers_of_ofKeyword {line : Int} {label comment : Option Text} {word : Text}
    {operands : List Text} (h : ofKeyword line label comment word operands = .error fault) :
    fault.numbers = [] := by
  unfold ofKeyword at h
  simp only at h
  split at h <;> cases h <;> rfl

theorem numbers_of_ofLine {line : Int} {text : Text} (h : ofLine line text = .error fault) :
    fault.numbers = [] := by
  unfold ofLine at h
  simp only at h
  split at h
  · cases h
  · split at h
    · split at h
      · cases h
        rfl
      · exact numbers_of_ofKeyword (map_eq_error.mp h)
    · exact numbers_of_ofKeyword (map_eq_error.mp h)

theorem numbers_of_dataWords (h : st.dataWords = .error fault) : fault.numbers = [] := by
  rcases dataWords_eq_error h with hvalue | ⟨rfl, -⟩
  · exact hvalue.numbers_eq
  · rfl

theorem natAbs_le_of_encode {symbols : SymbolTable} {bound : Nat} (hbound : 2 ^ 31 ≤ bound)
    (hsymbols : ∀ name s, symbols.find? name = some s → s.offset.natAbs ≤ bound)
    (hoperands : st.operands.length ≤ bound) (h : st.encode symbols = .error fault) :
    ∀ n ∈ fault.numbers, n.natAbs ≤ bound := by
  cases encodeFault_of_encode h with
  | operandCount i =>
    have hformat : i.format.operands ≤ 2 := by cases i.format <;> decide
    simp only [Fault.numbers, List.mem_cons, List.not_mem_nil, or_false, forall_eq_or_imp,
      forall_eq, Int.natAbs_natCast]
    omega
  | modeOutOfRange hnamed hsecond =>
    obtain ⟨operand, hparse, -, rfl, -⟩ := Instruction.second_eq_ok_iff.mp hsecond
    have hshift := Operand.mode_bounds_of_parse hparse
    have hdefault := Instruction.defaultMode_of_mem (Instruction.mem_of_named? hnamed).1
    simp only [Fault.numbers, List.mem_singleton, forall_eq]
    omega
  | addressOutOfRange hsecond =>
    obtain ⟨operand, -, hresolves, -⟩ := Instruction.second_eq_ok_iff.mp hsecond
    simpa [Fault.numbers] using hresolves.natAbs_le hbound hsymbols
  | _ => simp [Fault.numbers]

end Statement

namespace Program

variable {program rest : Program} {st : Statement} {failure : Failure} {bound : Nat}

/-! Reading. -/

theorem hasWords_of_ofLines {first : Nat} {texts : List Text}
    (h : ofLines first texts = .ok program) : ∀ st ∈ program, HasWords first texts st.line := by
  fun_induction ofLines first texts generalizing program with
  | case1 =>
    cases h
    simp
  | case2 => cases h
  | case3 first text rest hnone ih => exact fun st hst => (ih h st hst).tail
  | case4 first text rest st hst ih =>
    obtain ⟨program, hprogram, rfl⟩ := map_eq_ok.mp h
    intro st' hmem
    rcases List.mem_cons.mp hmem with rfl | hmem
    · rw [(Statement.ofLine_eq_some hst).1]
      exact .head hst (by simp)
    · exact (ih hprogram st' hmem).tail

theorem ofLines_eq_error {first : Nat} {texts : List Text}
    (h : ofLines first texts = .error failure) :
    ∃ line fault, failure = .faulty line fault ∧ fault.numbers = [] ∧
      HasWords first texts line := by
  fun_induction ofLines first texts with
  | case1 => cases h
  | case2 first text rest fault hfault =>
    cases h
    exact ⟨first, fault, rfl, Statement.numbers_of_ofLine hfault, .head hfault (by simp)⟩
  | case3 first text rest hnone ih =>
    obtain ⟨line, fault, heq, hnumbers, hline⟩ := ih h
    exact ⟨line, fault, heq, hnumbers, hline.tail⟩
  | case4 first text rest st hst ih =>
    obtain ⟨line, fault, heq, hnumbers, hline⟩ := ih (map_eq_error.mp h)
    exact ⟨line, fault, heq, hnumbers, hline.tail⟩

/-! The passes. -/

/-- A failure that is a fault of one of the statements, with no number beyond the bound in its
message. -/
def Blames (bound : Nat) (program : Program) (failure : Failure) : Prop :=
  ∃ st ∈ program, ∃ fault, failure = .faulty st.line fault ∧
    ∀ n ∈ fault.numbers, n.natAbs ≤ bound

theorem Blames.head {fault : Fault} (h : ∀ n ∈ fault.numbers, n.natAbs ≤ bound) :
    Blames bound (st :: rest) (.faulty st.line fault) :=
  ⟨st, by simp, fault, rfl, h⟩

theorem Blames.head_of_nil {fault : Fault} (h : fault.numbers = []) :
    Blames bound (st :: rest) (.faulty st.line fault) :=
  .head (by simp [h])

theorem Blames.tail (h : Blames bound rest failure) : Blames bound (st :: rest) failure := by
  obtain ⟨st', hmem, hfault⟩ := h
  exact ⟨st', by simp [hmem], hfault⟩

theorem blames_of_originAfter {found : Option Int}
    (h : originAfter found program = .error failure) : Blames bound program failure := by
  obtain ⟨st, hst, -, fault, rfl, hfault⟩ := originAfter_eq_error h
  have hnumbers : fault.numbers = [] := by
    rcases hfault with hvalue | rfl | ⟨rfl, -⟩
    · exact hvalue.numbers_eq
    · rfl
    · rfl
  exact ⟨st, hst, fault, rfl, by simp [hnumbers]⟩

theorem blames_of_symbolsFrom {code data : Int} {table : SymbolTable}
    (h : symbolsFrom code data table program = .error failure) : Blames bound program failure := by
  fun_induction symbolsFrom code data table program with
  | case1 => cases h
  | case2 =>
    cases h
    exact .head_of_nil rfl
  | case3 code data table st rest hkind name hname fault hfault =>
    cases h
    exact .head_of_nil (Statement.ofValue_of_constantValue hfault).numbers_eq
  | case4 code data table st rest hkind name hname n hn ih => exact (ih h).tail
  | case5 code data table st rest hkind ih => exact (ih h).tail
  | case6 code data table st rest hkind fault hfault =>
    cases h
    exact .head_of_nil (Statement.ofValue_of_span hfault).numbers_eq
  | case7 code data table st rest hkind n hn ih => exact (ih h).tail
  | case8 code data table st rest hconst hcode hdata ih => exact (ih h).tail

theorem blames_of_dataSegment (h : dataSegment program = .error failure) :
    Blames bound program failure := by
  obtain ⟨st, hst, -, fault, rfl, hfault⟩ := dataSegment_eq_error h
  exact ⟨st, hst, fault, rfl, by simp [Statement.numbers_of_dataWords hfault]⟩

/-- The data statements before the blamed one end in memory, and it reserves less than `2 ^ 31`
words itself. -/
theorem blames_of_checkDataAfter {last : Int} (hlast : last + 2 ^ 31 ≤ bound)
    (hbound : lastAddress + 2 ^ 31 ≤ bound) (h : checkDataAfter last program = .error failure) :
    Blames bound program failure := by
  fun_induction checkDataAfter last program with
  | case1 => cases h
  | case2 last st rest hkind fault hfault =>
    cases h
    exact .head_of_nil (Statement.ofValue_of_size hfault).numbers_eq
  | case3 last st rest hkind n hsize hbeyond =>
    cases h
    have hn : n < 2 ^ 31 := by
      unfold Statement.size at hsize
      split at hsize
      · cases hsize
        decide
      · exact (Statement.value_bounds (Statement.reservation_eq_ok hsize).1).2
    apply Blames.head
    simp only [Fault.numbers, List.mem_singleton, forall_eq]
    simp only [lastAddress] at hbeyond
    omega
  | case4 last st rest hkind n hsize hfits ih => exact (ih (by omega) h).tail
  | case5 last st rest hkind ih => exact (ih hlast h).tail

theorem blames_of_encode {symbols : SymbolTable} {address : Int} (hbound : 2 ^ 31 ≤ bound)
    (hsymbols : ∀ name s, symbols.find? name = some s → s.offset.natAbs ≤ bound)
    (hoperands : ∀ st ∈ program, st.operands.length ≤ bound)
    (h : encode symbols address program = .error failure) : Blames bound program failure := by
  obtain ⟨st, hst, -, fault, rfl, hfault⟩ := encode_eq_error h
  exact ⟨st, hst, fault, rfl,
    Statement.natAbs_le_of_encode hbound hsymbols (hoperands st hst) hfault⟩

theorem blames_of_commentsFrom {code data : Int} {table : Table Int Text}
    (h : commentsFrom code data table program = .error failure) :
    Blames bound program failure := by
  fun_induction commentsFrom code data table program with
  | case1 => cases h
  | case2 code data table st rest hkind ih => exact (ih h).tail
  | case3 code data table st rest hkind fault hfault =>
    cases h
    exact .head_of_nil (Statement.ofValue_of_size hfault).numbers_eq
  | case4 code data table st rest hkind n hsize ih => exact (ih h).tail
  | case5 code data table st rest hcode hdata ih => exact (ih h).tail

/-! Whole programs. -/

theorem layout_eq_error (hbound : program.length + 2 ^ 32 ≤ bound)
    (h : program.layout = .error failure) :
    failure = .repeated program.repeatedLabels ∧ program.repeatedLabels ≠ [] ∨
      Blames bound program failure := by
  rcases bind_eq_error.mp h with hlabels | ⟨⟨⟩, -, h⟩
  · exact Or.inl (checkLabels_eq_error hlabels)
  right
  rcases bind_eq_error.mp h with horigin | ⟨origin, horigin, h⟩
  · exact blames_of_originAfter horigin
  rcases bind_eq_error.mp h with hsymbols | ⟨symbols, -, h⟩
  · exact blames_of_symbolsFrom hsymbols
  rcases bind_eq_error.mp h with hfits | ⟨⟨⟩, -, h⟩
  · have hstart := bounds_of_origin horigin
    have hsize : program.codeSize ≤ program.length := List.countP_le_length
    exact blames_of_checkDataAfter (by omega) (by simp only [lastAddress]; omega) hfits
  · cases h

theorem natAbs_offset_le {layout : Layout} (h : program.layout = .ok layout)
    (hdata : ∀ st ∈ program, st.kind = .data → st.IsData) {name : Text} {s : Symbol}
    (hfind : layout.symbols.find? name = some s) :
    s.offset.natAbs ≤ program.length + 2 ^ 31 := by
  obtain ⟨origin, symbols, hlabels, -, hsymbols, -, hlayout⟩ := layout_eq_ok h
  have heq : layout.symbols =
      (placements layout.origin layout.dataStart program).filterMap symbolEntry := by
    rw [hlayout]
    exact relocate_symbols_eq (checkLabels_eq_ok_iff.mp hlabels) hdata hsymbols _ _
  rw [heq] at hfind
  obtain ⟨p, hp, hentry⟩ := List.mem_filterMap.mp (Table.mem_of_find? hfind)
  obtain ⟨label, -, hpair⟩ := Option.map_eq_some_iff.mp hentry
  obtain ⟨-, rfl⟩ := Prod.mk.inj hpair
  have hbounds := offset_bounds h hp
  omega

theorem assemble_eq_error (hbound : program.length + 2 ^ 32 ≤ bound)
    (hoperands : ∀ st ∈ program, st.operands.length ≤ bound)
    (h : program.assemble = .error failure) :
    failure = .repeated program.repeatedLabels ∧ program.repeatedLabels ≠ [] ∨
      Blames bound program failure := by
  rcases bind_eq_error.mp h with hlayout | ⟨layout, hlayout, h⟩
  · exact layout_eq_error hbound hlayout
  right
  rcases bind_eq_error.mp h with hdata | ⟨data, hdata, h⟩
  · exact blames_of_dataSegment hdata
  rcases bind_eq_error.mp h with hcode | ⟨code, -, h⟩
  · refine blames_of_encode (by omega) (fun name s hfind => ?_) hoperands hcode
    have hoffset := natAbs_offset_le hlayout (isData_of_dataSegment hdata) hfind
    omega
  rcases bind_eq_error.mp h with hcomments | ⟨comments, -, h⟩
  · exact blames_of_commentsFrom hcomments
  · cases h

end Program

/-- What a refused source text can be blamed for: a fault on one of its lines, or labels that it
defines more than once. -/
inductive Failure.Of (source : Text) : Failure → Prop
  | faulty {line : Int} {fault : Fault} (hline : HasWords 1 (Text.lines source) line)
    (hnumbers : ∀ n ∈ fault.numbers, n.natAbs ≤ source.length + 2 ^ 32) :
    Of source (.faulty line fault)
  | repeated {program : Program} (hparse : Program.parse source = .ok program)
    (hne : program.repeatedLabels ≠ []) : Of source (.repeated program.repeatedLabels)

theorem Failure.of_assemble {source : Text} {failure : Failure}
    (h : assemble source = .error failure) : Failure.Of source failure := by
  rcases bind_eq_error.mp h with hparse | ⟨program, hparse, h⟩
  · obtain ⟨line, fault, rfl, hnumbers, hline⟩ := Program.ofLines_eq_error hparse
    exact .faulty hline (by simp [hnumbers])
  · have hlength := Program.length_le_of_parse hparse
    have hbound : program.length + 2 ^ 32 ≤ source.length + 2 ^ 32 := by omega
    have hoperands : ∀ st ∈ program, st.operands.length ≤ source.length + 2 ^ 32 := fun st hst =>
      Nat.le_add_right_of_le (Program.length_operands_of_parse hparse st hst)
    rcases Program.assemble_eq_error hbound hoperands h with
      ⟨rfl, hne⟩ | ⟨st, hst, fault, rfl, hnumbers⟩
    · exact .repeated hparse hne
    · exact .faulty (Program.hasWords_of_ofLines hparse st hst) hnumbers

namespace Program

variable {source : Text} {program : Program}

theorem hasWords_of_mem_linesOf (h : parse source = .ok program) {label : Text} {line : Int}
    (hline : line ∈ linesOf label program) : HasWords 1 (Text.lines source) line := by
  obtain ⟨st, hst, rfl⟩ := List.mem_map.mp hline
  exact hasWords_of_ofLines h st (List.mem_filter.mp hst).1

theorem line_of_mem_repeatedLabels (h : parse source = .ok program) {r : Repeated}
    (hr : r ∈ program.repeatedLabels) :
    ∃ line, r.diagnostic.line = some line ∧ HasWords 1 (Text.lines source) line := by
  obtain ⟨hlines, hmany⟩ := mem_repeatedLabels_iff.mp hr
  rw [← length_linesOf, ← hlines] at hmany
  have hmem : r.lines[1] ∈ linesOf r.label program := hlines ▸ List.getElem_mem hmany
  exact ⟨r.lines[1], List.getElem?_eq_getElem hmany, hasWords_of_mem_linesOf h hmem⟩

end Program

namespace Failure

variable {source : Text} {failure : Failure}

theorem Of.report_ne_nil (h : failure.Of source) : failure.report.diagnostics ≠ [] := by
  cases h with
  | faulty hline hnumbers => simp [report, Report.single]
  | repeated hparse hne => simpa [report] using hne

theorem Of.line_of_mem (h : failure.Of source) :
    ∀ d ∈ failure.report.diagnostics,
      ∃ line, d.line = some line ∧ HasWords 1 (Text.lines source) line := by
  intro d hd
  cases h with
  | faulty hline hnumbers =>
    obtain rfl := List.mem_singleton.mp hd
    exact ⟨_, rfl, hline⟩
  | repeated hparse hne =>
    obtain ⟨r, hr, rfl⟩ := List.mem_map.mp hd
    exact Program.line_of_mem_repeatedLabels hparse hr

theorem Of.natAbs_le (h : failure.Of source) :
    ∀ n ∈ failure.numbers, n.natAbs ≤ source.length + 2 ^ 32 := by
  intro n hn
  cases h with
  | faulty hline hnumbers =>
    rcases List.mem_cons.mp hn with rfl | hn
    · exact Nat.le_add_right_of_le hline.natAbs_le
    · exact hnumbers n hn
  | repeated hparse hne =>
    obtain ⟨r, hr, hn⟩ := List.mem_flatMap.mp hn
    rw [(Program.mem_repeatedLabels_iff.mp hr).1] at hn
    exact Nat.le_add_right_of_le (Program.hasWords_of_mem_linesOf hparse hn).natAbs_le

theorem checkedReport_eq_ok {bound : Nat} (h : ∀ n ∈ failure.numbers, n.natAbs ≤ bound)
    (hbound : bound < Text.numeralBound) : failure.checkedReport = .ok failure.report := by
  have hshow : failure.numbers.all Text.isShowable = true := by
    rw [List.all_eq_true]
    exact fun n hn => decide_eq_true (Nat.lt_of_le_of_lt (h n hn) hbound)
  rw [checkedReport, if_pos hshow]

theorem severity_of_mem_report (failure : Failure) :
    ∀ d ∈ failure.report.diagnostics, d.severity = "error" ∧ d.file = none := by
  intro d hd
  cases failure with
  | faulty line fault =>
    obtain rfl := List.mem_singleton.mp hd
    exact ⟨rfl, rfl⟩
  | repeated labels =>
    obtain ⟨r, -, rfl⟩ := List.mem_map.mp hd
    exact ⟨rfl, rfl⟩

theorem diagnostics_inFile (failure : Failure) (file : Option String) :
    (failure.report.inFile file).diagnostics =
      failure.report.diagnostics.map fun d => { d with file } := by
  cases file with
  | some name => rfl
  | none =>
    have hmap : failure.report.diagnostics.map (fun d => { d with file := none }) =
        failure.report.diagnostics.map id :=
      List.map_congr_left fun d hd => by rw [← (failure.severity_of_mem_report d hd).2, id]
    rw [hmap, List.map_id]
    rfl

end Failure

/-- Every source text gives an image or at least one diagnostic, which is an error on a line with
words. There are several only for repeated labels. The name of the file is in all of them and
changes nothing else, and no number is too long to be shown. -/
theorem diagnose_located (source : Text) (file : Option String) :
    ((∃ image, assemble source = .ok image ∧ diagnose source file = .ok image) ∨
      ∃ diagnostics, diagnose source file = .error diagnostics ∧ diagnostics ≠ [] ∧
        (∀ d ∈ diagnostics, d.severity = "error" ∧ d.file = file ∧
          ∃ line, d.line = some line ∧ HasWords 1 (Text.lines source) line) ∧
        (1 < diagnostics.length → ∃ program, Program.parse source = .ok program ∧
          diagnostics = program.repeatedLabels.map (fun r => { r.diagnostic with file }) ∧
          ∀ r ∈ program.repeatedLabels, 1 < program.labels.count r.label)) ∧
    (∀ other, diagnose source other =
      (diagnose source file).mapError fun ds => ds.map fun d => { d with file := other }) ∧
    (source.length + 2 ^ 32 < Text.numeralBound → ∀ failure, assemble source = .error failure →
      failure.checkedReport = .ok failure.report) := by
  refine ⟨?_, fun other => ?_, fun hsize failure h =>
    Failure.checkedReport_eq_ok (Failure.of_assemble h).natAbs_le hsize⟩
  · cases h : assemble source with
    | ok image => exact Or.inl ⟨image, rfl, by rw [diagnose, h]⟩
    | error failure =>
      have hof := Failure.of_assemble h
      right
      refine ⟨_, by rw [diagnose, h], ?_⟩
      rw [failure.diagnostics_inFile file]
      refine ⟨by simpa using hof.report_ne_nil, ?_, fun hmany => ?_⟩
      · intro d hd
        obtain ⟨d', hd', rfl⟩ := List.mem_map.mp hd
        exact ⟨(failure.severity_of_mem_report d' hd').1, rfl, hof.line_of_mem d' hd'⟩
      · cases hof with
        | faulty hline hnumbers => simp [Failure.report, Report.single] at hmany
        | repeated hparse hne =>
          exact ⟨_, hparse, List.map_map, fun r hr => (Program.mem_repeatedLabels_iff.mp hr).2⟩
  · unfold diagnose
    cases assemble source with
    | ok image => rfl
    | error failure => simp [Except.mapError, Failure.diagnostics_inFile, Function.comp_def]

/-- Two labels are repeated; a third one differs from the first only in its letter case. -/
theorem diagnose_located_repeated :
    let source := "x DC 1\n\ny NOP ; y\nX NOP\nx NOP\ny HLT".toList
    (∃ diagnostics, diagnose source (some "a.k91") = .error diagnostics ∧
      diagnostics.map Diagnostic.line = [some 5, some 6] ∧
      (∀ d ∈ diagnostics, d.severity = "error" ∧ d.file = some "a.k91" ∧
        ∃ line, d.line = some line ∧ HasWords 1 (Text.lines source) line) ∧
      ∃ program, Program.parse source = .ok program ∧
        ∀ r ∈ program.repeatedLabels, 1 < program.labels.count r.label) ∧
      ∃ failure, assemble source = .error failure ∧
        failure.checkedReport = .ok failure.report := by
  intro source
  obtain ⟨himage | ⟨ds, hds, -, hall, hmany⟩, -, hshow⟩ := diagnose_located source (some "a.k91")
  · obtain ⟨image, h, -⟩ := himage
    have hnone : (assemble source).toOption = none := by decide +kernel
    rw [h] at hnone
    cases hnone
  · have hcaught : (((diagnose source (some "a.k91")).map fun _ => []).tryCatch fun ds =>
        .ok (ds.map Diagnostic.line)).toOption = some [some 5, some 6] := by decide +kernel
    rw [hds] at hcaught
    have hlines : ds.map Diagnostic.line = [some 5, some 6] := Option.some.inj hcaught
    have hlength : ds.length = 2 := by simpa using congrArg List.length hlines
    obtain ⟨program, hparse, -, hcount⟩ := hmany (by omega)
    refine ⟨⟨ds, hds, hlines, hall, program, hparse, hcount⟩, ?_⟩
    cases h : assemble source with
    | ok image =>
      rw [diagnose, h] at hds
      cases hds
    | error failure => exact ⟨failure, rfl, hshow (by decide +kernel) failure h⟩

end Ttk91
