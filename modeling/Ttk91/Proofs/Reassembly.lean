import Ttk91.Proofs.Agreement
import Ttk91.Proofs.ListedInstruction

/-! Reassembly: the listing of assembled code is a source text, and assembling it gives the same
code again. -/

namespace Ttk91

namespace Statement

structure IsPlain (st : Statement) : Prop where
  kind : st.kind = .code
  label : st.label = none
  comment : st.comment = none

end Statement

/-! Programs of plain instructions, pass by pass. -/

namespace Program

variable {program : Program}

theorem checkLabels_of_plain (h : ∀ st ∈ program, st.IsPlain) : program.checkLabels = .ok () := by
  have hlabels : program.labels = [] :=
    List.filterMap_eq_nil_iff.mpr fun st hst => (h st hst).label
  rw [checkLabels_eq_ok_iff, hlabels]
  exact List.nodup_nil

theorem originAfter_of_plain (found : Option Int) (h : ∀ st ∈ program, st.IsPlain) :
    originAfter found program = .ok (found.getD 0) := by
  induction program with
  | nil => rfl
  | cons st rest ih =>
    rw [List.forall_mem_cons] at h
    simp [originAfter, h.1.kind, ih h.2]

theorem symbolsFrom_of_plain (code data : Int) (table : SymbolTable)
    (h : ∀ st ∈ program, st.IsPlain) : symbolsFrom code data table program = .ok table := by
  induction program generalizing code with
  | nil => rfl
  | cons st rest ih =>
    rw [List.forall_mem_cons] at h
    simp [symbolsFrom, h.1.kind, h.1.label, SymbolTable.define, ih (code + 1) h.2]

theorem checkDataAfter_of_plain (last : Int) (h : ∀ st ∈ program, st.IsPlain) :
    checkDataAfter last program = .ok () := by
  induction program with
  | nil => rfl
  | cons st rest ih =>
    rw [List.forall_mem_cons] at h
    simp [checkDataAfter, h.1.kind, ih h.2]

theorem dataSegment_of_plain (h : ∀ st ∈ program, st.IsPlain) : program.dataSegment = .ok [] := by
  induction program with
  | nil => rfl
  | cons st rest ih =>
    rw [List.forall_mem_cons] at h
    simp [dataSegment, h.1.kind, ih h.2]

theorem commentsFrom_of_plain (code data : Int) (table : Table Int Text)
    (h : ∀ st ∈ program, st.IsPlain) : commentsFrom code data table program = .ok table := by
  induction program generalizing code with
  | nil => rfl
  | cons st rest ih =>
    rw [List.forall_mem_cons] at h
    simp [commentsFrom, h.1.kind, h.1.comment, commentsFrom.note, ih (code + 1) h.2]

theorem codeSize_of_plain (h : ∀ st ∈ program, st.IsPlain) : program.codeSize = program.length :=
  List.countP_eq_length.mpr fun st hst => by simp [(h st hst).kind]

theorem exists_encode_of_plain (symbols : SymbolTable) (address : Int)
    (h : ∀ st ∈ program, st.IsPlain) {words : List Int}
    (hwords : program.map (fun st => st.encode symbols) = words.map .ok) :
    ∃ code, encode symbols address program = .ok code ∧ code.map CodeWord.word = words := by
  induction program generalizing address words with
  | nil =>
    obtain rfl : words = [] := by simpa using hwords
    exact ⟨[], rfl, rfl⟩
  | cons st rest ih =>
    cases words with
    | nil => simp at hwords
    | cons word words =>
      rw [List.forall_mem_cons] at h
      simp only [List.map_cons, List.cons.injEq] at hwords
      obtain ⟨code, hcode, hmap⟩ := ih (address + 1) h.2 hwords.2
      refine ⟨⟨word, address, st.keyword⟩ :: code, ?_, by simp [hmap]⟩
      simp [encode, h.1.kind, hwords.1, hcode, Except.map]

/-- Plain instructions make up an image of code from address 0 on and of nothing else. -/
theorem assemble_of_plain (h : ∀ st ∈ program, st.IsPlain) {words : List Int}
    (hwords : program.map (fun st => st.encode []) = words.map .ok) :
    program.assemble = .ok ⟨.place 0 words, .place words.length [], [], []⟩ := by
  have hlength : program.codeSize = words.length := by
    have hlen := congrArg List.length hwords
    rw [codeSize_of_plain h]
    simpa using hlen
  obtain ⟨code, hcode, hmap⟩ := exists_encode_of_plain [] 0 h hwords
  have himage := assemble_of_passes (checkLabels_of_plain h) (originAfter_of_plain none h)
    (symbolsFrom_of_plain 0 0 [] h) (checkDataAfter_of_plain _ h) (dataSegment_of_plain h) hcode
    (commentsFrom_of_plain _ _ [] h)
  rw [himage, hmap, hlength]
  simp [SymbolTable.relocate, SymbolTable.addresses]

end Program

/-! Encoded words and their listing. -/

namespace Listing

variable {st : Statement} {symbols : SymbolTable} {word : Int}

theorem instruction_of_encode (h : st.encode symbols = .ok word) :
    ∃ i ∈ Instruction.all, instruction lenient word = render i (Fields.ofWord word) ∧
      Fields.ofWord word = (Fields.ofWord word).canonical i := by
  obtain ⟨i, hi, hcanonical⟩ := Statement.canonical_of_encode h
  have hopcode : (Fields.ofWord word).opcode = i.opcode := congrArg Fields.opcode hcanonical
  have hfound : Instruction.ofOpcode? (Fields.ofWord word).opcode = some i := by
    rw [hopcode]
    exact Instruction.ofOpcode?_of_mem hi
  exact ⟨i, hi, (instruction_of_found hfound).2.2, hcanonical⟩

theorem exists_ofLine_instruction (h : st.encode symbols = .ok word) (line : Int) :
    ∃ again, Statement.ofLine line (instruction lenient word) = .ok (some again) ∧
      again.IsPlain ∧ again.encode [] = .ok word := by
  obtain ⟨i, hi, htext, hcanonical⟩ := instruction_of_encode h
  have hbounds := Statement.encode_bounds h
  have hword : ((Fields.ofWord word).canonical i).toWord = word := by
    rw [← hcanonical, Fields.toWord_ofWord, Bits.signed_of_bounds hbounds]
  have hwritten (hs : i.format.hasSecond = true) :
      writtenMode (Fields.ofWord word).mode (Fields.ofWord word).index.val
        (Fields.ofWord word).address i.defaultMode ≤ 2 := by
    have heq := congrArg Fields.mode hcanonical
    simp only [Fields.canonical, hs, if_true] at heq
    simp only [writtenMode, modeShift]
    split <;> omega
  refine ⟨_, htext ▸ ofLine_render hi _ line, ⟨rfl, rfl, rfl⟩, ?_⟩
  rw [encode_operandWords hi (Fields.ofWord_mode_bounds word).1 (Fields.ofWord_address_bounds word)
    hwritten line, hword]

theorem instruction_ne_nil (h : st.encode symbols = .ok word) : instruction lenient word ≠ [] := by
  obtain ⟨i, hi, htext, -⟩ := instruction_of_encode h
  rw [htext]
  exact render_ne_nil hi _

theorem isBreak_of_mem_instruction (h : st.encode symbols = .ok word) :
    ∀ c ∈ instruction lenient word, Text.isBreak c = false := by
  obtain ⟨i, hi, htext, -⟩ := instruction_of_encode h
  rw [htext]
  exact fun c hc => (mem_render hi hc).2

end Listing

namespace Program

theorem exists_ofLines_listing {symbols : SymbolTable} {words : List Int}
    (h : ∀ word ∈ words, ∃ st : Statement, st.encode symbols = .ok word) (line : Nat) :
    ∃ program, ofLines line (words.map (Listing.instruction Listing.lenient)) = .ok program ∧
      (∀ st ∈ program, st.IsPlain) ∧ program.map (fun st => st.encode []) = words.map .ok := by
  induction words generalizing line with
  | nil => exact ⟨[], rfl, by simp, rfl⟩
  | cons word words ih =>
    rw [List.forall_mem_cons] at h
    obtain ⟨st, hst⟩ := h.1
    obtain ⟨again, hline, hplain, hword⟩ := Listing.exists_ofLine_instruction hst line
    obtain ⟨program, hrest, hplains, hwords⟩ := ih h.2 (line + 1)
    refine ⟨again :: program, ?_, List.forall_mem_cons.mpr ⟨hplain, hplains⟩,
      by simp [hword, hwords]⟩
    simp [ofLines, hline, hrest, Except.map]

end Program

/-- Listing the code of an assembled text and assembling the listing gives the same code again,
from address 0 on, and nothing else. -/
theorem assemble_sourceText {source : Text} {image : Image} (h : assemble source = .ok image) :
    assemble image.sourceText =
      .ok ⟨.place 0 image.code.content, .place image.code.content.length [], [], []⟩ := by
  obtain ⟨program, -, hassemble⟩ := bind_eq_ok.mp h
  obtain ⟨layout, hlayout⟩ := Program.assembled_of_assemble hassemble
  obtain ⟨code, hencode, hcode⟩ := hlayout.code_eq
  have hwords : ∀ word ∈ image.code.content,
      ∃ st : Statement, st.encode layout.symbols = .ok word := by
    intro word hword
    rw [hcode] at hword
    obtain ⟨st, -, hst⟩ := Program.mem_encode hencode hword
    exact ⟨st, hst⟩
  obtain ⟨again, hagain, hplain, hencoded⟩ := Program.exists_ofLines_listing hwords 1
  have hlines : Text.lines image.sourceText =
      image.code.content.map (Listing.instruction Listing.lenient) := by
    apply Text.lines_join
    · intro line hline
      obtain ⟨word, hword, rfl⟩ := List.mem_map.mp hline
      obtain ⟨st, hst⟩ := hwords word hword
      exact Listing.instruction_ne_nil hst
    · intro line hline
      obtain ⟨word, hword, rfl⟩ := List.mem_map.mp hline
      obtain ⟨st, hst⟩ := hwords word hword
      exact Listing.isBreak_of_mem_instruction hst
  have hparse : Program.parse image.sourceText = .ok again := by
    rw [Program.parse, hlines, hagain]
  rw [assemble, hparse]
  exact Program.assemble_of_plain hplain hencoded

/-- An address that is listed as a negative one, a register without an address, register 0, and
instructions of every format. -/
theorem assemble_sourceText_formats :
    let source := ("ORG 40\nloop LOAD R1, =65535\nSTORE SP, @0(R2)\nADD R3, R4\nJUMP loop(FP)\n" ++
      "NOT R0\nOUT R0, R0\nHLT\nx DC 3;c").toList
    let words := [35717119, 30015488, 291766272, 537329704, 453509120, 67108864, 1896349696]
    let image : Image := ⟨⟨40, 46, words⟩, ⟨47, 47, [3]⟩, [("loop".toList, 40), ("x".toList, 47)],
      [(47, "c".toList)]⟩
    assemble source = .ok image ∧
      assemble image.sourceText = .ok ⟨.place 0 words, .place 7 [], [], []⟩ := by
  intro source words image
  have h : assemble source = .ok image := eq_ok_of_toOption (by decide +kernel)
  exact ⟨h, assemble_sourceText h⟩

end Ttk91
