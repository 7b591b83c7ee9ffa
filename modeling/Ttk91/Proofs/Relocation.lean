import Ttk91.Proofs.Agreement
import Ttk91.Proofs.EncoderDomain

/-! Relocation: another origin moves the places of a program and every reference to them, and
changes nothing else in the image. -/

namespace Ttk91

namespace SymbolTable

variable {symbols : SymbolTable} {text : Text}

/-- An address text that is read as a symbol of the code or of the data. -/
def Moves (symbols : SymbolTable) (text : Text) : Prop :=
  text ≠ [] ∧ Literal.constant? text = none ∧
    ∃ s, symbols.find? text = some s ∧ (s.kind = .code ∨ s.kind = .data)

theorem find?_relocate (codeStart dataStart : Int) (symbols : SymbolTable) (text : Text) :
    (relocate codeStart dataStart symbols).find? text =
      (symbols.find? text).map fun s => s.relocate codeStart dataStart :=
  Table.find?_map_value _ symbols text

theorem offset_relocate_of_moves {k : Int} {s : Symbol} (h : s.kind = .code ∨ s.kind = .data) :
    (s.relocate k k).offset = s.offset + k := by
  rcases h with h | h <;> simp [Symbol.relocate, h]

theorem offset_relocate_of_not {k : Int} {s : Symbol} (h : ¬(s.kind = .code ∨ s.kind = .data)) :
    (s.relocate k k).offset = s.offset := by
  cases hk : s.kind <;> simp_all [Symbol.relocate]

theorem Resolves.relocate_of_moves {n : Int} (h : symbols.Resolves text n)
    (hmoves : symbols.Moves text) (k : Int) : (relocate k k symbols).Resolves text (n + k) := by
  obtain ⟨hne, hconstant, s, hs, hkind⟩ := hmoves
  obtain rfl : n = s.offset := h.unique (.symbol hne hconstant hs)
  rw [← offset_relocate_of_moves hkind]
  apply Resolves.symbol hne hconstant
  rw [find?_relocate, hs, Option.map_some]

theorem Resolves.relocate_of_not_moves {n : Int} (h : symbols.Resolves text n)
    (hmoves : ¬ symbols.Moves text) (k : Int) : (relocate k k symbols).Resolves text n := by
  cases h with
  | empty => exact .empty
  | constant hne h => exact .constant hne h
  | symbol hne hconstant h =>
    rw [← offset_relocate_of_not fun hkind => hmoves ⟨hne, hconstant, _, h, hkind⟩]
    apply Resolves.symbol hne hconstant
    rw [find?_relocate, h, Option.map_some]
  | literal hne hconstant hsymbol h =>
    apply Resolves.literal hne hconstant _ h
    rw [find?_relocate, hsymbol, Option.map_none]

end SymbolTable

namespace Statement

def addressText? (st : Statement) : Option Text :=
  match Instruction.named? st.keyword with
  | none => none
  | some i =>
    match Instruction.assign? i.format st.operands with
    | none => none
    | some (_, secondText) => (Operand.parse secondText).toOption.map Operand.address

variable {st : Statement} {symbols other : SymbolTable}

/-- Symbols decide on the address of an instruction and on nothing else. -/
theorem Encodes.eq_but_address {i j : Instruction} {v w : OperandValues}
    (h : st.Encodes symbols i v) (h' : st.Encodes other j w) :
    j = i ∧ w = { v with address := w.address } ∧
      ∃ text, st.addressText? = some text ∧ symbols.Resolves text v.address ∧
        other.Resolves text w.address := by
  obtain rfl : i = j := Option.some.inj (h.named.symm.trans h'.named)
  obtain ⟨firstText, secondText, operand, hassign, hfirst, hoperand, hresolves, hmode, hindex⟩ :=
    OperandValues.of_iff.mp h.operands
  obtain ⟨firstText', secondText', operand', hassign', hfirst', hoperand', hresolves', hmode',
    hindex'⟩ := OperandValues.of_iff.mp h'.operands
  -- The symbols come in only after the operands have been read.
  obtain ⟨rfl, rfl⟩ := Prod.mk.inj (Option.some.inj (hassign.symm.trans hassign'))
  obtain rfl := Except.ok.inj (hoperand.symm.trans hoperand')
  have hsame := Except.ok.inj (hfirst.symm.trans hfirst')
  refine ⟨rfl, ?_, operand.address, ?_, hresolves, hresolves'⟩
  · cases v
    cases w
    simp_all
  · simp [addressText?, h.named, hassign, hoperand, Except.toOption]

theorem encode_relocate {k word again : Int} (h : st.encode symbols = .ok word)
    (h' : st.encode (SymbolTable.relocate k k symbols) = .ok again) :
    Fields.ofWord again = { Fields.ofWord word with address := (Fields.ofWord again).address } ∧
      ∃ text, st.addressText? = some text ∧
        (symbols.Moves text →
          (Fields.ofWord again).address % 2 ^ 16 = ((Fields.ofWord word).address + k) % 2 ^ 16) ∧
        (¬ symbols.Moves text → (Fields.ofWord again).address = (Fields.ofWord word).address) := by
  obtain ⟨i, v, hv⟩ := exists_encodes_of_encode h
  obtain ⟨j, w, hw⟩ := exists_encodes_of_encode h'
  obtain ⟨rfl, hsame, text, htext, hresolves, hresolves'⟩ := hv.eq_but_address hw
  have hfields := hv.ofWord_eq h
  have hfields' := hw.ofWord_eq h'
  -- The field holds the address as a signed number, whatever its sign was.
  have hemod : (Fields.ofWord word).address % 2 ^ 16 = v.address % 2 ^ 16 := by
    rw [hfields]
    simp only
    split <;> omega
  have hemod' : (Fields.ofWord again).address % 2 ^ 16 = w.address % 2 ^ 16 := by
    rw [hfields']
    simp only
    split <;> omega
  refine ⟨?_, text, htext, fun hmoves => ?_, fun hmoves => ?_⟩
  · rw [hfields', hfields, hsame]
  · obtain hw : w.address = v.address + k :=
      hresolves'.unique (hresolves.relocate_of_moves hmoves k)
    omega
  · obtain hw : w.address = v.address :=
      hresolves'.unique (hresolves.relocate_of_not_moves hmoves k)
    rw [hfields', hfields, hw]

def withOrigin (word : Text) (st : Statement) : Statement :=
  if st.kind = .directive then { st with operands := [word] } else st

@[simp] theorem withOrigin_kind (word : Text) (st : Statement) :
    (st.withOrigin word).kind = st.kind := by
  unfold withOrigin
  split <;> rfl

@[simp] theorem withOrigin_label (word : Text) (st : Statement) :
    (st.withOrigin word).label = st.label := by
  unfold withOrigin
  split <;> rfl

end Statement

namespace Program

def withOrigin (word : Text) (program : Program) : Program :=
  program.map (Statement.withOrigin word)

variable {program rest : Program} {st : Statement} {word : Text}

theorem withOrigin_cons :
    withOrigin word (st :: rest) = st.withOrigin word :: withOrigin word rest := rfl

theorem withOrigin_cons_of_ne (h : st.kind ≠ .directive) :
    withOrigin word (st :: rest) = st :: withOrigin word rest := by
  rw [withOrigin_cons, Statement.withOrigin, if_neg h]

theorem placements_withOrigin (code data : Int) (word : Text) (program : Program) :
    placements code data (program.withOrigin word) = placements code data program := by
  induction program generalizing code data with
  | nil => rfl
  | cons st rest ih =>
    by_cases hk : st.kind = .directive
    · simp [withOrigin_cons, placements, hk, ih]
    · rw [withOrigin_cons_of_ne hk]
      simp only [placements, ih]

theorem encode_withOrigin (symbols : SymbolTable) (address : Int) (word : Text)
    (program : Program) :
    encode symbols address (program.withOrigin word) = encode symbols address program := by
  induction program generalizing address with
  | nil => rfl
  | cons st rest ih =>
    by_cases hk : st.kind = .directive
    · simp [withOrigin_cons, encode, hk, ih]
    · rw [withOrigin_cons_of_ne hk]
      simp only [encode, ih]

theorem dataSegment_withOrigin (word : Text) (program : Program) :
    dataSegment (program.withOrigin word) = dataSegment program := by
  induction program with
  | nil => rfl
  | cons st rest ih =>
    by_cases hk : st.kind = .directive
    · simp [withOrigin_cons, dataSegment, hk, ih]
    · rw [withOrigin_cons_of_ne hk]
      simp only [dataSegment, ih]

theorem codeSize_withOrigin (word : Text) (program : Program) :
    (program.withOrigin word).codeSize = program.codeSize := by
  simp [codeSize, withOrigin, List.countP_map, Function.comp_def]

theorem labels_withOrigin (word : Text) (program : Program) :
    (program.withOrigin word).labels = program.labels := by
  rw [labels, withOrigin, List.filterMap_map]
  congr 1
  funext st
  exact st.withOrigin_label word

/-- What the program takes as the name of a place: the label of an instruction or of a data
statement, unless it is spelled like a constant. -/
def NamesPlace (program : Program) (name : Text) : Prop :=
  Literal.constant? name = none ∧
    ∃ st ∈ program, st.label = some name ∧ (st.kind = .code ∨ st.kind = .data)

/-- The second operand of the statement has the name of a place as its address. -/
def RefersToPlace (program : Program) (st : Statement) : Prop :=
  ∃ name, st.addressText? = some name ∧ program.NamesPlace name

theorem moves_iff_namesPlace {code data : Int} (hn : program.labels.Nodup)
    (hread : ∀ st ∈ program, st.IsRead) (name : Text) :
    SymbolTable.Moves ((placements code data program).filterMap symbolEntry) name ↔
      program.NamesPlace name := by
  constructor
  · rintro ⟨-, hconstant, s, hs, hkind⟩
    obtain ⟨p, hp, hentry⟩ := List.mem_filterMap.mp (Table.mem_of_find? hs)
    obtain ⟨label, hlabel, heq⟩ := Option.map_eq_some_iff.mp hentry
    obtain ⟨rfl, rfl⟩ := Prod.mk.inj heq
    obtain ⟨before, st, after, rfl, rfl, hplace⟩ := mem_placements hp
    refine ⟨hconstant, p.2, by simp, hlabel, ?_⟩
    rcases hplace with ⟨-, hs⟩ | ⟨hk, -⟩ | ⟨hk, -⟩
    · simp [hs] at hkind
    · exact Or.inl hk
    · exact Or.inr hk
  · rintro ⟨hconstant, st, hmem, hname, hkind⟩
    refine ⟨(hread st hmem).label_ne_nil name hname, hconstant, ?_⟩
    obtain ⟨before, after, rfl⟩ := List.append_of_mem hmem
    rcases hkind with hk | hk
    · exact ⟨_, find?_symbolEntry hn (mem_placements_of_code hk) hname, Or.inl rfl⟩
    · exact ⟨_, find?_symbolEntry hn (mem_placements_of_data hk) hname, Or.inr rfl⟩

theorem filterMap_commentEntry_placements (code data k : Int) (program : Program) :
    (placements (code + k) (data + k) program).filterMap commentEntry =
      ((placements code data program).filterMap commentEntry).map fun c => (c.1 + k, c.2) := by
  induction program generalizing code data with
  | nil => rfl
  | cons st rest ih =>
    rw [placements, placements]
    cases hk : st.kind with
    | constant => simpa [commentEntry] using ih code data
    | code =>
      have hrest := ih (code + 1) data
      rw [Int.add_right_comm] at hrest
      cases hc : st.comment <;> simp [commentEntry, hc, hrest]
    | data =>
      have hrest := ih code (data + st.extent)
      rw [Int.add_right_comm data] at hrest
      cases hc : st.comment <;> simp [commentEntry, hc, hrest]
    | register | directive | plain => exact ih code data

/-- The images of a program before and after its origin has moved by `k`. -/
structure Moved (program : Program) (k : Int) (image other : Image) : Prop where
  code_start : other.code.start = image.code.start + k
  code_last : other.code.last = image.code.last + k
  data_start : other.data.start = image.data.start + k
  data_last : other.data.last = image.data.last + k
  data_content : other.data.content = image.data.content
  comments : other.comments = image.comments.map fun c => (c.1 + k, c.2)
  keys : image.symbols.keys = program.labels ∧ other.symbols.keys = program.labels
  symbols : ∀ st ∈ program, ∀ name, st.label = some name →
    ∃ a, image.symbols.find? name = some a ∧
      other.symbols.find? name = some (if st.kind = .constant then a else a + k)
  lengths : image.code.content.length = program.codeSize ∧
    other.code.content.length = program.codeSize
  code_content : ∀ (i : Nat) (st : Statement), program.instructions[i]? = some st →
    ∃ word again, image.code.content[i]? = some word ∧ other.code.content[i]? = some again ∧
      Fields.ofWord again =
        { Fields.ofWord word with address := (Fields.ofWord again).address } ∧
      (program.RefersToPlace st →
        (Fields.ofWord again).address % 2 ^ 16 = ((Fields.ofWord word).address + k) % 2 ^ 16) ∧
      (¬ program.RefersToPlace st →
        (Fields.ofWord again).address = (Fields.ofWord word).address)

section Assembled

variable {word' : Text} {layout layout' : Layout} {image other : Image} {k : Int}

/-- With a directive in the program, the origin is the value of its operand. -/
theorem Assembled.origin_eq_of_directive {n : Int}
    (h : Assembled (program.withOrigin word) layout image)
    (hdirective : ∃ st ∈ program, st.kind = .directive) (hword : Literal.value word = .ok n) :
    layout.origin = n := by
  obtain ⟨st, hmem, hk⟩ := hdirective
  obtain ⟨origin, symbols, -, horigin, -, -, rfl⟩ := layout_eq_ok h.layout_eq
  have hvalue := (value_of_originAfter horigin).2 (st.withOrigin word)
    (List.mem_map_of_mem hmem) (by simp [hk])
  simpa [Statement.withOrigin, hk, Statement.value, hword] using hvalue.2.symm

theorem Assembled.nodup_labels (h : Assembled (program.withOrigin word) layout image) :
    program.labels.Nodup :=
  labels_withOrigin word program ▸ h.labels_nodup

theorem Assembled.label_eq_none (h : Assembled (program.withOrigin word) layout image) :
    ∀ st ∈ program, st.kind = .directive → st.label = none := by
  intro st hmem hk
  simpa using h.directive (st.withOrigin word) (List.mem_map_of_mem hmem) (by simpa using hk)

theorem Assembled.symbols_eq_placements (h : Assembled (program.withOrigin word) layout image) :
    layout.symbols =
      (placements layout.origin layout.dataStart program).filterMap symbolEntry := by
  rw [h.symbols_eq, placements_withOrigin]

theorem Assembled.keys_eq_labels (h : Assembled (program.withOrigin word) layout image)
    (hread : ∀ st ∈ program, st.IsRead) : image.symbols.keys = program.labels := by
  rw [h.addresses_eq, SymbolTable.addresses, Table.keys_map_value, h.symbols_eq_placements,
    keys_filterMap_symbolEntry, filterMap_label_placements _ _ hread h.label_eq_none]

theorem Assembled.dataStart_moved (h : Assembled (program.withOrigin word) layout image)
    (h' : Assembled (program.withOrigin word') layout' other)
    (horigin : layout'.origin = layout.origin + k) : layout'.dataStart = layout.dataStart + k := by
  rw [h'.dataStart_eq, h.dataStart_eq, codeSize_withOrigin, codeSize_withOrigin, horigin]
  exact Int.add_right_comm _ _ _

theorem Assembled.symbols_moved (h : Assembled (program.withOrigin word) layout image)
    (h' : Assembled (program.withOrigin word') layout' other)
    (horigin : layout'.origin = layout.origin + k) :
    layout'.symbols = SymbolTable.relocate k k layout.symbols := by
  rw [h'.symbols_eq_placements, h.symbols_eq_placements, horigin, h.dataStart_moved h' horigin,
    relocate_filterMap_symbolEntry, map_relocate_placements]

theorem Assembled.find?_moved (h : Assembled (program.withOrigin word) layout image)
    (h' : Assembled (program.withOrigin word') layout' other)
    (hread : ∀ st ∈ program, st.IsRead) (horigin : layout'.origin = layout.origin + k)
    (hmem : st ∈ program) {name : Text} (hname : st.label = some name) :
    ∃ a, image.symbols.find? name = some a ∧
      other.symbols.find? name = some (if st.kind = .constant then a else a + k) := by
  obtain ⟨s, s', hs, hs', hoffset⟩ := exists_mem_placements layout.origin layout.dataStart k hread
    h.label_eq_none hmem hname
  refine ⟨s.offset, ?_, ?_⟩
  · rw [h.addresses_eq, SymbolTable.addresses, Table.find?_map_value, h.symbols_eq_placements,
      find?_symbolEntry h.nodup_labels hs hname, Option.map_some]
  · rw [← h.dataStart_moved h' horigin, ← horigin] at hs'
    rw [h'.addresses_eq, SymbolTable.addresses, Table.find?_map_value, h'.symbols_eq_placements,
      find?_symbolEntry h.nodup_labels hs' hname, Option.map_some, hoffset]

theorem Assembled.encode_moved {again first : Int}
    (h : Assembled (program.withOrigin word) layout image)
    (h' : Assembled (program.withOrigin word') layout' other)
    (hread : ∀ st ∈ program, st.IsRead) (horigin : layout'.origin = layout.origin + k)
    (hfirst : st.encode layout.symbols = .ok first)
    (hagain : st.encode layout'.symbols = .ok again) :
    Fields.ofWord again = { Fields.ofWord first with address := (Fields.ofWord again).address } ∧
      (program.RefersToPlace st →
        (Fields.ofWord again).address % 2 ^ 16 = ((Fields.ofWord first).address + k) % 2 ^ 16) ∧
      (¬ program.RefersToPlace st →
        (Fields.ofWord again).address = (Fields.ofWord first).address) := by
  rw [h.symbols_moved h' horigin] at hagain
  obtain ⟨hfields, text, htext, hmoves, hstays⟩ := Statement.encode_relocate hfirst hagain
  have hrefers : program.RefersToPlace st ↔ layout.symbols.Moves text := by
    rw [h.symbols_eq_placements, moves_iff_namesPlace h.nodup_labels hread]
    simp [RefersToPlace, htext]
  rw [hrefers]
  exact ⟨hfields, hmoves, hstays⟩

theorem Assembled.moved (h : Assembled (program.withOrigin word) layout image)
    (h' : Assembled (program.withOrigin word') layout' other)
    (hread : ∀ st ∈ program, st.IsRead) (horigin : layout'.origin = layout.origin + k) :
    program.Moved k image other := by
  have hdata := h.dataStart_moved h' horigin
  obtain ⟨codeWords, hencode, hcode⟩ := h.code_eq
  obtain ⟨codeWords', hencode', hcode'⟩ := h'.code_eq
  obtain ⟨dataWords, hsegment, hplace⟩ := h.data_eq
  obtain ⟨dataWords', hsegment', hplace'⟩ := h'.data_eq
  -- Neither pass looks at the directive, so both run over the same program.
  rw [encode_withOrigin] at hencode hencode'
  rw [dataSegment_withOrigin] at hsegment hsegment'
  obtain rfl := Except.ok.inj (hsegment.symm.trans hsegment')
  have hlength := length_encode hencode
  have hlength' := length_encode hencode'
  constructor
  case code_start => simp [hcode, hcode', Segment.place, horigin]
  case code_last =>
    simp only [hcode, hcode', Segment.place, List.length_map]
    omega
  case data_start => simp [hplace, hplace', Segment.place, hdata]
  case data_last =>
    simp only [hplace, hplace', Segment.place]
    omega
  case data_content => simp [hplace, hplace', Segment.place]
  case comments =>
    rw [h'.comments_eq, h.comments_eq, placements_withOrigin, placements_withOrigin, horigin, hdata,
      filterMap_commentEntry_placements]
  case keys => exact ⟨h.keys_eq_labels hread, h'.keys_eq_labels hread⟩
  case symbols => exact fun st hmem name hname => h.find?_moved h' hread horigin hmem hname
  case lengths => simp [hcode, hcode', Segment.place, hlength, hlength']
  case code_content =>
    intro i st hi
    obtain ⟨first, hfirst, hget⟩ := encode_getElem?_of_instructions hi hencode
    obtain ⟨again, hagain, hget'⟩ := encode_getElem?_of_instructions hi hencode'
    rw [hcode, hcode']
    exact ⟨first, again, hget, hget', h.encode_moved h' hread horigin hfirst hagain⟩

end Assembled

end Program

/-- Relocation: a program read from a source text and assembled at two origins, `k` apart, gives
images in which the segments, the symbols of the code and the data, the comments, and the addresses
in references to places have moved by `k`, and all else is the same. -/
theorem assemble_relocated {source word word' : Text} {program : Program} {origin k : Int}
    {image other : Image} (hparse : Program.parse source = .ok program)
    (hdirective : ∃ st ∈ program, st.kind = .directive) (hword : Literal.value word = .ok origin)
    (hword' : Literal.value word' = .ok (origin + k))
    (h : (program.withOrigin word).assemble = .ok image)
    (h' : (program.withOrigin word').assemble = .ok other) : program.Moved k image other := by
  obtain ⟨layout, hlayout⟩ := Program.assembled_of_assemble h
  obtain ⟨layout', hlayout'⟩ := Program.assembled_of_assemble h'
  apply hlayout.moved hlayout' (Program.isRead_of_parse hparse)
  rw [hlayout.origin_eq_of_directive hdirective hword,
    hlayout'.origin_eq_of_directive hdirective hword']

/-- One label is spelled like a number and moves, out of the signed addresses; the other is spelled
like a constant, and the references to it stay. -/
theorem assemble_relocated_upward :
    let program : Program :=
      [⟨.data, "DC".toList, ["7".toList], 1, some "12".toList, some "seven".toList⟩,
        ⟨.directive, "ORG".toList, ["5".toList], 2, none, none⟩,
        ⟨.code, "LOAD".toList, ["R1".toList, "12".toList], 3, none, some "moves".toList⟩,
        ⟨.code, "JUMP".toList, ["CRT".toList], 4, some "CRT".toList, none⟩,
        ⟨.constant, "EQU".toList, ["3".toList], 5, some "k".toList, none⟩]
    let source := "12 DC 7;seven\n ORG 5\n LOAD R1, 12;moves\nCRT JUMP CRT\nk EQU 3".toList
    let image : Image := ⟨⟨5, 6, [36175879, 536870912]⟩, ⟨7, 7, [7]⟩,
      [("12".toList, 7), ("CRT".toList, 6), ("k".toList, 3)],
      [(7, "seven".toList), (5, "moves".toList)]⟩
    let other : Image := ⟨⟨36869, 36870, [36212743, 536870912]⟩, ⟨36871, 36871, [7]⟩,
      [("12".toList, 36871), ("CRT".toList, 36870), ("k".toList, 3)],
      [(36871, "seven".toList), (36869, "moves".toList)]⟩
    Program.parse source = .ok program ∧
      (program.withOrigin "5".toList).assemble = .ok image ∧
      (program.withOrigin "0x9005".toList).assemble = .ok other ∧
      program.Moved 36864 image other := by
  intro program source image other
  have hparse : Program.parse source = .ok program := eq_ok_of_toOption (by decide +kernel)
  have h : (program.withOrigin "5".toList).assemble = .ok image :=
    eq_ok_of_toOption (by decide +kernel)
  have h' : (program.withOrigin "0x9005".toList).assemble = .ok other :=
    eq_ok_of_toOption (by decide +kernel)
  have hword : Literal.value "5".toList = .ok 5 := eq_ok_of_toOption (by decide +kernel)
  have hword' : Literal.value "0x9005".toList = .ok (5 + 36864) :=
    eq_ok_of_toOption (by decide +kernel)
  refine ⟨hparse, h, h', assemble_relocated hparse ?_ hword hword' h h'⟩
  exact ⟨_, List.mem_cons_of_mem _ List.mem_cons_self, rfl⟩

end Ttk91
