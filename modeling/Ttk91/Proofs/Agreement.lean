import Ttk91.Proofs.Passes

/-! Both passes of an assembly agree on the layout: every label has the address at which the image
holds the words of its statement. -/

namespace Ttk91

namespace Program

structure Assembled (program : Program) (layout : Layout) (image : Image) : Prop where
  layout_eq : program.layout = .ok layout
  labels_nodup : program.labels.Nodup
  directive : ∀ st ∈ program, st.kind = .directive → st.label = none
  constant : ∀ st ∈ program, st.kind = .constant →
    ∃ name n, st.label = some name ∧ st.value = .ok n ∧ -32768 ≤ n ∧ n ≤ 32767
  dataStart_eq : layout.dataStart = layout.origin + program.codeSize
  fits : program.dataSize = 0 ∨ layout.dataStart - 1 + program.dataSize ≤ lastAddress
  symbols_eq : layout.symbols =
    (placements layout.origin layout.dataStart program).filterMap symbolEntry
  addresses_eq : image.symbols = layout.symbols.addresses
  code_eq : ∃ words, program.encode layout.symbols layout.origin = .ok words ∧
    image.code = .place layout.origin (words.map CodeWord.word)
  data_eq : ∃ words, program.dataSegment = .ok words ∧ image.data = .place layout.dataStart words
  comments_eq : image.comments =
    (placements layout.origin layout.dataStart program).filterMap commentEntry
  comments_nodup : image.comments.keys.Nodup

theorem layout_eq_ok {program : Program} {layout : Layout} (h : program.layout = .ok layout) :
    ∃ origin symbols, program.checkLabels = .ok () ∧ program.origin = .ok origin ∧
      program.symbols = .ok symbols ∧
      program.checkDataFits (origin + program.codeSize) = .ok () ∧
      layout = ⟨SymbolTable.relocate origin (origin + program.codeSize) symbols, origin,
        program.codeSize⟩ := by
  obtain ⟨⟨⟩, hlabels, h⟩ := bind_eq_ok.mp h
  obtain ⟨origin, horigin, h⟩ := bind_eq_ok.mp h
  obtain ⟨symbols, hsymbols, h⟩ := bind_eq_ok.mp h
  obtain ⟨⟨⟩, hfits, h⟩ := bind_eq_ok.mp h
  exact ⟨origin, symbols, hlabels, horigin, hsymbols, hfits, (Except.ok.inj h).symm⟩

theorem assemble_eq_ok {program : Program} {image : Image} (h : program.assemble = .ok image) :
    ∃ layout data code comments, program.layout = .ok layout ∧ program.dataSegment = .ok data ∧
      program.encode layout.symbols layout.origin = .ok code ∧
      program.commentsFrom layout.codeStart layout.dataStart [] = .ok comments ∧
      image = ⟨.place layout.codeStart (code.map CodeWord.word), .place layout.dataStart data,
        layout.symbols.addresses, comments⟩ := by
  obtain ⟨layout, hlayout, h⟩ := bind_eq_ok.mp h
  obtain ⟨data, hdata, h⟩ := bind_eq_ok.mp h
  obtain ⟨code, hcode, h⟩ := bind_eq_ok.mp h
  obtain ⟨comments, hcomments, h⟩ := bind_eq_ok.mp h
  exact ⟨layout, data, code, comments, hlayout, hdata, hcode, hcomments, (Except.ok.inj h).symm⟩

theorem assemble_of_passes {program : Program} {origin : Int} {symbols : SymbolTable}
    {data : List Int} {code : List CodeWord} {comments : Table Int Text}
    (hlabels : program.checkLabels = .ok ()) (horigin : program.origin = .ok origin)
    (hsymbols : program.symbols = .ok symbols)
    (hfits : program.checkDataFits (origin + program.codeSize) = .ok ())
    (hdata : program.dataSegment = .ok data)
    (hcode : program.encode (SymbolTable.relocate origin (origin + program.codeSize) symbols)
      origin = .ok code)
    (hcomments : program.commentsFrom origin (origin + program.codeSize) [] = .ok comments) :
    program.assemble =
      .ok ⟨.place origin (code.map CodeWord.word), .place (origin + program.codeSize) data,
        (SymbolTable.relocate origin (origin + program.codeSize) symbols).addresses, comments⟩ := by
  have hlayout : program.layout =
      .ok ⟨SymbolTable.relocate origin (origin + program.codeSize) symbols, origin,
        program.codeSize⟩ := by
    simp [layout, hlabels, horigin, hsymbols, hfits, bind, Except.bind, pure, Except.pure]
  simp [assemble, hlayout, hdata, hcode, hcomments, bind, Except.bind, pure, Except.pure,
    Layout.codeStart, Layout.dataStart]

theorem relocate_filterMap_symbolEntry (codeStart dataStart : Int)
    (ps : List (Symbol × Statement)) :
    SymbolTable.relocate codeStart dataStart (ps.filterMap symbolEntry) =
      (ps.map fun p => (p.1.relocate codeStart dataStart, p.2)).filterMap symbolEntry := by
  rw [SymbolTable.relocate, List.map_filterMap, List.filterMap_map]
  congr 1
  funext p
  cases hl : p.2.label <;> simp [symbolEntry, hl]

/-- With distinct labels, the relocated symbols are the labels of the placements. -/
theorem relocate_symbols_eq {program : Program} {symbols : SymbolTable} (hn : program.labels.Nodup)
    (hk : ∀ st ∈ program, st.kind = .data → st.IsData) (h : program.symbols = .ok symbols)
    (codeStart dataStart : Int) :
    SymbolTable.relocate codeStart dataStart symbols =
      (placements codeStart dataStart program).filterMap symbolEntry := by
  have htable := symbolsFrom_eq_ok hk (by simpa [Table.keys] using hn) h
  rw [htable, List.nil_append, relocate_filterMap_symbolEntry, map_relocate_placements,
    Int.zero_add, Int.zero_add]

theorem assembled_of_assemble {program : Program} {image : Image}
    (h : program.assemble = .ok image) : ∃ layout, Assembled program layout image := by
  obtain ⟨layout, data, code, comments, hlayout, hdata, hcode, hcomments, rfl⟩ := assemble_eq_ok h
  obtain ⟨origin, symbols, hlabels, horigin, hsymbols, hfits, rfl⟩ := layout_eq_ok hlayout
  have hn := checkLabels_eq_ok_iff.mp hlabels
  have hdirective := (originAfter_eq_ok horigin).2
  have htable := relocate_symbols_eq hn (isData_of_dataSegment hdata) hsymbols origin
    (origin + program.codeSize)
  have hplaced := commentsFrom_eq_ok (Int.le_refl _) (Int.le_refl _) (by simp [Table.keys])
    hcomments
  refine ⟨_, hlayout, hn, hdirective, constant_of_symbolsFrom hsymbols, rfl,
    checkDataAfter_eq_ok hfits, htable, rfl, ⟨code, hcode, rfl⟩, ⟨data, hdata, rfl⟩, hplaced,
    nodup_keys_commentsFrom (by simp [Table.keys]) hcomments⟩

/-- Every labelled statement has a placement, if it was read and no directive has a label. -/
theorem filterMap_label_placements (code data : Int) {program : Program}
    (hread : ∀ st ∈ program, st.IsRead)
    (hdirective : ∀ st ∈ program, st.kind = .directive → st.label = none) :
    (placements code data program).filterMap (fun p => p.2.label) = program.labels := by
  induction program generalizing code data with
  | nil => rfl
  | cons st rest ih =>
    have hrest (code data : Int) := ih code data
      (fun st' h' => hread st' (by simp [h'])) (fun st' h' => hdirective st' (by simp [h']))
    have hlabels : labels (st :: rest) = st.label.toList ++ labels rest :=
      filterMap_cons_toList _ _ _
    cases hk : st.kind with
    | constant => rw [placements_of_constant hk, filterMap_cons_toList, hrest, hlabels]
    | code => rw [placements_of_code hk, filterMap_cons_toList, hrest, hlabels]
    | data => rw [placements_of_data hk, filterMap_cons_toList, hrest, hlabels]
    | directive =>
      have hother : placements code data (st :: rest) = placements code data rest :=
        placements_of_other (by simp [hk]) (by simp [hk]) (by simp [hk])
      rw [hother, hrest, labels_cons_none (hdirective st (by simp) hk)]
    | register => exact absurd hk (hread st (by simp)).kind_ne_register
    | plain => exact absurd hk (hread st (by simp)).kind_ne_plain

variable {program : Program} {layout : Layout} {image : Image}

theorem keys_filterMap_symbolEntry (ps : List (Symbol × Statement)) :
    Table.keys (ps.filterMap symbolEntry) = ps.filterMap fun p => p.2.label := by
  rw [Table.keys, List.map_filterMap]
  congr 1
  funext p
  cases hl : p.2.label <;> simp [symbolEntry, hl]

theorem nodup_keys_symbolEntry (hn : program.labels.Nodup) (code data : Int) :
    (Table.keys ((placements code data program).filterMap symbolEntry)).Nodup := by
  have hsub := (map_snd_placements_sublist code data program).filterMap Statement.label
  rw [List.filterMap_map] at hsub
  rw [keys_filterMap_symbolEntry]
  exact hn.sublist hsub

theorem find?_symbolEntry {code data : Int} (hn : program.labels.Nodup) {s : Symbol}
    {st : Statement} {name : Text} (hplaced : (s, st) ∈ placements code data program)
    (hname : st.label = some name) :
    Table.find? ((placements code data program).filterMap symbolEntry) name = some s := by
  apply Table.find?_of_mem (nodup_keys_symbolEntry hn code data)
  rw [List.mem_filterMap]
  exact ⟨(s, st), hplaced, by simp [symbolEntry, hname]⟩

theorem Assembled.keys_symbols (h : Assembled program layout image)
    (hread : ∀ st ∈ program, st.IsRead) : layout.symbols.keys = program.labels := by
  rw [h.symbols_eq, keys_filterMap_symbolEntry, filterMap_label_placements _ _ hread h.directive]

theorem Assembled.find?_label (h : Assembled program layout image) {s : Symbol} {st : Statement}
    {name : Text} (hplaced : (s, st) ∈ placements layout.origin layout.dataStart program)
    (hname : st.label = some name) : image.symbols.find? name = some s.offset := by
  rw [h.addresses_eq, SymbolTable.addresses, Table.find?_map_value, h.symbols_eq,
    find?_symbolEntry h.labels_nodup hplaced hname, Option.map_some]

theorem mem_placements_of_code {code data : Int} {before after : Program} {st : Statement}
    (hk : st.kind = .code) :
    (⟨.code, code + before.codeSize⟩, st) ∈ placements code data (before ++ st :: after) := by
  rw [placements_append, placements_of_code hk]
  simp

theorem mem_placements_of_data {code data : Int} {before after : Program} {st : Statement}
    (hk : st.kind = .data) :
    (⟨.data, data + before.dataSize⟩, st) ∈ placements code data (before ++ st :: after) := by
  rw [placements_append, placements_of_data hk]
  simp

theorem mem_placements_of_constant {code data : Int} {st : Statement} (hmem : st ∈ program)
    (hk : st.kind = .constant) :
    (⟨.constant, st.number⟩, st) ∈ placements code data program := by
  obtain ⟨before, after, rfl⟩ := List.append_of_mem hmem
  rw [placements_append, placements_of_constant hk]
  simp

/-- A labelled statement is placed, and at other starts of the segments its symbol has moved, unless
it is a constant. -/
theorem exists_mem_placements (code data k : Int) {st : Statement}
    (hread : ∀ st ∈ program, st.IsRead)
    (hdirective : ∀ st ∈ program, st.kind = .directive → st.label = none) (hmem : st ∈ program)
    {name : Text} (hname : st.label = some name) :
    ∃ s s', (s, st) ∈ placements code data program ∧
      (s', st) ∈ placements (code + k) (data + k) program ∧
      s'.offset = if st.kind = .constant then s.offset else s.offset + k := by
  obtain ⟨before, after, rfl⟩ := List.append_of_mem hmem
  cases hk : st.kind with
  | constant =>
    exact ⟨_, _, mem_placements_of_constant hmem hk, mem_placements_of_constant hmem hk, by simp⟩
  | code =>
    refine ⟨_, _, mem_placements_of_code hk, mem_placements_of_code hk, ?_⟩
    simp [Int.add_right_comm]
  | data =>
    refine ⟨_, _, mem_placements_of_data hk, mem_placements_of_data hk, ?_⟩
    simp [Int.add_right_comm]
  | directive =>
    rw [hdirective st hmem hk] at hname
    cases hname
  | register => exact absurd hk (hread st hmem).kind_ne_register
  | plain => exact absurd hk (hread st hmem).kind_ne_plain

/-- The image agrees with the program statement by statement: the `i`-th instruction is word `i` of
the code, the words of a data statement follow those of the data statements before it, and every
label stands for the address of its statement's first word, or for a constant. -/
structure Agrees (program : Program) (symbols : SymbolTable) (image : Image) : Prop where
  keys_eq : image.symbols.keys = program.labels
  labels_nodup : program.labels.Nodup
  length_code : image.code.content.length = program.codeSize
  length_data : image.data.content.length = program.dataSize
  code : ∀ (before : Program) (st : Statement) (after : Program),
    program = before ++ st :: after → st.kind = .code →
    (∃ word, st.encode symbols = .ok word ∧
      image.code.content[before.codeSize]? = some word) ∧
    ∀ name, st.label = some name →
      image.symbols.find? name = some (image.code.start + before.codeSize)
  data : ∀ (before : Program) (st : Statement) (after : Program),
    program = before ++ st :: after → st.kind = .data →
    ((st.keyword = WordKind.dc ∧ ∃ n, st.value = .ok n ∧
        [n] <+: image.data.content.drop before.dataSize) ∨
      (st.keyword = WordKind.ds ∧ ∃ n, st.value = .ok n ∧ 0 < n ∧
        List.replicate n.toNat 0 <+: image.data.content.drop before.dataSize)) ∧
    ∀ name, st.label = some name →
      image.symbols.find? name = some (image.data.start + before.dataSize)
  constant : ∀ st ∈ program, st.kind = .constant →
    ∃ name n, st.label = some name ∧ st.value = .ok n ∧ image.symbols.find? name = some n

theorem Assembled.agrees (h : Assembled program layout image)
    (hread : ∀ st ∈ program, st.IsRead) : Agrees program layout.symbols image := by
  obtain ⟨codeWords, hencode, hcode⟩ := h.code_eq
  obtain ⟨dataWords, hsegment, hdata⟩ := h.data_eq
  constructor
  case keys_eq =>
    rw [h.addresses_eq, SymbolTable.addresses, Table.keys_map_value, h.keys_symbols hread]
  case labels_nodup => exact h.labels_nodup
  case length_code =>
    rw [hcode]
    simp [Segment.place, length_encode hencode]
  case length_data =>
    rw [hdata]
    exact length_dataSegment hsegment
  case code =>
    rintro before st after rfl hk
    refine ⟨?_, fun name hname => ?_⟩
    · rw [hcode]
      exact encode_getElem? hk hencode
    · rw [hcode]
      exact h.find?_label (mem_placements_of_code hk) hname
  case data =>
    rintro before st after rfl hk
    refine ⟨?_, fun name hname => ?_⟩
    · obtain ⟨front, back, hfront, hback, rfl⟩ := dataSegment_append hsegment
      obtain ⟨words, rest, hwords, -, rfl⟩ := dataSegment_cons_of_data hk hback
      have hprefix : words <+: image.data.content.drop before.dataSize := by
        rw [hdata, ← length_dataSegment hfront]
        simp [Segment.place]
      rcases Statement.dataWords_eq_ok hwords with ⟨hdc, n, hn, rfl⟩ | ⟨hds, n, hn, hpos, rfl⟩
      · exact Or.inl ⟨hdc, n, hn, hprefix⟩
      · exact Or.inr ⟨hds, n, hn, hpos, hprefix⟩
    · rw [hdata]
      exact h.find?_label (mem_placements_of_data hk) hname
  case constant =>
    intro st hmem hk
    obtain ⟨name, n, hname, hn, -⟩ := h.constant st hmem hk
    refine ⟨name, n, hname, hn, ?_⟩
    rw [h.find?_label (mem_placements_of_constant hmem hk) hname,
      Statement.number_of_value hn]

end Program

/-- The two passes over a source text agree on its layout: there is a program with a layout such
that the labels are the keys of the symbol table, in source order, and every statement stands where
its label says. -/
theorem assemble_agrees {source : Text} {image : Image} (h : assemble source = .ok image) :
    ∃ program layout, Program.parse source = .ok program ∧ program.layout = .ok layout ∧
      image.symbols = layout.symbols.addresses ∧
      Program.Agrees program layout.symbols image := by
  obtain ⟨program, hparse, hassemble⟩ := bind_eq_ok.mp h
  obtain ⟨layout, hlayout⟩ := Program.assembled_of_assemble hassemble
  exact ⟨program, layout, hparse, hlayout.layout_eq, hlayout.addresses_eq,
    hlayout.agrees (Program.isRead_of_parse hparse)⟩

/-- Code, data and a constant take turns, and a reservation stands before a value. -/
theorem assemble_agrees_mixed :
    let source := "ORG 10\nfive EQU 5\nb DS 2\n ADD R1, =five\nx DC 7\nend LOAD R1, x".toList
    let image : Image := ⟨⟨10, 11, [287309829, 36175886]⟩, ⟨12, 14, [0, 0, 7]⟩,
      [("five".toList, 5), ("b".toList, 12), ("x".toList, 14), ("end".toList, 11)], []⟩
    assemble source = .ok image ∧
      ∃ program layout, Program.parse source = .ok program ∧ program.layout = .ok layout ∧
        image.symbols = layout.symbols.addresses ∧
        Program.Agrees program layout.symbols image := by
  intro source image
  have h : assemble source = .ok image := eq_ok_of_toOption (by decide +kernel)
  exact ⟨h, assemble_agrees h⟩

end Ttk91
