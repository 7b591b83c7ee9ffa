import Ttk91.Proofs.KindSequences

/-! The order of declarations does not matter: programs whose statements of each kind come in the
same order are assembled alike, whatever stands between them. -/

namespace Ttk91

/-! Encoding looks symbols up and does nothing else with them. -/

section

variable {symbols other : SymbolTable} (h : ∀ name, symbols.find? name = other.find? name)

include h

theorem SymbolTable.resolve_congr (text : Text) : symbols.resolve text = other.resolve text := by
  simp only [SymbolTable.resolve, h]

theorem Statement.encode_congr (st : Statement) : st.encode symbols = st.encode other := by
  simp only [Statement.encode, Instruction.second, SymbolTable.resolve_congr h]

theorem Program.encode_congr (address : Int) (program : Program) :
    program.encode symbols address = program.encode other address := by
  induction program generalizing address with
  | nil => rfl
  | cons st rest ih => simp only [Program.encode, Statement.encode_congr h, ih]

end

/-- Two images with the same memory and with the same tables, in any order. -/
structure Image.Alike (a b : Image) : Prop where
  origin : a.origin = b.origin
  code : a.code = b.code
  data : a.data = b.data
  symbols : ∀ name, a.symbols.find? name = b.symbols.find? name
  comments : ∀ address, a.comments.find? address = b.comments.find? address

namespace Program

/-- The programs differ only in how the kinds of their statements take turns: the statements of
each kind are the same, apart from their lines, and in the same order. -/
def SameSequences (p q : Program) : Prop :=
  ∀ kind ∈ [WordKind.directive, .constant, .data, .code], p.sequence kind = q.sequence kind

variable {p q : Program}

theorem SameSequences.symm (h : SameSequences p q) : SameSequences q p :=
  fun kind hkind => (h kind hkind).symm

theorem SameSequences.labels_perm (h : SameSequences p q) (hp : ∀ st ∈ p, st.IsRead)
    (hq : ∀ st ∈ q, st.IsRead) : p.labels.Perm q.labels := by
  have hlabels (program : Program) :
      program.labels = (program.map Statement.unlined).filterMap Statement.label := by
    rw [List.filterMap_map]
    rfl
  have hperm := map_unlined_perm hp
  rw [h .directive (by simp), h .constant (by simp), h .data (by simp), h .code (by simp)] at hperm
  rw [hlabels p, hlabels q]
  exact (hperm.trans (map_unlined_perm hq).symm).filterMap _

/-- What placed statements contribute to a table, if their lines are no part of it. -/
theorem SameSequences.filterMap_placements_perm (h : SameSequences p q) (code data : Int)
    {α : Type} {f : Symbol × Statement → Option α} (hf : ∀ s st, f (s, st.unlined) = f (s, st)) :
    ((placements code data p).filterMap f).Perm ((placements code data q).filterMap f) := by
  have hunlined (ps : List (Symbol × Statement)) :
      ps.filterMap f = (ps.map fun p => (p.1, p.2.unlined)).filterMap f := by
    rw [List.filterMap_map]
    congr 1
    funext p
    exact (hf p.1 p.2).symm
  have hperm := placements_perm code data p
  rw [h .constant (by simp), h .data (by simp), h .code (by simp)] at hperm
  rw [hunlined, hunlined (placements code data q)]
  exact (hperm.trans (placements_perm code data q).symm).filterMap _

theorem SameSequences.codeSize_eq (h : SameSequences p q) : p.codeSize = q.codeSize := by
  rw [← length_sequence_code, ← length_sequence_code, h .code (by simp)]

/-! Each pass succeeds on both programs or on none. -/

theorem eq_ok_of_toOption_eq {ε α : Type} {x y : Except ε α} {a : α} (hx : x = .ok a)
    (h : x.toOption = y.toOption) : y = .ok a := by
  apply eq_ok_of_toOption
  rw [← h, hx]
  rfl

theorem SameSequences.origin_eq_ok (h : SameSequences p q) {n : Int} (hp : p.origin = .ok n) :
    q.origin = .ok n := by
  apply eq_ok_of_toOption_eq hp
  rw [origin, origin, ← toOption_originAfter none p, h .directive (by simp), toOption_originAfter]

theorem SameSequences.dataSegment_eq_ok (h : SameSequences p q) {words : List Int}
    (hp : p.dataSegment = .ok words) : q.dataSegment = .ok words := by
  apply eq_ok_of_toOption_eq hp
  rw [← toOption_dataSegment p, h .data (by simp), toOption_dataSegment]

theorem SameSequences.checkDataFits_eq_ok (h : SameSequences p q) {start : Int}
    (hp : p.checkDataFits start = .ok ()) : q.checkDataFits start = .ok () := by
  apply eq_ok_of_toOption_eq hp
  rw [checkDataFits, checkDataFits, ← toOption_checkDataAfter _ p, h .data (by simp),
    toOption_checkDataAfter]

theorem SameSequences.encode_eq_ok (h : SameSequences p q) {symbols : SymbolTable} {address : Int}
    {words : List CodeWord} (hp : p.encode symbols address = .ok words) :
    q.encode symbols address = .ok words := by
  apply eq_ok_of_toOption_eq hp
  rw [← toOption_encode _ _ p, h .code (by simp), toOption_encode]

theorem SameSequences.exists_symbols (h : SameSequences p q) {symbols : SymbolTable}
    (hp : p.symbols = .ok symbols) : ∃ other, q.symbols = .ok other := by
  apply (exists_symbolsFrom_iff 0 0 [] q).mpr
  rw [← h .constant (by simp), ← h .data (by simp)]
  exact (exists_symbolsFrom_iff 0 0 [] p).mp ⟨symbols, hp⟩

theorem SameSequences.exists_commentsFrom (h : SameSequences p q) {code data : Int}
    {comments : Table Int Text} (hp : p.commentsFrom code data [] = .ok comments) :
    ∃ other, q.commentsFrom code data [] = .ok other := by
  apply (exists_commentsFrom_iff code data [] q).mpr
  rw [← h .data (by simp)]
  exact (exists_commentsFrom_iff code data [] p).mp ⟨comments, hp⟩

theorem SameSequences.find?_symbolEntry (h : SameSequences p q) (hn : p.labels.Nodup)
    (code data : Int) (name : Text) :
    Table.find? ((placements code data p).filterMap symbolEntry) name =
      Table.find? ((placements code data q).filterMap symbolEntry) name := by
  have hperm := h.filterMap_placements_perm code data (f := symbolEntry) fun _ _ => rfl
  exact (Table.find?_perm (nodup_keys_symbolEntry hn code data) hperm name).symm

/-- Wherever the segments start, every name has the same symbol in both layouts. -/
theorem SameSequences.find?_relocate (h : SameSequences p q) (hp : p.labels.Nodup)
    (hq : q.labels.Nodup) {words : List Int} (hdata : p.dataSegment = .ok words)
    {symbols symbols' : SymbolTable} (hsymbols : p.symbols = .ok symbols)
    (hsymbols' : q.symbols = .ok symbols') (code data : Int) (name : Text) :
    (SymbolTable.relocate code data symbols).find? name =
      (SymbolTable.relocate code data symbols').find? name := by
  rw [relocate_symbols_eq hp (isData_of_dataSegment hdata) hsymbols,
    relocate_symbols_eq hq (isData_of_dataSegment (h.dataSegment_eq_ok hdata)) hsymbols']
  exact h.find?_symbolEntry hp code data name

theorem SameSequences.find?_comments (h : SameSequences p q) {start : Int}
    {comments comments' : Table Int Text}
    (hp : p.commentsFrom start (start + p.codeSize) [] = .ok comments)
    (hq : q.commentsFrom start (start + p.codeSize) [] = .ok comments') (address : Int) :
    comments.find? address = comments'.find? address := by
  have hplaced := commentsFrom_eq_ok (Int.le_refl _) (Int.le_refl _) (by simp [Table.keys]) hp
  have hplaced' := commentsFrom_eq_ok (Int.le_of_eq (by rw [h.codeSize_eq])) (Int.le_refl _)
    (by simp [Table.keys]) hq
  have hperm := h.filterMap_placements_perm start (start + p.codeSize) (f := commentEntry)
    fun _ _ => rfl
  have hn := nodup_keys_commentsFrom (by simp [Table.keys]) hp
  rw [List.nil_append] at hplaced hplaced'
  rw [hplaced] at hn ⊢
  rw [hplaced']
  exact (Table.find?_perm hn hperm address).symm

theorem SameSequences.exists_assemble (h : SameSequences p q) (hp : ∀ st ∈ p, st.IsRead)
    (hq : ∀ st ∈ q, st.IsRead) {image : Image} (ha : p.assemble = .ok image) :
    ∃ other, q.assemble = .ok other ∧ image.Alike other := by
  obtain ⟨layout, data, code, comments, hlayout, hdata, hcode, hcomments, rfl⟩ := assemble_eq_ok ha
  obtain ⟨origin, symbols, hlabels, horigin, hsymbols, hfits, rfl⟩ := layout_eq_ok hlayout
  simp only [Layout.codeStart, Layout.dataStart] at hcode hcomments ⊢
  have hnp := checkLabels_eq_ok_iff.mp hlabels
  have hnq := (h.labels_perm hp hq).nodup_iff.mp hnp
  obtain ⟨symbols', hsymbols'⟩ := h.exists_symbols hsymbols
  obtain ⟨comments', hcomments'⟩ := h.exists_commentsFrom hcomments
  have hfind := h.find?_relocate hnp hnq hdata hsymbols hsymbols' origin (origin + p.codeSize)
  have hnote := h.find?_comments hcomments hcomments'
  have hcode' := h.encode_eq_ok hcode
  rw [encode_congr hfind] at hcode'
  have hfits' := h.checkDataFits_eq_ok hfits
  rw [h.codeSize_eq] at hcode' hfits' hcomments'
  refine ⟨_, assemble_of_passes (checkLabels_eq_ok_iff.mpr hnq) (h.origin_eq_ok horigin) hsymbols'
    hfits' (h.dataSegment_eq_ok hdata) hcode' hcomments', rfl, rfl, ?_, ?_, hnote⟩
  · rw [h.codeSize_eq]
  · intro name
    rw [SymbolTable.addresses, SymbolTable.addresses, Table.find?_map_value, Table.find?_map_value,
      hfind, h.codeSize_eq]

end Program

/-- The order of declarations does not matter: of two programs read from source texts whose
statements of each kind come in the same order, either both can be assembled or none, and the
images are alike. -/
theorem assemble_interleaved {source other : Text} {p q : Program}
    (hp : Program.parse source = .ok p) (hq : Program.parse other = .ok q)
    (h : Program.SameSequences p q) :
    ((∃ image, p.assemble = .ok image) ↔ ∃ image, q.assemble = .ok image) ∧
      ∀ image image', p.assemble = .ok image → q.assemble = .ok image' → image.Alike image' := by
  have hreadp := Program.isRead_of_parse hp
  have hreadq := Program.isRead_of_parse hq
  refine ⟨⟨?_, ?_⟩, ?_⟩
  · rintro ⟨image, himage⟩
    obtain ⟨image', himage', -⟩ := h.exists_assemble hreadp hreadq himage
    exact ⟨image', himage'⟩
  · rintro ⟨image, himage⟩
    obtain ⟨image', himage', -⟩ := h.symm.exists_assemble hreadq hreadp himage
    exact ⟨image', himage'⟩
  · intro image image' himage himage'
    obtain ⟨found, hfound, halike⟩ := h.exists_assemble hreadp hreadq himage
    obtain rfl := Except.ok.inj (hfound.symm.trans himage')
    exact halike

/-- A late origin and references in both directions; the tables list their entries in different
orders. -/
theorem assemble_interleaved_late_origin :
    let origin (line : Int) : Statement :=
      ⟨.directive, "ORG".toList, ["5".toList], line, none, none⟩
    let three (line : Int) : Statement :=
      ⟨.constant, "EQU".toList, ["3".toList], line, some "k".toList, none⟩
    let seven (line : Int) : Statement :=
      ⟨.data, "DC".toList, ["7".toList], line, some "x".toList, some "seven".toList⟩
    let load (line : Int) : Statement :=
      ⟨.code, "LOAD".toList, ["R1".toList, "x".toList], line, none, none⟩
    let add (line : Int) : Statement :=
      ⟨.code, "ADD".toList, ["R1".toList, "=k".toList], line, none, some "three".toList⟩
    let p : Program := [origin 1, seven 2, load 3, three 4, add 5]
    let q : Program := [load 1, add 2, three 4, seven 5, origin 6]
    let source := "ORG 5\nx DC 7;seven\n LOAD R1, x\nk EQU 3\n ADD R1, =k;three".toList
    let other := " LOAD R1, x\n ADD R1, =k;three\n\nk EQU 3\nx DC 7;seven\n ORG 5".toList
    let image : Image := ⟨⟨5, 6, [36175879, 287309827]⟩, ⟨7, 7, [7]⟩,
      [("x".toList, 7), ("k".toList, 3)], [(7, "seven".toList), (6, "three".toList)]⟩
    let image' : Image := ⟨⟨5, 6, [36175879, 287309827]⟩, ⟨7, 7, [7]⟩,
      [("k".toList, 3), ("x".toList, 7)], [(6, "three".toList), (7, "seven".toList)]⟩
    Program.parse source = .ok p ∧ Program.parse other = .ok q ∧ Program.SameSequences p q ∧
      p.assemble = .ok image ∧ q.assemble = .ok image' ∧ image.Alike image' := by
  intro origin three seven load add p q source other image image'
  have hp : Program.parse source = .ok p := eq_ok_of_toOption (by decide +kernel)
  have hq : Program.parse other = .ok q := eq_ok_of_toOption (by decide +kernel)
  have h : Program.SameSequences p q := by
    unfold Program.SameSequences
    decide
  have himage : p.assemble = .ok image := eq_ok_of_toOption (by decide +kernel)
  have himage' : q.assemble = .ok image' := eq_ok_of_toOption (by decide +kernel)
  exact ⟨hp, hq, h, himage, himage', (assemble_interleaved hp hq h).2 _ _ himage himage'⟩

end Ttk91
