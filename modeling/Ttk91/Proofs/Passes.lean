import Ttk91.Proofs.Placement

/-! What each pass over a program gives when it succeeds, in terms of the placements of the
statements and of the sizes of the segments. -/

namespace Ttk91.Program

def symbolEntry (p : Symbol × Statement) : Option (Text × Symbol) :=
  p.2.label.map fun name => (name, p.1)

def commentEntry (p : Symbol × Statement) : Option (Int × Text) :=
  if p.1.kind = .constant then none else p.2.comment.map fun text => (p.1.offset, text)

variable {program rest : Program} {st : Statement} {code data : Int}

/-! Labels. -/

theorem labels_cons_none (h : st.label = none) : labels (st :: rest) = labels rest := by
  simp [labels, h]

theorem labels_cons_some {name : Text} (h : st.label = some name) :
    labels (st :: rest) = name :: labels rest := by
  simp [labels, h]

def linesOf (label : Text) (program : Program) : List Int :=
  (program.filter fun st => st.label = some label).map Statement.line

theorem length_linesOf (label : Text) (program : Program) :
    (linesOf label program).length = program.labels.count label := by
  induction program with
  | nil => rfl
  | cons st rest ih =>
    cases hl : st.label with
    | none =>
      rw [labels_cons_none hl, ← ih]
      simp [linesOf, hl]
    | some name =>
      rw [labels_cons_some hl, List.count_cons, ← ih]
      by_cases hname : name = label <;> simp [linesOf, hl, hname]

def noteDefinition (table : Table Text (List Int)) (st : Statement) : Table Text (List Int) :=
  match st.label with
  | none => table
  | some label => table.insert label ((table.find? label).getD [] ++ [st.line])

theorem definitions_eq_foldl (program : Program) :
    program.definitions = program.foldl noteDefinition [] := rfl

theorem getD_find?_foldl_noteDefinition (program : Program) (table : Table Text (List Int))
    (label : Text) :
    ((program.foldl noteDefinition table).find? label).getD [] =
      (table.find? label).getD [] ++ linesOf label program := by
  induction program generalizing table with
  | nil => simp [linesOf]
  | cons st rest ih =>
    rw [List.foldl_cons, ih]
    cases hl : st.label with
    | none => simp [noteDefinition, hl, linesOf]
    | some name =>
      by_cases hname : name = label
      · simp [noteDefinition, hl, hname, linesOf, Table.find?_insert]
      · simp [noteDefinition, hl, hname, linesOf, Table.find?_insert]

theorem nodup_keys_definitions (program : Program) : program.definitions.keys.Nodup := by
  have hfold (table : Table Text (List Int)) (hn : table.keys.Nodup) :
      (program.foldl noteDefinition table).keys.Nodup := by
    induction program generalizing table with
    | nil => exact hn
    | cons st rest ih =>
      apply ih
      cases hl : st.label with
      | none => simpa [noteDefinition, hl] using hn
      | some name =>
        simp only [noteDefinition, hl]
        exact Table.nodup_keys_insert hn name _
  exact hfold [] (by simp [Table.keys])

theorem lines_eq_of_mem_definitions {label : Text} {lines : List Int}
    (h : (label, lines) ∈ program.definitions) : lines = linesOf label program := by
  have hlines := getD_find?_foldl_noteDefinition program [] label
  rw [← definitions_eq_foldl, Table.find?_of_mem (nodup_keys_definitions program) h] at hlines
  simpa [Table.find?] using hlines

theorem mem_definitions {label : Text} (h : linesOf label program ≠ []) :
    (label, linesOf label program) ∈ program.definitions := by
  have hlines := getD_find?_foldl_noteDefinition program [] label
  rw [← definitions_eq_foldl] at hlines
  cases hfind : program.definitions.find? label with
  | none => exact absurd (by simpa [hfind, Table.find?] using hlines) h
  | some lines =>
    obtain rfl : lines = linesOf label program := by simpa [hfind, Table.find?] using hlines
    exact Table.mem_of_find? hfind

theorem mem_repeatedLabels_iff {r : Repeated} :
    r ∈ program.repeatedLabels ↔
      r.lines = linesOf r.label program ∧ 1 < program.labels.count r.label := by
  obtain ⟨label, lines⟩ := r
  rw [← length_linesOf, repeatedLabels, List.mem_filterMap]
  constructor
  · rintro ⟨⟨label', lines'⟩, hmem, heq⟩
    obtain ⟨hmany, heq⟩ := Option.ite_none_right_eq_some.mp heq
    obtain ⟨rfl, rfl⟩ := Repeated.mk.inj (Option.some.inj heq)
    obtain rfl := lines_eq_of_mem_definitions hmem
    exact ⟨rfl, hmany⟩
  · rintro ⟨hlines, hmany⟩
    obtain rfl : lines = linesOf label program := hlines
    exact ⟨_, mem_definitions (List.ne_nil_of_length_pos (by omega)), if_pos hmany⟩

theorem repeatedLabels_eq_nil_iff : program.repeatedLabels = [] ↔ program.labels.Nodup := by
  rw [List.nodup_iff_count, List.eq_nil_iff_forall_not_mem]
  constructor
  · intro h label
    apply Nat.le_of_not_lt
    intro hmany
    exact h ⟨label, linesOf label program⟩ (mem_repeatedLabels_iff.mpr ⟨rfl, hmany⟩)
  · intro h r hr
    have hmany := (mem_repeatedLabels_iff.mp hr).2
    have hle := h r.label
    omega

theorem checkLabels_eq_ok_iff : program.checkLabels = .ok () ↔ program.labels.Nodup := by
  rw [← repeatedLabels_eq_nil_iff, checkLabels]
  split <;> simp_all

theorem checkLabels_eq_error {failure : Failure} (h : program.checkLabels = .error failure) :
    failure = .repeated program.repeatedLabels ∧ program.repeatedLabels ≠ [] := by
  unfold checkLabels at h
  split at h
  · cases h
  · rename_i hne
    cases h
    exact ⟨rfl, hne⟩

/-! The origin. -/

/-- An origin is 0 or the value of a statement, and no directive has a label. -/
theorem originAfter_eq_ok {found : Option Int} {n : Int}
    (h : originAfter found program = .ok n) :
    (n = found.getD 0 ∨ 0 ≤ n ∧ ∃ st ∈ program, st.value = .ok n) ∧
      ∀ st ∈ program, st.kind = .directive → st.label = none := by
  fun_induction originAfter found program with
  | case1 found =>
    cases h
    simp
  | case2 | case3 | case4 => cases h
  | case5 found st rest hk hkey hfound m hm ih =>
    obtain ⟨hn, hrest⟩ := ih h
    have hst := Statement.originValue_eq_ok hm
    constructor
    · right
      rcases hn with rfl | ⟨hpos, st', hmem, hv⟩
      · exact ⟨hst.2.2, st, by simp, hst.2.1⟩
      · exact ⟨hpos, st', by simp [hmem], hv⟩
    · intro st' hmem hdir
      rcases List.mem_cons.mp hmem with rfl | hmem
      · exact hst.1
      · exact hrest st' hmem hdir
  | case6 found st rest hk ih =>
    obtain ⟨hn, hrest⟩ := ih h
    constructor
    · exact hn.imp_right fun ⟨hpos, st', hmem, hv⟩ => ⟨hpos, st', by simp [hmem], hv⟩
    · intro st' hmem hdir
      rcases List.mem_cons.mp hmem with rfl | hmem
      · exact absurd hdir hk
      · exact hrest st' hmem hdir

/-- Every directive gives the origin, and none does after the first one. -/
theorem value_of_originAfter {found : Option Int} {n : Int}
    (h : originAfter found program = .ok n) :
    (∀ m, found = some m → n = m) ∧
      ∀ st ∈ program, st.kind = .directive → found = none ∧ st.value = .ok n := by
  fun_induction originAfter found program with
  | case1 found =>
    cases h
    simp +contextual
  | case2 | case3 | case4 => cases h
  | case5 found st rest hk hkey hfound m hm ih =>
    obtain ⟨hn, hrest⟩ := ih h
    have hnone : found = none := by simpa using hfound
    refine ⟨by simp [hnone], fun st' hmem hdir => ?_⟩
    rcases List.mem_cons.mp hmem with rfl | hmem
    · rw [hn m rfl]
      exact ⟨hnone, (Statement.originValue_eq_ok hm).2.1⟩
    · cases (hrest st' hmem hdir).1
  | case6 found st rest hk ih =>
    refine ⟨(ih h).1, fun st' hmem hdir => ?_⟩
    rcases List.mem_cons.mp hmem with rfl | hmem
    · exact absurd hdir hk
    · exact (ih h).2 st' hmem hdir

/-! Symbols. -/

theorem define_eq {table : SymbolTable} (hn : (table.keys ++ labels (st :: rest)).Nodup)
    (s : Symbol) : SymbolTable.define table st.label s = table ++ (symbolEntry (s, st)).toList := by
  cases hl : st.label with
  | none => simp [SymbolTable.define, symbolEntry, hl]
  | some name =>
    have hfresh : name ∉ table.keys := by
      rw [labels_cons_some hl] at hn
      exact fun hmem => (List.nodup_append.mp hn).2.2 name hmem name (by simp) rfl
    simp [SymbolTable.define, symbolEntry, hl, Table.insert_of_not_mem s hfresh]

theorem nodup_keys_define {table : SymbolTable} (hn : (table.keys ++ labels (st :: rest)).Nodup)
    (s : Symbol) :
    (Table.keys (table ++ (symbolEntry (s, st)).toList) ++ labels rest).Nodup := by
  cases hl : st.label with
  | none => simpa [symbolEntry, hl, labels_cons_none hl] using hn
  | some name => simpa [symbolEntry, hl, labels_cons_some hl, Table.keys] using hn

theorem filterMap_cons_toList {α β : Type} (f : α → Option β) (a : α) (as : List α) :
    (a :: as).filterMap f = (f a).toList ++ as.filterMap f := by
  cases h : f a <;> simp [h]

/-- With fresh labels, the pass over the symbols appends the labels of the placements. -/
theorem symbolsFrom_eq_ok {table result : SymbolTable}
    (hk : ∀ st ∈ program, st.kind = .data → st.IsData)
    (hn : (table.keys ++ program.labels).Nodup)
    (h : symbolsFrom code data table program = .ok result) :
    result = table ++ (placements code data program).filterMap symbolEntry := by
  fun_induction symbolsFrom code data table program with
  | case1 code data table =>
    cases h
    simp [placements]
  | case2 | case3 => cases h
  | case4 code data table st rest hkind name hname n hvalue ih =>
    have hnum : st.number = n :=
      Statement.number_of_value (Statement.constantValue_eq_ok hvalue).1
    have hdefine : table.insert name ⟨.constant, n⟩ =
        table ++ (symbolEntry (⟨.constant, n⟩, st)).toList := by
      rw [← define_eq hn, hname]
      rfl
    have hresult := ih (fun st' h' => hk st' (by simp [h'])) (hdefine ▸ nodup_keys_define hn _) h
    rw [hresult, placements_of_constant hkind, filterMap_cons_toList, hnum, ← List.append_assoc,
      ← hdefine]
  | case5 code data table st rest hkind ih =>
    have hdefine := define_eq hn ⟨.code, code⟩
    have hresult := ih (fun st' h' => hk st' (by simp [h'])) (hdefine ▸ nodup_keys_define hn _) h
    rw [hresult, placements_of_code hkind, filterMap_cons_toList, ← List.append_assoc, ← hdefine]
  | case6 => cases h
  | case7 code data table st rest hkind n hspan ih =>
    have hextent := Statement.span_eq_ok (hk st (by simp) hkind) hspan
    have hdefine := define_eq hn ⟨.data, data⟩
    have hresult := ih (fun st' h' => hk st' (by simp [h'])) (hdefine ▸ nodup_keys_define hn _) h
    rw [hresult, placements_of_data hkind, filterMap_cons_toList, ← List.append_assoc, ← hdefine,
      hextent]
  | case8 code data table st rest hconst hcode hdata ih =>
    have hother : placements code data (st :: rest) = placements code data rest :=
      placements_of_other hconst hcode hdata
    have hlabels : (table.keys ++ labels rest).Nodup :=
      hn.sublist (List.Sublist.append_left ((List.sublist_cons_self st rest).filterMap _) _)
    rw [hother]
    exact ih (fun st' h' => hk st' (by simp [h'])) hlabels h

theorem constant_of_symbolsFrom {table result : SymbolTable}
    (h : symbolsFrom code data table program = .ok result) :
    ∀ st ∈ program, st.kind = .constant →
      ∃ name n, st.label = some name ∧ st.value = .ok n ∧ -32768 ≤ n ∧ n ≤ 32767 := by
  fun_induction symbolsFrom code data table program with
  | case1 => simp
  | case2 | case3 | case6 => cases h
  | case4 code data table st rest hkind name hname n hvalue ih =>
    intro st' hmem hkind'
    rcases List.mem_cons.mp hmem with rfl | hmem
    · exact ⟨name, n, hname, Statement.constantValue_eq_ok hvalue⟩
    · exact ih h st' hmem hkind'
  | case5 code data table st rest hkind ih | case7 code data table st rest hkind n hspan ih =>
    intro st' hmem hkind'
    rcases List.mem_cons.mp hmem with rfl | hmem
    · rw [hkind] at hkind'
      cases hkind'
    · exact ih h st' hmem hkind'
  | case8 code data table st rest hconst hcode hdata ih =>
    intro st' hmem hkind'
    rcases List.mem_cons.mp hmem with rfl | hmem
    · exact absurd hkind' hconst
    · exact ih h st' hmem hkind'

/-! Comments. -/

theorem note_eq (st : Statement) (table : Table Int Text) {s : Symbol} (hkind : s.kind ≠ .constant)
    (hfresh : s.offset ∉ table.keys) :
    commentsFrom.note table s.offset st.comment = table ++ (commentEntry (s, st)).toList := by
  cases hc : st.comment with
  | none => simp [commentsFrom.note, commentEntry, hc]
  | some text =>
    simp [commentsFrom.note, commentEntry, hc, hkind, Table.insert_of_not_mem text hfresh]

theorem mem_keys_note {table : Table Int Text} {s : Symbol} {a : Int}
    (h : a ∈ Table.keys (table ++ (commentEntry (s, st)).toList)) :
    a ∈ table.keys ∨ a = s.offset := by
  rw [Table.keys_append, List.mem_append] at h
  refine h.imp_right fun h => ?_
  unfold commentEntry at h
  split at h
  · simp [Table.keys] at h
  · cases hc : st.comment <;> simp [Table.keys, hc] at h
    exact h

/-- The pass over the comments appends the comments of the placements. The code ends below `first`
and the data start there, so no two statements share an address. -/
theorem commentsFrom_eq_ok {table result : Table Int Text} {first : Int}
    (hcode : code + program.codeSize ≤ first) (hdata : first ≤ data)
    (htable : ∀ a ∈ table.keys, a < code ∨ first ≤ a ∧ a < data)
    (h : commentsFrom code data table program = .ok result) :
    result = table ++ (placements code data program).filterMap commentEntry := by
  fun_induction commentsFrom code data table program with
  | case1 code data table =>
    cases h
    simp [placements]
  | case2 code data table st rest hkind ih =>
    rw [codeSize_cons_of_code hkind] at hcode
    have hnote := note_eq st table (s := ⟨.code, code⟩) (by simp)
      fun hmem => by have := htable code hmem; omega
    have hresult := ih (by omega) hdata (fun a ha => ?_) h
    · rw [hresult, placements_of_code hkind, filterMap_cons_toList, ← List.append_assoc, ← hnote]
    · rw [hnote] at ha
      rcases mem_keys_note ha with ha | rfl
      · have := htable a ha
        omega
      · omega
  | case3 => cases h
  | case4 code data table st rest hkind n hsize ih =>
    obtain ⟨hextent, hpos⟩ := Statement.size_eq_ok hsize
    rw [codeSize_cons_of_ne (by simp [hkind])] at hcode
    have hnote := note_eq st table (s := ⟨.data, data⟩) (by simp)
      fun hmem => by have := htable data hmem; omega
    have hresult := ih hcode (by omega) (fun a ha => ?_) h
    · rw [hresult, placements_of_data hkind, filterMap_cons_toList, ← List.append_assoc, ← hnote,
        hextent]
    · rw [hnote] at ha
      rcases mem_keys_note ha with ha | rfl
      · have := htable a ha
        omega
      · omega
  | case5 code data table st rest hcode' hdata' ih =>
    rw [codeSize_cons_of_ne hcode'] at hcode
    rw [ih hcode hdata htable h]
    by_cases hconst : st.kind = .constant
    · rw [placements_of_constant hconst, filterMap_cons_toList]
      rfl
    · rw [placements_of_other hconst hcode' hdata']

theorem nodup_keys_commentsFrom {table result : Table Int Text} (hn : table.keys.Nodup)
    (h : commentsFrom code data table program = .ok result) : result.keys.Nodup := by
  have hnote (table : Table Int Text) (hn : table.keys.Nodup) (address : Int)
      (comment : Option Text) : (commentsFrom.note table address comment).keys.Nodup := by
    cases comment with
    | none => exact hn
    | some text => exact Table.nodup_keys_insert hn address text
  fun_induction commentsFrom code data table program with
  | case1 code data table =>
    cases h
    exact hn
  | case2 code data table st rest hkind ih => exact ih (hnote table hn code st.comment) h
  | case3 => cases h
  | case4 code data table st rest hkind n hsize ih => exact ih (hnote table hn data st.comment) h
  | case5 code data table st rest hcode hdata ih => exact ih hn h

/-! Code. -/

theorem encode_eq_ok {symbols : SymbolTable} {address : Int} {words : List CodeWord}
    (h : encode symbols address program = .ok words) :
    program.instructions.map (fun st => st.encode symbols) = words.map fun w => .ok w.word := by
  fun_induction encode symbols address program generalizing words with
  | case1 =>
    cases h
    rfl
  | case2 => cases h
  | case3 address st rest hkind word hword ih =>
    obtain ⟨ws, hws, rfl⟩ := map_eq_ok.mp h
    have hcons : instructions (st :: rest) = st :: instructions rest := by
      simp [instructions, hkind]
    rw [hcons, List.map_cons, List.map_cons, hword, ih hws]
  | case4 address st rest hkind ih =>
    have hskip : instructions (st :: rest) = instructions rest := by simp [instructions, hkind]
    rw [hskip, ih h]

theorem length_encode {symbols : SymbolTable} {address : Int} {words : List CodeWord}
    (h : encode symbols address program = .ok words) : words.length = program.codeSize := by
  have hlen := congrArg List.length (encode_eq_ok h)
  rw [List.length_map, List.length_map, length_instructions] at hlen
  exact hlen.symm

theorem mem_encode {symbols : SymbolTable} {address : Int} {words : List CodeWord}
    (h : encode symbols address program = .ok words) {word : Int}
    (hword : word ∈ words.map CodeWord.word) : ∃ st ∈ program, st.encode symbols = .ok word := by
  obtain ⟨w, hw, rfl⟩ := List.mem_map.mp hword
  have hmem : Except.ok w.word ∈ program.instructions.map fun st => st.encode symbols := by
    rw [encode_eq_ok h]
    exact List.mem_map_of_mem hw
  obtain ⟨st, hst, hok⟩ := List.mem_map.mp hmem
  exact ⟨st, (List.mem_filter.mp hst).1, hok⟩

theorem encode_getElem?_of_instructions {symbols : SymbolTable} {address : Int}
    {words : List CodeWord} {i : Nat} (hi : program.instructions[i]? = some st)
    (h : encode symbols address program = .ok words) :
    ∃ word, st.encode symbols = .ok word ∧ (words.map CodeWord.word)[i]? = some word := by
  have hget := congrArg (fun l : List (Except Fault Int) => l[i]?) (encode_eq_ok h)
  simp only [List.getElem?_map, hi, Option.map_some] at hget
  obtain ⟨w, hw, hok⟩ := Option.map_eq_some_iff.mp hget.symm
  exact ⟨w.word, hok.symm, by rw [List.getElem?_map, hw, Option.map_some]⟩

/-- An instruction stands behind as many words as there are instructions before it. -/
theorem encode_getElem? {symbols : SymbolTable} {address : Int} {words : List CodeWord}
    {before after : Program} (hkind : st.kind = .code)
    (h : encode symbols address (before ++ st :: after) = .ok words) :
    ∃ word, st.encode symbols = .ok word ∧
      (words.map CodeWord.word)[before.codeSize]? = some word := by
  have hsplit : instructions (before ++ st :: after) =
      instructions before ++ st :: instructions after := by
    simp [instructions, hkind]
  apply encode_getElem?_of_instructions _ h
  rw [hsplit, ← length_instructions, List.getElem?_append_right (Nat.le_refl _), Nat.sub_self,
    List.getElem?_cons_zero]

/-! Data. -/

theorem dataSegment_append {before after : Program} {words : List Int}
    (h : dataSegment (before ++ after) = .ok words) :
    ∃ front back, dataSegment before = .ok front ∧ dataSegment after = .ok back ∧
      words = front ++ back := by
  induction before generalizing words with
  | nil => exact ⟨[], words, rfl, h, rfl⟩
  | cons st before ih =>
    rw [List.cons_append, dataSegment] at h
    split at h
    · rename_i hkind
      split at h
      · cases h
      · rename_i ws hws
        obtain ⟨rest, hrest, rfl⟩ := map_eq_ok.mp h
        obtain ⟨front, back, hfront, hback, rfl⟩ := ih hrest
        refine ⟨ws ++ front, back, ?_, hback, by rw [List.append_assoc]⟩
        rw [dataSegment, if_pos hkind, hws, hfront]
        rfl
    · rename_i hkind
      obtain ⟨front, back, hfront, hback, rfl⟩ := ih h
      exact ⟨front, back, by rw [dataSegment, if_neg hkind, hfront], hback, rfl⟩

theorem dataSegment_cons_of_data (hkind : st.kind = .data) {words : List Int}
    (h : dataSegment (st :: rest) = .ok words) :
    ∃ front back, st.dataWords = .ok front ∧ dataSegment rest = .ok back ∧
      words = front ++ back := by
  rw [dataSegment, if_pos hkind] at h
  split at h
  · cases h
  · rename_i ws hws
    obtain ⟨back, hback, rfl⟩ := map_eq_ok.mp h
    exact ⟨ws, back, hws, hback, rfl⟩

theorem length_dataSegment {words : List Int} (h : dataSegment program = .ok words) :
    words.length = program.dataSize := by
  induction program generalizing words with
  | nil =>
    cases h
    rfl
  | cons st rest ih =>
    by_cases hkind : st.kind = .data
    · obtain ⟨front, back, hfront, hback, rfl⟩ := dataSegment_cons_of_data hkind h
      rw [List.length_append, Statement.length_of_dataWords hfront, ih hback,
        dataSize_cons_of_data hkind]
    · rw [dataSegment, if_neg hkind] at h
      rw [ih h, dataSize_cons_of_ne hkind]

theorem mem_dataSegment {words : List Int} (h : dataSegment program = .ok words) {word : Int}
    (hword : word ∈ words) :
    ∃ st ∈ program, ∃ front, st.dataWords = .ok front ∧ word ∈ front := by
  induction program generalizing words with
  | nil =>
    cases h
    cases hword
  | cons st rest ih =>
    by_cases hkind : st.kind = .data
    · obtain ⟨front, back, hfront, hback, rfl⟩ := dataSegment_cons_of_data hkind h
      rcases List.mem_append.mp hword with hword | hword
      · exact ⟨st, by simp, front, hfront, hword⟩
      · obtain ⟨st', hmem, hst'⟩ := ih hback hword
        exact ⟨st', by simp [hmem], hst'⟩
    · rw [dataSegment, if_neg hkind] at h
      obtain ⟨st', hmem, hst'⟩ := ih h hword
      exact ⟨st', by simp [hmem], hst'⟩

theorem isData_of_dataSegment {words : List Int} (h : dataSegment program = .ok words) :
    ∀ st ∈ program, st.kind = .data → st.IsData := by
  intro st hmem hkind
  obtain ⟨before, after, rfl⟩ := List.append_of_mem hmem
  obtain ⟨-, back, -, hback, -⟩ := dataSegment_append h
  obtain ⟨front, -, hfront, -, -⟩ := dataSegment_cons_of_data hkind hback
  exact Statement.isData_of_dataWords hfront

theorem checkDataAfter_eq_ok {last : Int} (h : checkDataAfter last program = .ok ()) :
    program.dataSize = 0 ∨ last + program.dataSize ≤ lastAddress := by
  fun_induction checkDataAfter last program with
  | case1 => exact Or.inl rfl
  | case2 | case3 => cases h
  | case4 last st rest hkind n hsize hfits ih =>
    obtain ⟨hextent, -⟩ := Statement.size_eq_ok hsize
    have hrest := ih h
    rw [dataSize_cons_of_data hkind]
    omega
  | case5 last st rest hkind ih =>
    rw [dataSize_cons_of_ne hkind]
    exact ih h

end Ttk91.Program
