import Mathlib.Data.List.Forall2
import Ttk91.Proofs.ImageReader

/-! The format of memory images as a grammar over lines. In each state, the reader takes a line
exactly when the grammar does, so the texts of the grammar are the ones that are read, each as the
image that it spells out. -/

namespace Ttk91.Image

/-! Runs of the reader. -/

/-- The reader gets from a state to an image; what follows the last line it takes is free. -/
inductive Reads : State → List Text → Image → Prop
  | done {state : State} {line : Text} {image : Image} (h : step state line = .ok (.done image))
    (rest : List Text) : Reads state (line :: rest) image
  | more {state next : State} {line : Text} {rest : List Text} {image : Image}
    (h : step state line = .ok (.more next)) (hrest : Reads next rest image) :
    Reads state (line :: rest) image

theorem not_reads_nil {state : State} {image : Image} : ¬ Reads state [] image := nofun

theorem reads_cons_iff {state : State} {line : Text} {rest : List Text} {image : Image} :
    Reads state (line :: rest) image ↔
      step state line = .ok (.done image) ∨
        ∃ next, step state line = .ok (.more next) ∧ Reads next rest image := by
  constructor
  · intro h
    cases h with
    | done h => exact Or.inl h
    | more h hrest => exact Or.inr ⟨_, h, hrest⟩
  · rintro (h | ⟨next, h, hrest⟩)
    · exact .done h rest
    · exact .more h hrest

theorem readFrom_eq_ok_iff {state : State} {count : Nat} {lines : List Text} {image : Image} :
    readFrom state count lines = .ok image ↔ Reads state lines image := by
  induction lines generalizing state count with
  | nil => simp [readFrom, not_reads_nil]
  | cons line rest ih =>
    rw [readFrom, reads_cons_iff]
    cases hstep : step state line with
    | error problem => simp
    | ok progress =>
      cases progress with
      | done found => simp
      | more next => simp [ih]

/-! The grammar. A word line is read by a function that the grammar is given. -/

/-- A section: its marker, its bounds, and as many lines with a word as the bounds say. -/
inductive IsSection (wordOf? : Text → Option Int) (part : Part) : List Text → Segment → Prop
  | mk {bounds : Text} {words : List Text} {s : Segment} (hbounds : IsBounds bounds s.start s.last)
    (hle : s.start ≤ s.last + 1) (hcount : (words.length : Int) = s.last - s.start + 1)
    (hwords : List.Forall₂ (fun line word => wordOf? line = some word) words s.content) :
    IsSection wordOf? part (part.marker :: bounds :: words) s

/-- Lines that make up a table: each is one entry, none is a marker, and no key comes twice. -/
structure IsTable {κ α : Type} (isEntry : Text → κ × α → Prop) (markers lines : List Text)
    (table : Table κ α) : Prop where
  entries : List.Forall₂ isEntry lines table
  not_marker : ∀ line ∈ lines, line ∉ markers
  keys_nodup : table.keys.Nodup

/-- What follows the symbols: the comments, if there are any, the end marker, and anything. -/
inductive IsEnding : List Text → Table Int Text → Prop
  | plain (rest : List Text) : IsEnding (Marker.finish :: rest) []
  | commented {lines : List Text} {comments : Table Int Text}
    (h : IsTable IsComment [Marker.finish] lines comments) (rest : List Text) :
    IsEnding (Marker.comments :: lines ++ Marker.finish :: rest) comments

/-- The lines of an image: the header, the two sections in either order and the symbols, each after
any number of empty lines, and the ending. -/
inductive IsDocument (wordOf? : Text → Option Int) : List Text → Image → Prop
  | mk {first second symbolLines ending : List Text} {image : Image} (m n k : Nat)
    (hsections : IsSection wordOf? .code first image.code ∧
        IsSection wordOf? .data second image.data ∨
      IsSection wordOf? .data first image.data ∧ IsSection wordOf? .code second image.code)
    (hsymbols : IsTable IsSymbol [Marker.finish, Marker.comments] symbolLines image.symbols)
    (hending : IsEnding ending image.comments) :
    IsDocument wordOf? (Marker.header :: (List.replicate m [] ++ first ++
      (List.replicate n [] ++ second ++
        (List.replicate k [] ++ Marker.symbols :: symbolLines ++ ending)))) image

def wordOf? (line : Text) : Option Int := Text.toInt? (Text.trim line)

/-! One line, in each state of the reader. -/

section

variable {draft : Draft} {part : Part} {line : Text} {rest : List Text} {image : Image}

theorem reads_header_cons :
    Reads .header (line :: rest) image ↔
      line = Marker.header ∧ Reads (.sections ⟨none, none⟩) rest image := by
  by_cases hline : line = Marker.header <;> simp [reads_cons_iff, step, hline]

theorem reads_openSection :
    (openSection draft part = .ok (.done image) ∨
      ∃ next, openSection draft part = .ok (.more next) ∧ Reads next rest image) ↔
      draft.get part = none ∧ Reads (.bounds draft part) rest image := by
  cases h : draft.get part <;> simp [openSection, h]

theorem reads_sections_cons :
    Reads (.sections draft) (line :: rest) image ↔
      line = [] ∧ Reads (.sections draft) rest image ∨
      (∃ part, line = part.marker ∧ draft.get part = none ∧
        Reads (.bounds draft part) rest image) ∨
      line = Marker.symbols ∧ Reads (.symbols draft []) rest image := by
  have hparts {P : Part → Prop} : (∃ part, P part) ↔ P .code ∨ P .data :=
    ⟨fun ⟨part, h⟩ => by cases part <;> simp [h], fun h => h.elim (⟨_, ·⟩) (⟨_, ·⟩)⟩
  have hcode : Marker.code ≠ [] ∧ Marker.code ≠ Marker.data ∧ Marker.code ≠ Marker.symbols := by
    decide
  have hdata : Marker.data ≠ [] ∧ Marker.data ≠ Marker.symbols := by decide
  have hsymbols : Marker.symbols ≠ [] := by decide
  rw [reads_cons_iff, hparts]
  simp only [step, List.isEmpty_iff, Part.marker]
  by_cases hempty : line = []
  · simp [hempty, hcode.1.symm, hdata.1.symm, hsymbols.symm]
  by_cases hline : line = Marker.code
  · simp [hline, hcode, reads_openSection]
  by_cases hline' : line = Marker.data
  · simp [hline', hcode.2.1.symm, hdata, reads_openSection]
  by_cases hline'' : line = Marker.symbols
  · simp [hline'', hcode.2.2.symm, hdata.2.symm, hsymbols]
  · simp [hempty, hline, hline', hline'']

theorem reads_bounds_cons :
    Reads (.bounds draft part) (line :: rest) image ↔
      ∃ start last, IsBounds line start last ∧ start ≤ last + 1 ∧
        Reads (expectWords draft part start last (last - start + 1).toNat []) rest image := by
  rw [reads_cons_iff]
  simp only [step]
  constructor
  · intro h
    split at h
    · simp at h
    · rename_i start last hbounds
      obtain ⟨hline, hle⟩ := readBounds_eq_ok_iff.mp hbounds
      exact ⟨start, last, hline, hle, by simpa using h⟩
  · rintro ⟨start, last, hline, hle, h⟩
    rw [readBounds_eq_ok_iff.mpr ⟨hline, hle⟩]
    exact Or.inr ⟨_, rfl, h⟩

theorem reads_words_cons {start last : Int} {missing : Nat} {read : List Int} :
    Reads (.words draft part start last (missing + 1) read) (line :: rest) image ↔
      ∃ word, wordOf? line = some word ∧
        Reads (expectWords draft part start last missing (word :: read)) rest image := by
  rw [reads_cons_iff]
  simp only [step, wordOf?]
  cases Text.toInt? (Text.trim line) <;> simp

theorem reads_complete {names : Table Text Int} {comments : Table Int Text} :
    ((draft.complete names comments).map Progress.done = .ok (.done image) ∨
      ∃ next, (draft.complete names comments).map Progress.done = .ok (.more next) ∧
        Reads next rest image) ↔ draft.complete names comments = .ok image := by
  cases draft.complete names comments <;> simp [Except.map]

theorem reads_symbols_cons {table : Table Text Int} :
    Reads (.symbols draft table) (line :: rest) image ↔
      line ∈ [Marker.finish, Marker.comments] ∧
        (line = Marker.finish ∧ draft.complete table [] = .ok image ∨
          line = Marker.comments ∧ Reads (.comments draft table []) rest image) ∨
      line ∉ [Marker.finish, Marker.comments] ∧ ∃ entry, IsSymbol line entry ∧
        entry.1 ∉ table.keys ∧ Reads (.symbols draft (table ++ [entry])) rest image := by
  have hcomments : Marker.comments ≠ Marker.finish := by decide
  rw [reads_cons_iff]
  simp only [step, ← and_assoc, ← readSymbol_eq_ok_iff]
  by_cases hfinish : line = Marker.finish
  · simp [hfinish, hcomments.symm, reads_complete]
  by_cases hline : line = Marker.comments
  · simp [hline, hcomments]
  · cases readSymbol table line <;> simp [hfinish, hline]

theorem reads_comments_cons {names : Table Text Int} {table : Table Int Text} :
    Reads (.comments draft names table) (line :: rest) image ↔
      line ∈ [Marker.finish] ∧ draft.complete names table = .ok image ∨
      line ∉ [Marker.finish] ∧ ∃ entry, IsComment line entry ∧
        entry.1 ∉ table.keys ∧ Reads (.comments draft names (table ++ [entry])) rest image := by
  rw [reads_cons_iff]
  simp only [step, ← and_assoc, ← readComment_eq_ok_iff]
  by_cases hfinish : line = Marker.finish
  · simp [hfinish, reads_complete]
  · cases readComment table line <;> simp [hfinish]

end

/-! Sections. -/

theorem reads_expectWords_iff {draft : Draft} {part : Part} {start last : Int} {missing : Nat}
    {read : List Int} {lines : List Text} {image : Image} :
    Reads (expectWords draft part start last missing read) lines image ↔
      ∃ words content rest, lines = words ++ rest ∧ words.length = missing ∧
        List.Forall₂ (fun line word => wordOf? line = some word) words content ∧
        Reads (.sections (draft.set ⟨start, last, read.reverse ++ content⟩ part)) rest image := by
  induction missing generalizing read lines with
  | zero =>
    constructor
    · intro h
      exact ⟨[], [], lines, rfl, rfl, .nil, by simpa [expectWords] using h⟩
    · rintro ⟨words, content, rest, rfl, hlength, hwords, h⟩
      obtain rfl := List.length_eq_zero_iff.mp hlength
      obtain rfl := List.forall₂_nil_left_iff.mp hwords
      simpa [expectWords] using h
  | succ missing ih =>
    have hstate : expectWords draft part start last (missing + 1) read =
        .words draft part start last (missing + 1) read := rfl
    rw [hstate]
    constructor
    · intro h
      cases lines with
      | nil => exact absurd h not_reads_nil
      | cons line rest =>
        obtain ⟨word, hword, hrest⟩ := reads_words_cons.mp h
        obtain ⟨words, content, rest, rfl, rfl, hwords, hnext⟩ := ih.mp hrest
        exact ⟨line :: words, word :: content, rest, rfl, rfl, .cons hword hwords,
          by simpa using hnext⟩
    · rintro ⟨words, content, rest, rfl, hlength, hwords, h⟩
      cases hwords with
      | nil => simp at hlength
      | cons hword hwords =>
        rename_i line word words content
        have hrest : Reads (expectWords draft part start last missing (word :: read))
            (words ++ rest) image :=
          ih.mpr ⟨words, content, rest, rfl, by simpa using hlength, hwords, by simpa using h⟩
        exact reads_words_cons.mpr ⟨word, hword, hrest⟩

theorem reads_bounds_iff {draft : Draft} {part : Part} {lines : List Text} {image : Image} :
    Reads (.bounds draft part) lines image ↔
      ∃ sectionLines s rest, part.marker :: lines = sectionLines ++ rest ∧
        IsSection wordOf? part sectionLines s ∧
        Reads (.sections (draft.set s part)) rest image := by
  constructor
  · intro h
    cases lines with
    | nil => exact absurd h not_reads_nil
    | cons line rest =>
      obtain ⟨start, last, hbounds, hle, hrest⟩ := reads_bounds_cons.mp h
      obtain ⟨words, content, rest, rfl, hlength, hwords, hnext⟩ := reads_expectWords_iff.mp hrest
      have hcount : (words.length : Int) = last - start + 1 := by omega
      exact ⟨part.marker :: line :: words, ⟨start, last, content⟩, rest, rfl,
        .mk hbounds hle hcount hwords, hnext⟩
  · rintro ⟨sectionLines, s, rest, hlines, hsection, h⟩
    cases hsection with
    | @mk bounds words _ hbounds hle hcount hwords =>
      obtain ⟨-, rfl⟩ := List.cons.inj hlines
      have hlength : words.length = (s.last - s.start + 1).toNat := by omega
      have hrest : Reads (expectWords draft part s.start s.last (s.last - s.start + 1).toNat [])
          (words ++ rest) image :=
        reads_expectWords_iff.mpr ⟨words, s.content, rest, rfl, hlength, hwords, h⟩
      exact reads_bounds_cons.mpr ⟨s.start, s.last, hbounds, hle, hrest⟩

theorem reads_replicate_append {draft : Draft} {n : Nat} {rest : List Text} {image : Image}
    (h : Reads (.sections draft) rest image) :
    Reads (.sections draft) (List.replicate n [] ++ rest) image := by
  induction n with
  | zero => exact h
  | succ n ih => exact reads_sections_cons.mpr (Or.inl ⟨rfl, ih⟩)

theorem reads_sections_iff {draft : Draft} {lines : List Text} {image : Image} :
    Reads (.sections draft) lines image ↔
      ∃ n, (∃ part sectionLines s rest, draft.get part = none ∧
          lines = List.replicate n [] ++ sectionLines ++ rest ∧
          IsSection wordOf? part sectionLines s ∧
          Reads (.sections (draft.set s part)) rest image) ∨
        ∃ rest, lines = List.replicate n [] ++ Marker.symbols :: rest ∧
          Reads (.symbols draft []) rest image := by
  constructor
  · intro h
    induction lines with
    | nil => exact absurd h not_reads_nil
    | cons line rest ih =>
      rcases reads_sections_cons.mp h with ⟨rfl, hrest⟩ | ⟨part, rfl, hget, hrest⟩ | ⟨rfl, hrest⟩
      · obtain ⟨n, ⟨part, sectionLines, s, rest, hget, rfl, hsection, hnext⟩ |
          ⟨rest, rfl, hnext⟩⟩ := ih hrest
        · exact ⟨n + 1, Or.inl ⟨part, sectionLines, s, rest, hget, rfl, hsection, hnext⟩⟩
        · exact ⟨n + 1, Or.inr ⟨rest, rfl, hnext⟩⟩
      · obtain ⟨sectionLines, s, rest, hlines, hsection, hnext⟩ := reads_bounds_iff.mp hrest
        exact ⟨0, Or.inl ⟨part, sectionLines, s, rest, hget, hlines, hsection, hnext⟩⟩
      · exact ⟨0, Or.inr ⟨rest, rfl, hrest⟩⟩
  · rintro ⟨n, ⟨part, sectionLines, s, rest, hget, rfl, hsection, h⟩ | ⟨rest, rfl, h⟩⟩
    · rw [List.append_assoc]
      apply reads_replicate_append
      obtain ⟨lines, hlines⟩ : ∃ lines, sectionLines = part.marker :: lines := by
        cases hsection
        exact ⟨_, rfl⟩
      have hbounds : Reads (.bounds draft part) (lines ++ rest) image :=
        reads_bounds_iff.mpr ⟨sectionLines, s, rest, by simp [hlines], hsection, h⟩
      rw [hlines, List.cons_append]
      exact reads_sections_cons.mpr (Or.inr (Or.inl ⟨part, rfl, hget, hbounds⟩))
    · exact reads_replicate_append (reads_sections_cons.mpr (Or.inr (Or.inr ⟨rfl, h⟩)))

/-! Tables. -/

/-- The loop over the lines of a table: entries are collected until a marker closes it. -/
theorem reads_table_iff {κ α : Type} {isEntry : Text → κ × α → Prop} {markers : List Text}
    {state : Table κ α → State} {closes : Table κ α → Text → List Text → Prop} {image : Image}
    (hline : ∀ table line rest, Reads (state table) (line :: rest) image ↔
      line ∈ markers ∧ closes table line rest ∨
      line ∉ markers ∧ ∃ entry, isEntry line entry ∧ entry.1 ∉ table.keys ∧
        Reads (state (table ++ [entry])) rest image)
    {table : Table κ α} (hn : table.keys.Nodup) {lines : List Text} :
    Reads (state table) lines image ↔
      ∃ tableLines entries marker rest, lines = tableLines ++ marker :: rest ∧
        List.Forall₂ isEntry tableLines entries ∧ (∀ line ∈ tableLines, line ∉ markers) ∧
        (Table.keys (table ++ entries)).Nodup ∧ marker ∈ markers ∧
        closes (table ++ entries) marker rest := by
  induction lines generalizing table with
  | nil => simp [not_reads_nil]
  | cons line rest ih =>
    rw [hline]
    constructor
    · rintro (⟨hmarker, hcloses⟩ | ⟨hmarker, entry, hentry, hfresh, hrest⟩)
      · exact ⟨[], [], line, rest, rfl, .nil, by simp, by simpa using hn, hmarker,
          by simpa using hcloses⟩
      · obtain ⟨tableLines, entries, marker, rest, rfl, hentries, hnot, hkeys, hmem, hcloses⟩ :=
          (ih (Table.nodup_keys_concat hn hfresh)).mp hrest
        exact ⟨line :: tableLines, entry :: entries, marker, rest, rfl, .cons hentry hentries,
          by simpa using ⟨hmarker, hnot⟩, by simpa using hkeys, hmem, by simpa using hcloses⟩
    · rintro ⟨tableLines, entries, marker, rest, hlines, hentries, hnot, hkeys, hmem, hcloses⟩
      cases hentries with
      | nil =>
        obtain ⟨rfl, rfl⟩ := List.cons.inj hlines
        exact Or.inl ⟨hmem, by simpa using hcloses⟩
      | @cons _ entry tableLines entries hentry hentries =>
        obtain ⟨rfl, rfl⟩ := List.cons.inj hlines
        rw [List.forall_mem_cons] at hnot
        have hfresh := Table.not_mem_keys_of_nodup hkeys
        refine Or.inr ⟨hnot.1, entry, hentry, hfresh, ?_⟩
        rw [ih (Table.nodup_keys_concat hn hfresh)]
        exact ⟨tableLines, entries, marker, rest, rfl, hentries, hnot.2, by simpa using hkeys, hmem,
          by simpa using hcloses⟩

theorem complete_eq_ok_iff {draft : Draft} {symbols : Table Text Int} {comments : Table Int Text}
    {image : Image} :
    draft.complete symbols comments = .ok image ↔
      draft = ⟨some image.code, some image.data⟩ ∧ symbols = image.symbols ∧
        comments = image.comments := by
  obtain ⟨code, data⟩ := draft
  obtain ⟨code', data', symbols', comments'⟩ := image
  cases code <;> cases data <;> simp [Draft.complete, and_assoc]

theorem reads_comments_iff {draft : Draft} {names : Table Text Int} {lines : List Text}
    {image : Image} :
    Reads (.comments draft names []) lines image ↔
      ∃ commentLines rest, lines = commentLines ++ Marker.finish :: rest ∧
        IsTable IsComment [Marker.finish] commentLines image.comments ∧
        draft = ⟨some image.code, some image.data⟩ ∧ names = image.symbols := by
  have hnil : (Table.keys ([] : Table Int Text)).Nodup := List.nodup_nil
  rw [reads_table_iff (fun _ _ _ => reads_comments_cons) hnil]
  constructor
  · rintro ⟨commentLines, entries, marker, rest, rfl, hentries, hnot, hkeys, hmem, hcomplete⟩
    obtain rfl := List.mem_singleton.mp hmem
    obtain ⟨hdraft, hnames, rfl⟩ := complete_eq_ok_iff.mp hcomplete
    exact ⟨commentLines, rest, rfl, ⟨hentries, hnot, hkeys⟩, hdraft, hnames⟩
  · rintro ⟨commentLines, rest, rfl, htable, hdraft, hnames⟩
    exact ⟨commentLines, image.comments, Marker.finish, rest, rfl, htable.entries,
      htable.not_marker, htable.keys_nodup, by simp,
      complete_eq_ok_iff.mpr ⟨hdraft, hnames, rfl⟩⟩

theorem reads_symbols_iff {draft : Draft} {lines : List Text} {image : Image} :
    Reads (.symbols draft []) lines image ↔
      ∃ symbolLines ending, lines = symbolLines ++ ending ∧
        IsTable IsSymbol [Marker.finish, Marker.comments] symbolLines image.symbols ∧
        IsEnding ending image.comments ∧ draft = ⟨some image.code, some image.data⟩ := by
  have hnil : (Table.keys ([] : Table Text Int)).Nodup := List.nodup_nil
  rw [reads_table_iff (fun _ _ _ => reads_symbols_cons) hnil]
  constructor
  · rintro ⟨symbolLines, entries, marker, rest, rfl, hentries, hnot, hkeys, -,
      ⟨rfl, hcomplete⟩ | ⟨rfl, hcomments⟩⟩
    · obtain ⟨hdraft, rfl, hcomments⟩ := complete_eq_ok_iff.mp hcomplete
      exact ⟨symbolLines, _, rfl, ⟨hentries, hnot, hkeys⟩, hcomments ▸ .plain rest, hdraft⟩
    · obtain ⟨commentLines, rest, rfl, htable, hdraft, rfl⟩ := reads_comments_iff.mp hcomments
      exact ⟨symbolLines, _, rfl, ⟨hentries, hnot, hkeys⟩, .commented htable rest, hdraft⟩
  · rintro ⟨symbolLines, ending, rfl, htable, hending, hdraft⟩
    generalize hcomments : image.comments = comments at hending
    refine ⟨symbolLines, image.symbols, ?_⟩
    cases hending with
    | plain rest =>
      exact ⟨Marker.finish, rest, rfl, htable.entries, htable.not_marker, htable.keys_nodup,
        by simp, Or.inl ⟨rfl, complete_eq_ok_iff.mpr ⟨hdraft, rfl, hcomments.symm⟩⟩⟩
    | @commented commentLines _ hlines rest =>
      have hreads : Reads (.comments draft image.symbols [])
          (commentLines ++ Marker.finish :: rest) image :=
        reads_comments_iff.mpr ⟨commentLines, rest, rfl, hcomments ▸ hlines, hdraft, rfl⟩
      exact ⟨Marker.comments, _, rfl, htable.entries, htable.not_marker, htable.keys_nodup,
        by simp, Or.inr ⟨rfl, hreads⟩⟩

/-! Whole documents. -/

theorem reads_missing_iff {draft : Draft} (hdraft : ∀ code data, draft ≠ ⟨some code, some data⟩)
    {lines : List Text} {image : Image} :
    Reads (.sections draft) lines image ↔
      ∃ n part sectionLines s rest, draft.get part = none ∧
        lines = List.replicate n [] ++ sectionLines ++ rest ∧
        IsSection wordOf? part sectionLines s ∧
        Reads (.sections (draft.set s part)) rest image := by
  rw [reads_sections_iff]
  constructor
  · rintro ⟨n, hsection | ⟨rest, rfl, h⟩⟩
    · exact ⟨n, hsection⟩
    · obtain ⟨_, _, -, -, -, hfull⟩ := reads_symbols_iff.mp h
      exact absurd hfull (hdraft _ _)
  · rintro ⟨n, hsection⟩
    exact ⟨n, Or.inl hsection⟩

theorem reads_full_iff {code data : Segment} {lines : List Text} {image : Image} :
    Reads (.sections ⟨some code, some data⟩) lines image ↔
      ∃ k symbolLines ending,
        lines = List.replicate k [] ++ Marker.symbols :: symbolLines ++ ending ∧
        IsTable IsSymbol [Marker.finish, Marker.comments] symbolLines image.symbols ∧
        IsEnding ending image.comments ∧ code = image.code ∧ data = image.data := by
  rw [reads_sections_iff]
  constructor
  · rintro ⟨k, ⟨part, _, _, _, hget, -⟩ | ⟨rest, rfl, h⟩⟩
    · cases part <;> cases hget
    · obtain ⟨symbolLines, ending, rfl, htable, hending, hdraft⟩ := reads_symbols_iff.mp h
      simp only [Draft.mk.injEq, Option.some.injEq] at hdraft
      exact ⟨k, symbolLines, ending, by simp, htable, hending, hdraft⟩
  · rintro ⟨k, symbolLines, ending, rfl, htable, hending, rfl, rfl⟩
    exact ⟨k, Or.inr ⟨_, by simp,
      reads_symbols_iff.mpr ⟨symbolLines, ending, rfl, htable, hending, rfl⟩⟩⟩

/-- The reader accepts the documents of the grammar, and nothing else. -/
theorem reads_header_iff {lines : List Text} {image : Image} :
    Reads .header lines image ↔ IsDocument wordOf? lines image := by
  constructor
  · intro h
    cases lines with
    | nil => exact absurd h not_reads_nil
    | cons line rest =>
      obtain ⟨rfl, hrest⟩ := reads_header_cons.mp h
      obtain ⟨m, part, first, s, rest, -, rfl, hfirst, hrest⟩ :=
        (reads_missing_iff (by simp)).mp hrest
      obtain ⟨n, part', second, s', rest, hget, rfl, hsecond, hrest⟩ :=
        (reads_missing_iff (by cases part <;> simp [Draft.set])).mp hrest
      cases part <;> cases part'
      · cases hget
      · obtain ⟨k, symbolLines, ending, rfl, htable, hending, rfl, rfl⟩ := reads_full_iff.mp hrest
        exact .mk m n k (Or.inl ⟨hfirst, hsecond⟩) htable hending
      · obtain ⟨k, symbolLines, ending, rfl, htable, hending, rfl, rfl⟩ := reads_full_iff.mp hrest
        exact .mk m n k (Or.inr ⟨hfirst, hsecond⟩) htable hending
      · cases hget
  · intro h
    cases h with
    | @mk first second symbolLines ending _ m n k hsections htable hending =>
      have hfull : Reads (.sections ⟨some image.code, some image.data⟩)
          (List.replicate k [] ++ Marker.symbols :: symbolLines ++ ending) image :=
        reads_full_iff.mpr ⟨k, symbolLines, ending, rfl, htable, hending, rfl, rfl⟩
      refine reads_header_cons.mpr ⟨rfl, (reads_missing_iff (by simp)).mpr ?_⟩
      rcases hsections with ⟨hcode, hdata⟩ | ⟨hdata, hcode⟩
      · have hopen (code data : Segment) :
            (⟨some image.code, none⟩ : Draft) ≠ ⟨some code, some data⟩ := by simp
        have hrest := (reads_missing_iff hopen).mpr
          ⟨n, .data, second, image.data, _, rfl, rfl, hdata, hfull⟩
        exact ⟨m, .code, first, image.code, _, rfl, rfl, hcode, hrest⟩
      · have hopen (code data : Segment) :
            (⟨none, some image.data⟩ : Draft) ≠ ⟨some code, some data⟩ := by simp
        have hrest := (reads_missing_iff hopen).mpr
          ⟨n, .code, second, image.code, _, rfl, rfl, hcode, hfull⟩
        exact ⟨m, .data, first, image.data, _, rfl, rfl, hdata, hrest⟩

/-- A text is read as an image exactly when its lines are a document for that image. The white space
around a word does not belong to it. -/
theorem parse_eq_ok_iff_isDocument (text : Text) (image : Image) :
    parse text = .ok image ↔ IsDocument wordOf? (Text.lines text) image :=
  readFrom_eq_ok_iff.trans reads_header_iff

/-! White space around words: more of it is removed from a line than a numeral may have. -/

variable {f g : Text → Option Int} {lines : List Text} {image : Image}

theorem IsSection.mono {part : Part} {s : Segment} (h : IsSection f part lines s)
    (hfg : ∀ line ∈ lines, ∀ word, f line = some word → g line = some word) :
    IsSection g part lines s := by
  cases h with
  | mk hbounds hle hcount hwords =>
    simp only [List.mem_cons, forall_eq_or_imp] at hfg
    refine .mk hbounds hle hcount ?_
    exact ((List.forall₂_and_left _ _).mpr ⟨hfg.2.2, hwords⟩).imp fun _ _ h => h.1 _ h.2

theorem IsDocument.mono (h : IsDocument f lines image)
    (hfg : ∀ line ∈ lines, ∀ word, f line = some word → g line = some word) :
    IsDocument g lines image := by
  cases h with
  | mk m n k hsections hsymbols hending =>
    refine .mk m n k ?_ hsymbols hending
    rcases hsections with ⟨hfirst, hsecond⟩ | ⟨hfirst, hsecond⟩
    · exact Or.inl ⟨hfirst.mono fun line hline => hfg line (by simp [hline]),
        hsecond.mono fun line hline => hfg line (by simp [hline])⟩
    · exact Or.inr ⟨hfirst.mono fun line hline => hfg line (by simp [hline]),
        hsecond.mono fun line hline => hfg line (by simp [hline])⟩

theorem exists_mem_of_forall₂ {α β : Type} {R : α → β → Prop} {as : List α} {bs : List β}
    (h : List.Forall₂ R as bs) {b : β} (hb : b ∈ bs) : ∃ a ∈ as, R a b := by
  obtain ⟨i, hi, rfl⟩ := List.getElem_of_mem hb
  have hi' : i < as.length := h.length_eq ▸ hi
  exact ⟨as.get ⟨i, hi'⟩, List.get_mem as ⟨i, hi'⟩, List.Forall₂.get h hi' hi⟩

theorem IsSection.exists_line {part : Part} {s : Segment} (h : IsSection f part lines s)
    {word : Int} (hword : word ∈ s.content) : ∃ line ∈ lines, f line = some word := by
  cases h with
  | mk hbounds hle hcount hwords =>
    obtain ⟨line, hline, heq⟩ := exists_mem_of_forall₂ hwords hword
    exact ⟨line, by simp [hline], heq⟩

theorem IsDocument.exists_line (h : IsDocument f lines image) {word : Int}
    (hword : word ∈ image.code.content) : ∃ line ∈ lines, f line = some word := by
  cases h with
  | mk m n k hsections hsymbols hending =>
    rcases hsections with ⟨hcode, -⟩ | ⟨-, hcode⟩
    · obtain ⟨line, hline, h⟩ := hcode.exists_line hword
      exact ⟨line, by simp [hline], h⟩
    · obtain ⟨line, hline, h⟩ := hcode.exists_line hword
      exact ⟨line, by simp [hline], h⟩

/-- The lines of an image whose only word stands behind a unit separator. -/
def separatedWord : List Text :=
  [Marker.header, Marker.code, "0 0".toList, "\x1f5".toList, Marker.data, "1 0".toList,
    Marker.symbols, Marker.finish]

/-- A unit separator is no white space around a numeral, but the reader removes it. -/
theorem parse_separatedWord :
    (∃ image, parse (Text.unlines separatedWord) = .ok image) ∧
      ¬ ∃ image, IsDocument Text.toInt? (Text.lines (Text.unlines separatedWord)) image := by
  have hlines : Text.lines (Text.unlines separatedWord) = separatedWord := by
    have hbreak : separatedWord.all (fun l => l.all fun c => !Text.isBreak c) = true := by decide
    apply Text.lines_unlines
    intro l hl
    exact Text.eq_false_of_all (List.all_eq_true.mp hbreak l hl)
  have hcode : IsSection wordOf? .code [Marker.code, "0 0".toList, "\x1f5".toList] ⟨0, 0, [5]⟩ :=
    .mk ⟨['0'], ['0'], by decide, by decide, by decide⟩ (by decide) (by decide)
      (.cons (by decide) .nil)
  have hdata : IsSection wordOf? .data [Marker.data, "1 0".toList] ⟨1, 0, []⟩ :=
    .mk ⟨['1'], ['0'], by decide, by decide, by decide⟩ (by decide) (by decide) .nil
  have hsymbols : IsTable IsSymbol [Marker.finish, Marker.comments] [] [] :=
    ⟨.nil, by simp, List.nodup_nil⟩
  have hdocument : IsDocument wordOf? separatedWord ⟨⟨0, 0, [5]⟩, ⟨1, 0, []⟩, [], []⟩ :=
    @IsDocument.mk wordOf? [Marker.code, "0 0".toList, "\x1f5".toList]
      [Marker.data, "1 0".toList] [] [Marker.finish] _ 0 0 0 (Or.inl ⟨hcode, hdata⟩) hsymbols
      (.plain [])
  have hread : readFrom .header 0 separatedWord = .ok ⟨⟨0, 0, [5]⟩, ⟨1, 0, []⟩, [], []⟩ :=
    readFrom_eq_ok_iff.mpr (reads_header_iff.mpr hdocument)
  have hnone : ∀ line ∈ separatedWord, Text.toInt? line = none := by decide
  rw [parse, hlines]
  refine ⟨⟨_, hread⟩, ?_⟩
  rintro ⟨image, h⟩
  have hagain : readFrom .header 0 separatedWord = .ok image := by
    apply readFrom_eq_ok_iff.mpr
    apply reads_header_iff.mpr
    apply h.mono
    intro line hline word hword
    rw [hnone line hline] at hword
    cases hword
  obtain rfl := Except.ok.inj (hread.symm.trans hagain)
  have hfive : (5 : Int) ∈ [5] := List.mem_cons_self
  obtain ⟨line, hline, hword⟩ := h.exists_line hfive
  rw [hnone line hline] at hword
  cases hword

end Ttk91.Image
