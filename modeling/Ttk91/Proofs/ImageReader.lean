import Ttk91.Image.Reader
import Ttk91.Proofs.Splitting
import Ttk91.Proofs.Tables

/-! The reader of images as a machine: an invariant of its states, and what every image that it
completes is like. -/

namespace Ttk91

namespace Segment

def WellFormed (s : Segment) : Prop := s.last = s.start + s.content.length - 1

instance (s : Segment) : Decidable s.WellFormed :=
  inferInstanceAs (Decidable (s.last = s.start + s.content.length - 1))

theorem wellFormed_place (start : Int) (content : List Int) :
    (place start content).WellFormed := rfl

end Segment

namespace Image

/-- The bounds of the segments fit their contents, the names of the symbols are words, and the
comments stay on a line. -/
structure WellFormed (image : Image) : Prop where
  code : image.code.WellFormed
  data : image.data.WellFormed
  name_ne_nil : ∀ entry ∈ image.symbols, entry.1 ≠ []
  isBlank_name : ∀ entry ∈ image.symbols, ∀ c ∈ entry.1, Text.isBlank c = false
  isBreak_comment : ∀ entry ∈ image.comments, ∀ c ∈ entry.2, Text.isBreak c = false

instance (image : Image) : Decidable image.WellFormed :=
  decidable_of_iff (image.code.WellFormed ∧ image.data.WellFormed ∧
      (∀ entry ∈ image.symbols, entry.1 ≠ []) ∧
      (∀ entry ∈ image.symbols, entry.1.all (fun c => !Text.isBlank c) = true) ∧
      ∀ entry ∈ image.comments, entry.2.all (fun c => !Text.isBreak c) = true)
    ⟨fun ⟨hcode, hdata, hne, hname, hcomment⟩ => ⟨hcode, hdata, hne,
      fun entry hentry => Text.eq_false_of_all (hname entry hentry),
      fun entry hentry => Text.eq_false_of_all (hcomment entry hentry)⟩,
    fun h => ⟨h.code, h.data, h.name_ne_nil,
      fun entry hentry => by simpa using h.isBlank_name entry hentry,
      fun entry hentry => by simpa using h.isBreak_comment entry hentry⟩⟩

structure Distinct (image : Image) : Prop where
  symbols : image.symbols.keys.Nodup
  comments : image.comments.keys.Nodup

/-! The invariant of the reader. -/

def Draft.WellFormed (draft : Draft) : Prop := ∀ part s, draft.get part = some s → s.WellFormed

theorem Draft.WellFormed.set {draft : Draft} (h : draft.WellFormed) {s : Segment}
    (hs : s.WellFormed) (part : Part) : (draft.set s part).WellFormed := by
  intro part' s' hget
  cases part <;> cases part'
  · exact (Option.some.inj hget) ▸ hs
  · exact h .data s' hget
  · exact h .code s' hget
  · exact (Option.some.inj hget) ▸ hs

structure SoundSymbols (table : Table Text Int) : Prop where
  keys_nodup : table.keys.Nodup
  name_ne_nil : ∀ entry ∈ table, entry.1 ≠ []
  isBlank_name : ∀ entry ∈ table, ∀ c ∈ entry.1, Text.isBlank c = false

structure SoundComments (table : Table Int Text) : Prop where
  keys_nodup : table.keys.Nodup
  isBreak_comment : ∀ entry ∈ table, ∀ c ∈ entry.2, Text.isBreak c = false

theorem SoundSymbols.nil : SoundSymbols [] := ⟨List.nodup_nil, by simp, by simp⟩

theorem SoundComments.nil : SoundComments [] := ⟨List.nodup_nil, by simp⟩

/-- What holds whenever the reader waits for a line. The words that are read and those that are
missing make up the segment. -/
def State.Sound : State → Prop
  | .header => True
  | .sections draft => draft.WellFormed
  | .bounds draft _ => draft.WellFormed
  | .words draft _ start last missing read =>
    draft.WellFormed ∧ 0 < missing ∧ last = start + (read.length + missing) - 1
  | .symbols draft table => draft.WellFormed ∧ SoundSymbols table
  | .comments draft names table => draft.WellFormed ∧ SoundSymbols names ∧ SoundComments table

theorem sound_expectWords {draft : Draft} (hd : draft.WellFormed) (part : Part) {start last : Int}
    {missing : Nat} {read : List Int} (h : last = start + (read.length + missing) - 1) :
    (expectWords draft part start last missing read).Sound := by
  unfold expectWords
  split
  · rename_i hzero
    have hs : Segment.WellFormed ⟨start, last, read.reverse⟩ := by
      simp only [Segment.WellFormed, List.length_reverse]
      omega
    exact hd.set hs part
  · exact ⟨hd, by omega, h⟩

/-! The lines of an image, said without the reader. -/

def IsBounds (line : Text) (start last : Int) : Prop :=
  ∃ startText lastText, Text.words line = [startText, lastText] ∧
    Text.toInt? startText = some start ∧ Text.toInt? lastText = some last

def IsSymbol (line : Text) (entry : Text × Int) : Prop :=
  ∃ valueText, Text.words line = [entry.1, valueText] ∧ Text.toInt? valueText = some entry.2

def IsComment (line : Text) (entry : Int × Text) : Prop :=
  ∃ addressText, line = addressText ++ ' ' :: entry.2 ∧ ' ' ∉ addressText ∧
    Text.toInt? addressText = some entry.1

theorem readBounds_eq_ok_iff {line : Text} {start last : Int} :
    readBounds line = .ok (start, last) ↔ IsBounds line start last ∧ start ≤ last + 1 := by
  constructor
  · intro h
    unfold readBounds at h
    split at h
    · rename_i startText lastText hwords
      split at h
      · rename_i hstart hlast
        split at h
        · cases h
        · cases h
          exact ⟨⟨startText, lastText, hwords, hstart, hlast⟩, by omega⟩
      · cases h
    · cases h
  · rintro ⟨⟨startText, lastText, hwords, hstart, hlast⟩, hle⟩
    have hnot : ¬ last + 1 < start := by omega
    simp [readBounds, hwords, hstart, hlast, hnot]

theorem readSymbol_eq_ok_iff {table : Table Text Int} {line : Text} {entry : Text × Int} :
    readSymbol table line = .ok entry ↔ IsSymbol line entry ∧ entry.1 ∉ table.keys := by
  constructor
  · intro h
    unfold readSymbol at h
    split at h
    · rename_i name valueText hwords
      split at h
      · cases h
      · rename_i value hvalue
        split at h
        · cases h
        · rename_i hfresh
          cases h
          exact ⟨⟨valueText, hwords, hvalue⟩, hfresh⟩
    · cases h
  · rintro ⟨⟨valueText, hwords, hvalue⟩, hfresh⟩
    simp [readSymbol, hwords, hvalue, hfresh]

theorem readComment_eq_ok_iff {table : Table Int Text} {line : Text} {entry : Int × Text} :
    readComment table line = .ok entry ↔ IsComment line entry ∧ entry.1 ∉ table.keys := by
  constructor
  · intro h
    unfold readComment at h
    split at h
    · cases h
    · rename_i addressText text hcut
      split at h
      · cases h
      · rename_i address haddress
        split at h
        · cases h
        · rename_i hfresh
          cases h
          obtain ⟨hline, hspace⟩ := Text.cut_eq_some hcut
          exact ⟨⟨addressText, hline, hspace, haddress⟩, hfresh⟩
  · rintro ⟨⟨addressText, rfl, hspace, haddress⟩, hfresh⟩
    simp [readComment, Text.cut_append entry.2 hspace, haddress, hfresh]

theorem SoundSymbols.concat {table : Table Text Int} (h : SoundSymbols table) {line : Text}
    {entry : Text × Int} (hread : readSymbol table line = .ok entry) :
    SoundSymbols (table ++ [entry]) := by
  obtain ⟨⟨valueText, hwords, -⟩, hfresh⟩ := readSymbol_eq_ok_iff.mp hread
  have hword : entry.1 ∈ Text.words line := by simp [hwords]
  refine ⟨Table.nodup_keys_concat h.keys_nodup hfresh, fun e he => ?_, fun e he c hc => ?_⟩
  · rcases List.mem_append.mp he with he | he
    · exact h.name_ne_nil e he
    · obtain rfl := List.mem_singleton.mp he
      exact Text.ne_nil_of_mem_wordsBy hword
  · rcases List.mem_append.mp he with he | he
    · exact h.isBlank_name e he c hc
    · obtain rfl := List.mem_singleton.mp he
      exact (Text.mem_word hword hc).1

theorem SoundComments.concat {table : Table Int Text} (h : SoundComments table) {line : Text}
    (hline : ∀ c ∈ line, Text.isBreak c = false) {entry : Int × Text}
    (hread : readComment table line = .ok entry) : SoundComments (table ++ [entry]) := by
  obtain ⟨⟨addressText, hsplit, -, -⟩, hfresh⟩ := readComment_eq_ok_iff.mp hread
  refine ⟨Table.nodup_keys_concat h.keys_nodup hfresh, fun e he c hc => ?_⟩
  rcases List.mem_append.mp he with he | he
  · exact h.isBreak_comment e he c hc
  · obtain rfl := List.mem_singleton.mp he
    apply hline
    rw [hsplit]
    simp [hc]

def Progress.Sound : Progress → Prop
  | .more next => next.Sound
  | .done image => image.WellFormed ∧ image.Distinct

theorem sound_complete {draft : Draft} (hd : draft.WellFormed) {symbols : Table Text Int}
    (hs : SoundSymbols symbols) {comments : Table Int Text} (hc : SoundComments comments)
    {progress : Progress} (h : (draft.complete symbols comments).map .done = .ok progress) :
    progress.Sound := by
  unfold Draft.complete at h
  split at h
  · cases h
  · cases h
  · rename_i code data hcode hdata
    cases h
    exact ⟨⟨hd .code code hcode, hd .data data hdata, hs.name_ne_nil, hs.isBlank_name,
      hc.isBreak_comment⟩, ⟨hs.keys_nodup, hc.keys_nodup⟩⟩

theorem sound_openSection {draft : Draft} (hd : draft.WellFormed) {part : Part}
    {progress : Progress} (h : openSection draft part = .ok progress) : progress.Sound := by
  unfold openSection at h
  split at h
  · cases h
  · cases h
    exact hd

theorem sound_step {state : State} (hs : state.Sound) {line : Text}
    (hline : ∀ c ∈ line, Text.isBreak c = false) {progress : Progress}
    (h : step state line = .ok progress) : progress.Sound := by
  cases state with
  | header =>
    simp only [step] at h
    split at h
    · cases h
      intro part s hget
      cases part <;> cases hget
    · cases h
  | sections draft =>
    simp only [step] at h
    split at h
    · cases h
      exact hs
    · split at h
      · exact sound_openSection hs h
      · split at h
        · exact sound_openSection hs h
        · split at h
          · cases h
            exact ⟨hs, .nil⟩
          · cases h
  | bounds draft part =>
    simp only [step] at h
    split at h
    · cases h
    · rename_i start last hbounds
      cases h
      have hle := (readBounds_eq_ok_iff.mp hbounds).2
      apply sound_expectWords hs
      simp only [List.length_nil]
      omega
  | words draft part start last missing read =>
    obtain ⟨hd, hpos, hlast⟩ := hs
    simp only [step] at h
    split at h
    · cases h
    · cases h
      apply sound_expectWords hd
      simp only [List.length_cons]
      omega
  | symbols draft table =>
    obtain ⟨hd, ht⟩ := hs
    simp only [step] at h
    split at h
    · exact sound_complete hd ht .nil h
    · split at h
      · cases h
        exact ⟨hd, ht, .nil⟩
      · split at h
        · cases h
        · rename_i entry hread
          cases h
          exact ⟨hd, ht.concat hread⟩
  | comments draft names table =>
    obtain ⟨hd, hn, ht⟩ := hs
    simp only [step] at h
    split at h
    · exact sound_complete hd hn ht h
    · split at h
      · cases h
      · rename_i entry hread
        cases h
        exact ⟨hd, hn, ht.concat hline hread⟩

theorem sound_readFrom {state : State} (hs : state.Sound) {count : Nat} {lines : List Text}
    (hlines : ∀ line ∈ lines, ∀ c ∈ line, Text.isBreak c = false) {image : Image}
    (h : readFrom state count lines = .ok image) : image.WellFormed ∧ image.Distinct := by
  induction lines generalizing state count with
  | nil => cases h
  | cons line rest ih =>
    have hline := hlines line (by simp)
    rw [readFrom] at h
    split at h
    · cases h
    · rename_i done hstep
      cases h
      exact sound_step hs hline hstep
    · rename_i next hstep
      exact ih (sound_step hs hline hstep) (fun l hl => hlines l (by simp [hl])) h

/-- Every image that can be read is well formed and has one entry a key. -/
theorem wellFormed_of_parse {text : Text} {image : Image} (h : parse text = .ok image) :
    image.WellFormed ∧ image.Distinct :=
  have hstart : State.Sound .header := trivial
  sound_readFrom hstart (fun _ hl _ hc => Text.isBreak_of_mem_line hl hc) h

end Image
end Ttk91
