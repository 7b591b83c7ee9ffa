import Ttk91.Proofs.ImageGrammar
import Ttk91.Proofs.Numeral

/-! The text form of images holds them: what is printed is a document of the grammar, and which
images are read back as themselves. -/

namespace Ttk91

def Segment.numbers (s : Segment) : List Int := s.start :: s.last :: s.content

namespace Image

def numbers (image : Image) : List Int :=
  image.code.numbers ++ image.data.numbers ++ image.symbols.map Prod.snd ++ image.comments.keys

structure Same (a b : Image) : Prop where
  code : a.code = b.code
  data : a.data = b.data
  symbols : a.symbols = b.symbols
  comments : ∀ address, a.comments.find? address = b.comments.find? address

theorem words_pair {a b : Text} (ha : a ≠ []) (hb : b ≠ [])
    (hab : ∀ c ∈ a, Text.isBlank c = false) (hbb : ∀ c ∈ b, Text.isBlank c = false) :
    Text.words (a ++ ' ' :: b) = [a, b] := by
  have hblank : Text.isBlank ' ' = true := by decide
  rw [Text.words, Text.wordsBy_word_append b ha hab hblank, Text.wordsBy_word hb hbb]

theorem isBounds_pair {start last : Int} (hs : Text.isShowable start = true)
    (hl : Text.isShowable last = true) :
    IsBounds (Text.ofInt start ++ ' ' :: Text.ofInt last) start last :=
  ⟨_, _, words_pair (Text.ofInt_ne_nil start) (Text.ofInt_ne_nil last)
    (fun _ => Text.isBlank_of_mem_ofInt) (fun _ => Text.isBlank_of_mem_ofInt),
    Text.toInt?_ofInt hs, Text.toInt?_ofInt hl⟩

theorem wordOf?_ofInt {n : Int} (h : Text.isShowable n = true) :
    wordOf? (Text.ofInt n) = some n := by
  rw [wordOf?, Text.trim, Text.trimBy_of_all_not fun _ => Text.isBlank_of_mem_ofInt,
    Text.toInt?_ofInt h]

theorem isSection_lines (part : Part) {s : Segment} (hs : s.WellFormed)
    (hshow : ∀ n ∈ s.numbers, Text.isShowable n = true) :
    IsSection wordOf? part (part.marker :: s.lines) s := by
  have hlast : s.last = s.start + s.content.length - 1 := hs
  refine .mk (isBounds_pair (hshow s.start (by simp [Segment.numbers]))
    (hshow s.last (by simp [Segment.numbers]))) (by omega) ?_ ?_
  · rw [List.length_map]
    omega
  · rw [List.forall₂_map_left_iff, List.forall₂_same]
    exact fun w hw => wordOf?_ofInt (hshow w (by simp [Segment.numbers, hw]))

theorem append_space_ne {marker : Text} (h : ' ' ∉ marker) (a b : Text) :
    a ++ ' ' :: b ≠ marker := by
  rintro rfl
  exact h (by simp)

theorem isTable_map {κ α : Type} {isEntry : Text → κ × α → Prop} {markers : List Text}
    {table : Table κ α} {line : κ × α → Text} (hentry : ∀ entry ∈ table, isEntry (line entry) entry)
    (hmarker : ∀ entry, line entry ∉ markers) (hn : table.keys.Nodup) :
    IsTable isEntry markers (table.map line) table where
  entries := by
    rw [List.forall₂_map_left_iff, List.forall₂_same]
    exact hentry
  not_marker := by
    rw [List.forall_mem_map]
    exact fun entry _ => hmarker entry
  keys_nodup := hn

theorem isSymbol_symbolLine {entry : Text × Int} (hne : entry.1 ≠ [])
    (hblank : ∀ c ∈ entry.1, Text.isBlank c = false) (hshow : Text.isShowable entry.2 = true) :
    IsSymbol (symbolLine entry) entry :=
  ⟨_, words_pair hne (Text.ofInt_ne_nil entry.2) hblank fun _ => Text.isBlank_of_mem_ofInt,
    Text.toInt?_ofInt hshow⟩

theorem isComment_commentLine {entry : Int × Text} (hshow : Text.isShowable entry.1 = true) :
    IsComment (commentLine entry) entry :=
  ⟨_, rfl, fun h => absurd (Text.isBlank_of_mem_ofInt h) (by decide), Text.toInt?_ofInt hshow⟩

/-! The comments in the order of their addresses. -/

theorem sortedComments_perm (image : Image) : image.sortedComments.Perm image.comments :=
  List.mergeSort_perm image.comments _

theorem keys_sortedComments_perm (image : Image) :
    image.sortedComments.keys.Perm image.comments.keys :=
  image.sortedComments_perm.map Prod.fst

theorem find?_sortedComments {image : Image} (hn : image.comments.keys.Nodup) (address : Int) :
    image.sortedComments.find? address = image.comments.find? address :=
  Table.find?_perm hn image.sortedComments_perm.symm address

theorem sortedComments_pairwise (image : Image) :
    image.sortedComments.Pairwise fun a b => decide (a.1 ≤ b.1) = true := by
  apply List.pairwise_mergeSort
  · intro a b c hab hbc
    simp only [decide_eq_true_eq] at hab hbc ⊢
    omega
  · intro a b
    simp only [Bool.or_eq_true, decide_eq_true_eq]
    omega

theorem keys_sortedComments_pairwise {image : Image} (hn : image.comments.keys.Nodup) :
    image.sortedComments.keys.Pairwise (· < ·) := by
  have hle : image.sortedComments.keys.Pairwise (· ≤ ·) := by
    rw [Table.keys, List.pairwise_map]
    exact image.sortedComments_pairwise.imp of_decide_eq_true
  have hne : image.sortedComments.keys.Nodup := image.keys_sortedComments_perm.nodup_iff.mpr hn
  exact (hle.and hne).imp fun h => by omega

/-! Whole images. -/

theorem isBreak_of_mem_ofInt {n : Int} {c : Char} (h : c ∈ Text.ofInt n) :
    Text.isBreak c = false :=
  Text.isBreak_of_not_isBlank (Text.isBlank_of_mem_ofInt h)

theorem isBreak_of_mem_append_space {a b : Text} (ha : ∀ c ∈ a, Text.isBreak c = false)
    (hb : ∀ c ∈ b, Text.isBreak c = false) : ∀ c ∈ a ++ ' ' :: b, Text.isBreak c = false := by
  intro c hc
  rcases List.mem_append.mp hc with hc | hc
  · exact ha c hc
  · rcases List.mem_cons.mp hc with rfl | hc
    · decide
    · exact hb c hc

theorem isBreak_of_mem_segment_line (s : Segment) :
    ∀ line ∈ s.lines, ∀ c ∈ line, Text.isBreak c = false := by
  intro line hline
  rcases List.mem_cons.mp hline with rfl | hline
  · exact isBreak_of_mem_append_space (fun _ => isBreak_of_mem_ofInt) fun _ => isBreak_of_mem_ofInt
  · obtain ⟨n, -, rfl⟩ := List.mem_map.mp hline
    exact fun _ => isBreak_of_mem_ofInt

theorem isBreak_of_mem_commentLines {image : Image} (h : image.WellFormed) :
    ∀ line ∈ image.commentLines, ∀ c ∈ line, Text.isBreak c = false := by
  intro line hline
  unfold commentLines at hline
  split at hline
  · cases hline
  · rcases List.mem_cons.mp hline with rfl | hline
    · exact Text.eq_false_of_all (by decide)
    · obtain ⟨entry, hentry, rfl⟩ := List.mem_map.mp hline
      have hmem := image.sortedComments_perm.mem_iff.mp hentry
      exact isBreak_of_mem_append_space (fun _ => isBreak_of_mem_ofInt)
        (h.isBreak_comment entry hmem)

theorem isBreak_of_mem_line {image : Image} (h : image.WellFormed) :
    ∀ line ∈ image.lines, ∀ c ∈ line, Text.isBreak c = false := by
  intro line hline
  simp only [lines, List.cons_append, List.append_assoc, List.mem_cons, List.mem_append,
    List.mem_map, List.not_mem_nil, or_false] at hline
  rcases hline with rfl | rfl | hcode | rfl | hdata | rfl | ⟨entry, hentry, rfl⟩ | hcomment | rfl
  · exact Text.eq_false_of_all (by decide)
  · exact Text.eq_false_of_all (by decide)
  · exact isBreak_of_mem_segment_line image.code line hcode
  · exact Text.eq_false_of_all (by decide)
  · exact isBreak_of_mem_segment_line image.data line hdata
  · exact Text.eq_false_of_all (by decide)
  · exact isBreak_of_mem_append_space
      (fun c hc => Text.isBreak_of_not_isBlank (h.isBlank_name entry hentry c hc))
      fun _ => isBreak_of_mem_ofInt
  · exact isBreak_of_mem_commentLines h line hcomment
  · exact Text.eq_false_of_all (by decide)

theorem lines_render {image : Image} (h : image.WellFormed) :
    Text.lines image.render = image.lines :=
  Text.lines_unlines (isBreak_of_mem_line h)

theorem isEnding_commentLines {image : Image} (hn : image.comments.keys.Nodup)
    (hshow : ∀ address ∈ image.comments.keys, Text.isShowable address = true) :
    IsEnding (image.commentLines ++ [Marker.finish]) image.sortedComments := by
  by_cases hempty : image.comments = []
  · have hsorted : image.sortedComments = [] := by simp [sortedComments, hempty]
    rw [commentLines, if_pos (by simp [hempty]), hsorted]
    exact .plain []
  · rw [commentLines, if_neg (by simpa using hempty)]
    refine .commented (isTable_map (fun entry hentry => isComment_commentLine (hshow entry.1 ?_))
      (fun entry => ?_) (image.keys_sortedComments_perm.nodup_iff.mpr hn)) []
    · exact Table.mem_keys_of_mem (image.sortedComments_perm.mem_iff.mp hentry)
    · have hfinish : commentLine entry ≠ Marker.finish := append_space_ne (by decide) _ _
      simp [hfinish]

/-- What is printed for an image is a document, with the comments by increasing address. -/
theorem isDocument_lines {image : Image} (hw : image.WellFormed) (hd : image.Distinct)
    (hshow : ∀ n ∈ image.numbers, Text.isShowable n = true) :
    IsDocument wordOf? image.lines { image with comments := image.sortedComments } := by
  have hcode := isSection_lines .code hw.code fun n hn => hshow n (by simp [numbers, hn])
  have hdata := isSection_lines .data hw.data fun n hn => hshow n (by simp [numbers, hn])
  have hsymbols : IsTable IsSymbol [Marker.finish, Marker.comments]
      (image.symbols.map symbolLine) image.symbols := by
    refine isTable_map (fun entry hentry => ?_) (fun entry => ?_) hd.symbols
    · have hvalue : entry.2 ∈ image.symbols.map Prod.snd := List.mem_map_of_mem hentry
      exact isSymbol_symbolLine (hw.name_ne_nil entry hentry) (hw.isBlank_name entry hentry)
        (hshow entry.2 (List.mem_append_left _ (List.mem_append_right _ hvalue)))
    · have hfinish : symbolLine entry ≠ Marker.finish := append_space_ne (by decide) _ _
      have hcomments : symbolLine entry ≠ Marker.comments := append_space_ne (by decide) _ _
      simp [hfinish, hcomments]
  have hending := isEnding_commentLines hd.comments fun n hn => hshow n (by simp [numbers, hn])
  have hdocument : IsDocument wordOf? _ { image with comments := image.sortedComments } :=
    .mk 0 0 0 (Or.inl ⟨hcode, hdata⟩) hsymbols hending
  simpa [lines, Part.marker] using hdocument

theorem parse_render {image : Image} (hw : image.WellFormed) (hd : image.Distinct)
    (hshow : ∀ n ∈ image.numbers, Text.isShowable n = true) :
    parse image.render = .ok { image with comments := image.sortedComments } := by
  rw [parse, lines_render hw]
  exact readFrom_eq_ok_iff.mpr (reads_header_iff.mpr (isDocument_lines hw hd hshow))

theorem same_sortedComments {image : Image} (hn : image.comments.keys.Nodup) :
    Same { image with comments := image.sortedComments } image :=
  ⟨rfl, rfl, rfl, find?_sortedComments hn⟩

theorem WellFormed.of_same {image back : Image} (hb : back.WellFormed) (hd : back.Distinct)
    (hn : image.comments.keys.Nodup) (h : back.Same image) : image.WellFormed where
  code := h.code ▸ hb.code
  data := h.data ▸ hb.data
  name_ne_nil := h.symbols ▸ hb.name_ne_nil
  isBlank_name := h.symbols ▸ hb.isBlank_name
  isBreak_comment entry hentry := hb.isBreak_comment entry
    ((Table.mem_iff_of_find?_eq hd.comments hn h.comments entry).mpr hentry)

/-- Exactly the well formed images are read back as themselves, among those that have one entry a
key and no number that is too long to be shown. -/
theorem exists_parse_render_same_iff {image : Image} (hd : image.Distinct)
    (hshow : ∀ n ∈ image.numbers, Text.isShowable n = true) :
    (∃ back, parse image.render = .ok back ∧ back.Same image) ↔ image.WellFormed := by
  constructor
  · rintro ⟨back, hback, hsame⟩
    have hread := wellFormed_of_parse hback
    exact WellFormed.of_same hread.1 hread.2 hd.comments hsame
  · intro hw
    exact ⟨_, parse_render hw hd hshow, same_sortedComments hd.comments⟩

/-- Markers as a name and as a comment do no harm; a line feed in a comment does. -/
theorem exists_parse_render_same_iff_markers :
    let kept : Image := ⟨⟨-3, -2, [7, -7]⟩, ⟨5, 4, []⟩, [("___end___".toList, -1)],
      [(9, []), (-2, "___comments___ 1".toList)]⟩
    let forged : Image := ⟨⟨0, -1, []⟩, ⟨0, -1, []⟩, [], [(0, "a\n1 b".toList)]⟩
    (∃ back, parse kept.render = .ok back ∧ back.Same kept) ∧
      ¬ ∃ back, parse forged.render = .ok back ∧ back.Same forged := by
  intro kept forged
  have hkept : kept.WellFormed := by decide +kernel
  have hforged : ¬ forged.WellFormed := by decide +kernel
  exact ⟨(exists_parse_render_same_iff ⟨by decide, by decide⟩ (by decide +kernel)).mpr hkept,
    fun h => hforged
      ((exists_parse_render_same_iff ⟨by decide, by decide⟩ (by decide +kernel)).mp h)⟩

end Image
end Ttk91
