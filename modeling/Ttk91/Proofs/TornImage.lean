import Ttk91.Proofs.Container

/-! Texts of images that were cut off. Nothing is read without a line that is the end marker, and a
cut leaves such a line only at the very end of the text. -/

namespace Ttk91

namespace Text

/-- A prefix ends before a character in the middle, or it goes on behind it. -/
theorem prefix_append_cons {t a b : Text} {c : Char} (h : t <+: a ++ c :: b) :
    t <+: a ∨ ∃ u, t = a ++ c :: u ∧ u <+: b := by
  rcases List.prefix_or_prefix_of_prefix h (List.prefix_append a (c :: b)) with ht | ⟨v, rfl⟩
  · exact Or.inl ht
  · cases v with
    | nil => exact Or.inl (by simp)
    | cons d u =>
      obtain ⟨rfl, hu⟩ := List.cons_prefix_cons.mp ((List.prefix_append_right_inj a).mp h)
      exact Or.inr ⟨u, rfl, hu⟩

theorem prefix_of_not_mem {t a b : Text} {c : Char} (h : t <+: a ++ c :: b) (hc : c ∉ t) :
    t <+: a := by
  rcases prefix_append_cons h with ht | ⟨u, rfl, -⟩
  · exact ht
  · exact absurd (by simp) hc

theorem eq_of_mem_lines {t l : Text} (ht : ∀ c ∈ t, isBreak c = false) (hl : l ∈ lines t) :
    l = t := by
  cases t with
  | nil => simp [lines_nil] at hl
  | cons c t =>
    rw [lines_line (by simp) ht] at hl
    exact List.mem_singleton.mp hl

/-- A cut text has its last line only if no more than the line feed behind it is missing, provided
that no line before starts like it. -/
theorem length_unlines_le_of_mem_lines {ls : List Text} {last t : Text}
    (hbreak : ∀ l ∈ ls, ∀ c ∈ l, isBreak c = false) (hlast : ∀ c ∈ last, isBreak c = false)
    (hls : ∀ l ∈ ls, ¬ last <+: l) (ht : t <+: unlines (ls ++ [last])) (hmem : last ∈ lines t) :
    (unlines (ls ++ [last])).length ≤ t.length + 1 := by
  induction ls generalizing t with
  | nil =>
    rcases prefix_append_cons ht with ht | ⟨u, rfl, -⟩
    · obtain rfl := eq_of_mem_lines (fun c hc => hlast c (ht.subset hc)) hmem
      simp [unlines]
    · simp [unlines]
  | cons l ls ih =>
    rw [List.forall_mem_cons] at hbreak hls
    rcases prefix_append_cons ht with ht | ⟨u, rfl, hu⟩
    · obtain rfl := eq_of_mem_lines (fun c hc => hbreak.1 c (ht.subset hc)) hmem
      exact absurd ht hls.1
    · rw [lines_append_newline u hbreak.1] at hmem
      rcases List.mem_cons.mp hmem with rfl | hmem
      · exact absurd (List.prefix_refl _) hls.1
      · have hle := ih hbreak.2 hls.2 hu hmem
        simp only [List.cons_append, unlines, List.length_append, List.length_cons] at hle ⊢
        omega

theorem unlines_concat (ls : List Text) (last : Text) :
    unlines (ls ++ [last]) = (unlines ls ++ last) ++ ['\n'] := by
  induction ls with
  | nil => rfl
  | cons l ls ih => simp [unlines, ih]

theorem lines_unlines_append {ls : List Text} {last : Text} (hne : last ≠ [])
    (hbreak : ∀ l ∈ ls ++ [last], ∀ c ∈ l, isBreak c = false) :
    lines (unlines ls ++ last) = ls ++ [last] := by
  induction ls with
  | nil => exact lines_line hne (hbreak last (by simp))
  | cons l ls ih =>
    rw [List.cons_append, List.forall_mem_cons] at hbreak
    rw [unlines, List.append_assoc, List.cons_append, lines_append_newline _ hbreak.1,
      ih hbreak.2, List.cons_append]

end Text

namespace Image

theorem IsEnding.finish_mem {lines : List Text} {comments : Table Int Text}
    (h : IsEnding lines comments) : Marker.finish ∈ lines := by
  cases h <;> simp

theorem IsDocument.finish_mem {wordOf? : Text → Option Int} {lines : List Text} {image : Image}
    (h : IsDocument wordOf? lines image) : Marker.finish ∈ lines := by
  cases h with
  | mk m n k hsections hsymbols hending => simp [hending.finish_mem]

theorem exists_parse_eq_error {text : Text} (h : Marker.finish ∉ Text.lines text) :
    ∃ e, parse text = .error e := by
  cases hparse : parse text with
  | error e => exact ⟨e, rfl⟩
  | ok image =>
    have hdocument := reads_header_iff.mp (readFrom_eq_ok_iff.mp hparse)
    exact absurd hdocument.finish_mem h

def body (image : Image) : List Text :=
  Marker.header :: Marker.code :: image.code.lines ++ Marker.data :: image.data.lines ++
    Marker.symbols :: image.symbols.map symbolLine ++ image.commentLines

theorem lines_eq_body (image : Image) : image.lines = image.body ++ [Marker.finish] := rfl

theorem not_finish_prefix_ofInt (n : Int) (t : Text) : ¬ Marker.finish <+: Text.ofInt n ++ t := by
  intro h
  obtain ⟨c, u, hu⟩ := List.exists_cons_of_ne_nil (Text.ofInt_ne_nil n)
  have hc := Text.graphic_of_mem_ofInt (n := n) (c := c) (by simp [hu])
  rw [hu, List.cons_append] at h
  obtain ⟨rfl, -⟩ := List.cons_prefix_cons.mp h
  exact absurd hc (by decide)

theorem not_finish_prefix_segment_line (s : Segment) :
    ∀ line ∈ s.lines, ¬ Marker.finish <+: line := by
  intro line hline
  rcases List.mem_cons.mp hline with rfl | hline
  · exact not_finish_prefix_ofInt s.start _
  · obtain ⟨n, -, rfl⟩ := List.mem_map.mp hline
    simpa using not_finish_prefix_ofInt n []

theorem not_finish_prefix_commentLines (image : Image) :
    ∀ line ∈ image.commentLines, ¬ Marker.finish <+: line := by
  intro line hline
  unfold commentLines at hline
  split at hline
  · cases hline
  · rcases List.mem_cons.mp hline with rfl | hline
    · decide
    · obtain ⟨entry, -, rfl⟩ := List.mem_map.mp hline
      exact not_finish_prefix_ofInt entry.1 _

/-- No line before the end marker starts like it, unless a name does. -/
theorem not_finish_prefix_body {image : Image}
    (hnames : ∀ entry ∈ image.symbols, ¬ Marker.finish <+: entry.1) :
    ∀ line ∈ image.body, ¬ Marker.finish <+: line := by
  intro line hline
  simp only [body, List.cons_append, List.append_assoc, List.mem_cons, List.mem_append,
    List.mem_map] at hline
  rcases hline with rfl | rfl | hcode | rfl | hdata | rfl | ⟨entry, hentry, rfl⟩ | hcomment
  · decide
  · decide
  · exact not_finish_prefix_segment_line image.code line hcode
  · decide
  · exact not_finish_prefix_segment_line image.data line hdata
  · decide
  · exact fun h => hnames entry hentry (Text.prefix_of_not_mem h (by decide))
  · exact not_finish_prefix_commentLines image line hcomment

/-- The text of an image is still read when its last line feed is missing, and no shorter part of it
is. What is left of a number, of the bounds or of a comment may be one again, but then there is no
end marker. -/
theorem parse_prefix_render {image : Image} (hw : image.WellFormed) (hd : image.Distinct)
    (hshow : ∀ n ∈ image.numbers, Text.isShowable n = true)
    (hnames : ∀ entry ∈ image.symbols, ¬ Marker.finish <+: entry.1) {text : Text}
    (hcut : text <+: image.render) :
    (text.length + 1 < image.render.length → ∃ e, parse text = .error e) ∧
      (image.render.length ≤ text.length + 1 →
        parse text = .ok { image with comments := image.sortedComments }) := by
  have hbreak : ∀ line ∈ image.body ++ [Marker.finish], ∀ c ∈ line, Text.isBreak c = false :=
    isBreak_of_mem_line hw
  have hrender : image.render = (Text.unlines image.body ++ Marker.finish) ++ ['\n'] :=
    Text.unlines_concat image.body Marker.finish
  constructor
  · intro hshort
    apply exists_parse_eq_error
    intro hfinish
    have hle := Text.length_unlines_le_of_mem_lines
      (fun line hline => hbreak line (List.mem_append_left _ hline))
      (hbreak Marker.finish (by simp)) (not_finish_prefix_body hnames) hcut hfinish
    exact absurd hle (Nat.not_le.mpr hshort)
  · intro hlong
    have hlines : Text.lines text = image.lines := by
      rw [hrender] at hcut hlong
      rcases Text.prefix_append_cons hcut with ht | ⟨u, rfl, hu⟩
      · -- only the line feed is missing
        rw [List.length_append, List.length_singleton] at hlong
        have htext := ht.eq_of_length_le (Nat.le_of_succ_le_succ hlong)
        rw [htext, Text.lines_unlines_append (by decide) hbreak, lines_eq_body]
      · rw [List.prefix_nil.mp hu, ← hrender, lines_render hw]
    have hparse := parse_render hw hd hshow
    rw [parse, lines_render hw] at hparse
    rw [parse, hlines, hparse]

/-- A name that is the start of the end marker, and a comment that is the marker. -/
theorem parse_prefix_render_markers :
    let image : Image := ⟨⟨0, 1, [35651584, -12]⟩, ⟨2, 1, []⟩, [("___end".toList, 31)],
      [(1, "___end___".toList)]⟩
    ∀ n ≤ 118, (n + 1 < 118 → ∃ e, parse (image.render.take n) = .error e) ∧
      (118 ≤ n + 1 → parse (image.render.take n) = .ok image) := by
  intro image n hn
  have hrender : image.render.length = 118 := by decide +kernel
  have hlength : (image.render.take n).length = n := by
    rw [List.length_take, hrender, Nat.min_eq_left hn]
  have hsorted : { image with comments := image.sortedComments } = image := by decide +kernel
  have hw : image.WellFormed := by decide +kernel
  have hcut := List.take_prefix n image.render
  have h := parse_prefix_render hw ⟨by decide, by decide⟩ (by decide +kernel) (by decide +kernel)
    hcut
  rwa [hrender, hlength, hsorted] at h

end Image
end Ttk91
