import Mathlib.Data.Nat.Digits.Defs
import Ttk91.Proofs.Container
import Ttk91.Proofs.SourceReader

/-! Reading an image and printing it brings its text into a normal form. Whatever the spelling of a
text, the image is kept, and printing it a second time changes nothing any more. -/

namespace Ttk91

namespace Text

/-! Numbers that were read can be shown: the limit on their digits is the same one. -/

theorem decimalValue?_lt {c : Char} {d : Nat} (h : decimalValue? c = some d) : d < 10 := by
  obtain ⟨first, hfirst, rfl⟩ := Option.map_eq_some_iff.mp h
  have hrange := List.find?_some hfirst
  simp only [Bool.and_eq_true, decide_eq_true_eq] at hrange
  omega

theorem mapM_eq_some_iff_forall₂ {α β : Type} {f : α → Option β} {as : List α} {bs : List β} :
    as.mapM f = some bs ↔ List.Forall₂ (fun a b => f a = some b) as bs := by
  constructor
  · intro h
    induction as generalizing bs with
    | nil =>
      obtain rfl : bs = [] := by simpa using h
      exact .nil
    | cons a as ih =>
      rw [List.mapM_cons] at h
      obtain ⟨b, hb, h⟩ := Option.bind_eq_some_iff.mp h
      obtain ⟨rest, hrest, h⟩ := Option.bind_eq_some_iff.mp h
      obtain rfl : b :: rest = bs := Option.some.inj h
      exact .cons hb (ih hrest)
  · intro h
    induction h with
    | nil => rfl
    | cons hb _ ih =>
      rw [List.mapM_cons, hb, ih]
      rfl

theorem foldl_eq_ofDigits (radix : Nat) (ds : List Nat) :
    ds.foldl (fun n d => radix * n + d) 0 = Nat.ofDigits radix ds.reverse := by
  rw [Nat.ofDigits_eq_foldr, List.foldr_reverse]
  simp only [Nat.add_comm, Nat.cast_id]

theorem ofDigits_eq (ds : List Nat) : ofDigits ds = Nat.ofDigits 10 ds.reverse :=
  foldl_eq_ofDigits 10 ds

theorem ofDigits_lt {ds : List Nat} (h : ∀ d ∈ ds, d < 10) : ofDigits ds < 10 ^ ds.length := by
  rw [ofDigits_eq, ← List.length_reverse]
  exact Nat.ofDigits_lt_base_pow_length (by decide) (by simpa using h)

theorem lt_numeralBound_of_toNat? {t : Text} {n : Nat} (h : toNat? t = some n) :
    n < numeralBound := by
  unfold toNat? at h
  simp only at h
  split at h
  · cases h
  · rename_i hlimit
    obtain ⟨values, hvalues, rfl⟩ := Option.map_eq_some_iff.mp h
    have hdigits := mapM_eq_some_iff_forall₂.mp hvalues
    have hlength : values.length ≤ maxDigits := by
      simp only [Bool.or_eq_true, decide_eq_true_eq, not_or] at hlimit
      rw [← hdigits.length_eq]
      exact Nat.le_of_not_lt hlimit.2
    have hlt : ∀ d ∈ values, d < 10 := by
      intro d hd
      obtain ⟨c, -, hc⟩ := Image.exists_mem_of_forall₂ hdigits hd
      exact decimalValue?_lt hc
    rw [numeralBound_eq]
    exact Nat.lt_of_lt_of_le (ofDigits_lt hlt) (Nat.pow_le_pow_right (by decide) hlength)

theorem exists_toNat?_of_toInt? {t : Text} {n : Int} (h : toInt? t = some n) :
    ∃ u, toNat? u = some n.natAbs := by
  unfold toInt? at h
  split at h <;> simp only [Option.map_eq_some_iff, Option.bind_eq_bind, Option.bind_eq_some_iff,
    Option.pure_def, Option.some.injEq] at h
  · obtain ⟨_, ⟨m, hm, rfl⟩, rfl⟩ := h
    exact ⟨_, by rw [Int.natAbs_neg, Int.natAbs_natCast, hm]⟩
  · obtain ⟨_, ⟨m, hm, rfl⟩, rfl⟩ := h
    exact ⟨_, by rw [Int.natAbs_natCast, hm]⟩
  · obtain ⟨_, ⟨m, hm, rfl⟩, rfl⟩ := h
    exact ⟨_, by rw [Int.natAbs_natCast, hm]⟩

theorem isShowable_of_toInt? {t : Text} {n : Int} (h : toInt? t = some n) :
    isShowable n = true := by
  obtain ⟨u, hu⟩ := exists_toNat?_of_toInt? h
  exact decide_eq_true (lt_numeralBound_of_toNat? hu)

end Text

namespace Image

variable {lines : List Text} {image : Image}

theorem IsSection.isShowable {part : Part} {s : Segment} (h : IsSection wordOf? part lines s) :
    ∀ n ∈ s.numbers, Text.isShowable n = true := by
  have hbounds : Text.isShowable s.start = true ∧ Text.isShowable s.last = true := by
    cases h with
    | mk hbounds =>
      obtain ⟨startText, lastText, -, hstart, hlast⟩ := hbounds
      exact ⟨Text.isShowable_of_toInt? hstart, Text.isShowable_of_toInt? hlast⟩
  intro n hn
  simp only [Segment.numbers, List.mem_cons] at hn
  rcases hn with rfl | rfl | hn
  · exact hbounds.1
  · exact hbounds.2
  · obtain ⟨line, -, hword⟩ := h.exists_line hn
    exact Text.isShowable_of_toInt? hword

theorem IsTable.isShowable_value {markers : List Text} {table : Table Text Int}
    (h : IsTable IsSymbol markers lines table) {entry : Text × Int} (hentry : entry ∈ table) :
    Text.isShowable entry.2 = true := by
  obtain ⟨line, -, valueText, -, hvalue⟩ := exists_mem_of_forall₂ h.entries hentry
  exact Text.isShowable_of_toInt? hvalue

theorem IsTable.isShowable_address {markers : List Text} {table : Table Int Text}
    (h : IsTable IsComment markers lines table) {entry : Int × Text} (hentry : entry ∈ table) :
    Text.isShowable entry.1 = true := by
  obtain ⟨line, -, addressText, -, -, haddress⟩ := exists_mem_of_forall₂ h.entries hentry
  exact Text.isShowable_of_toInt? haddress

theorem IsEnding.isShowable {comments : Table Int Text} (h : IsEnding lines comments) :
    ∀ address ∈ comments.keys, Text.isShowable address = true := by
  intro address haddress
  cases h with
  | plain => cases haddress
  | commented htable =>
    obtain ⟨entry, hentry, rfl⟩ := List.mem_map.mp haddress
    exact htable.isShowable_address hentry

theorem IsDocument.isShowable (h : IsDocument wordOf? lines image) :
    ∀ n ∈ image.numbers, Text.isShowable n = true := by
  cases h with
  | mk m k l hsections hsymbols hending =>
    have hcode : ∀ n ∈ image.code.numbers, Text.isShowable n = true :=
      hsections.elim (fun h => h.1.isShowable) fun h => h.2.isShowable
    have hdata : ∀ n ∈ image.data.numbers, Text.isShowable n = true :=
      hsections.elim (fun h => h.2.isShowable) fun h => h.1.isShowable
    intro n hn
    simp only [numbers, List.mem_append] at hn
    rcases hn with ((hn | hn) | hn) | hn
    · exact hcode n hn
    · exact hdata n hn
    · obtain ⟨entry, hentry, rfl⟩ := List.mem_map.mp hn
      exact hsymbols.isShowable_value hentry
    · exact hending.isShowable n hn

/-! The order of the comments is all that printing changes, and it does so only once. -/

theorem sortedComments_of_sorted (image : Image) :
    sortedComments { image with comments := image.sortedComments } = image.sortedComments :=
  List.mergeSort_of_pairwise image.sortedComments_pairwise

theorem render_of_sorted (image : Image) :
    render { image with comments := image.sortedComments } = image.render := by
  have hempty : image.sortedComments.isEmpty = image.comments.isEmpty :=
    image.sortedComments_perm.isEmpty_eq
  have hcomments : commentLines { image with comments := image.sortedComments } =
      image.commentLines := by
    simp only [commentLines, sortedComments_of_sorted, hempty]
  simp only [render, Image.lines, hcomments]

/-- An image that was read can be printed, its numbers being within the limit on digits. What is
printed is read as the same image, with the symbols in their order, and printing that one gives the
same text again. -/
theorem exists_parse_render_of_parse {text : Text} {image : Image} (h : parse text = .ok image) :
    (∀ n ∈ image.numbers, Text.isShowable n = true) ∧
      ∃ again, parse image.render = .ok again ∧ again.Same image ∧
        again.render = image.render := by
  obtain ⟨hwell, hdistinct⟩ := wellFormed_of_parse h
  have hdocument : IsDocument wordOf? (Text.lines text) image :=
    reads_header_iff.mp (readFrom_eq_ok_iff.mp h)
  have hshow := hdocument.isShowable
  exact ⟨hshow, _, parse_render hwell hdistinct hshow, same_sortedComments hdistinct.comments,
    render_of_sorted image⟩

/-- Data before code, digits of three scripts, signs, underscores and white space, a marker as a
name, comments out of order, and more behind the end. -/
theorem exists_parse_render_of_parse_loose :
    let text := ("___b91___\n\n___data___\n 5\t+0_4\n___code___\n-1 \u0660\n +1_0 \n\uFF13\n\n" ++
      "___symboltable___\n___code___  -\u0665\n___comments___\n9 b\n-2  a \n___end___\n" ++
      "___end___ 1").toList
    let image : Image := ⟨⟨-1, 0, [10, 3]⟩, ⟨5, 4, []⟩, [("___code___".toList, -5)],
      [(9, "b".toList), (-2, " a ".toList)]⟩
    parse text = .ok image ∧ (∀ n ∈ image.numbers, Text.isShowable n = true) ∧
      ∃ again, parse image.render = .ok again ∧ again.Same image ∧
        again.render = image.render := by
  intro text image
  have h : parse text = .ok image := eq_ok_of_toOption (by decide +kernel)
  exact ⟨h, exists_parse_render_of_parse h⟩

end Image
end Ttk91
