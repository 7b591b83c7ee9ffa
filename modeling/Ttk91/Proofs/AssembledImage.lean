import Ttk91.Proofs.Agreement
import Ttk91.Proofs.Container
import Ttk91.Proofs.Encoder

/-! Assembled images survive their text form: they are well formed, have one entry a key, and hold
no number far beyond the length of the source. -/

namespace Ttk91

theorem Segment.WellFormed.mem_numbers {s : Segment} (h : s.WellFormed) {n : Int}
    (hn : n ∈ s.numbers) :
    n = s.start ∨ n = s.start + s.content.length - 1 ∨ n ∈ s.content := by
  rw [← h]
  simpa [Segment.numbers] using hn

namespace Literal

theorem constant?_bounds {name : Text} {n : Int} (h : constant? name = some n) :
    -2 ^ 31 ≤ n ∧ n < 2 ^ 31 := by
  have hall : ∀ entry ∈ constants, -2 ^ 31 ≤ entry.2 ∧ entry.2 < 2 ^ 31 := by decide
  exact hall (name, n) (mem_constants_of_constant? h)

theorem integer_bounds {token : Text} {n : Int} (h : integer token = .ok n) :
    -2 ^ 31 ≤ n ∧ n < 2 ^ 31 := by
  unfold integer at h
  split at h
  · obtain ⟨m, -, rfl⟩ := map_eq_ok.mp h
    exact Bits.signed_bounds 31 _
  · obtain ⟨m, -, rfl⟩ := map_eq_ok.mp h
    exact Bits.signed_bounds 31 _

theorem value_bounds {token : Text} {n : Int} (h : value token = .ok n) :
    -2 ^ 31 ≤ n ∧ n < 2 ^ 31 := by
  unfold value at h
  split at h
  · rename_i m hm
    cases h
    exact constant?_bounds hm
  · exact integer_bounds h

end Literal

namespace Statement

theorem value_bounds {st : Statement} {n : Int} (h : st.value = .ok n) :
    -2 ^ 31 ≤ n ∧ n < 2 ^ 31 := by
  unfold value at h
  split at h
  · cases h
  · split at h
    · rename_i m hm
      cases h
      exact Literal.value_bounds hm
    · cases h
  · cases h

theorem dataWords_bounds {st : Statement} {words : List Int} (h : st.dataWords = .ok words) :
    ∀ word ∈ words, -2 ^ 31 ≤ word ∧ word < 2 ^ 31 := by
  intro word hword
  rcases dataWords_eq_ok h with ⟨-, n, hn, rfl⟩ | ⟨-, n, -, -, rfl⟩
  · obtain rfl := List.mem_singleton.mp hword
    exact value_bounds hn
  · obtain rfl := (List.mem_replicate.mp hword).2
    decide

end Statement

namespace Program

variable {program : Program} {layout : Layout} {image : Image}

theorem bounds_of_origin {n : Int} (h : program.origin = .ok n) : 0 ≤ n ∧ n < 2 ^ 31 := by
  rcases (originAfter_eq_ok h).1 with rfl | ⟨hpos, st, -, hvalue⟩
  · decide
  · exact ⟨hpos, (Statement.value_bounds hvalue).2⟩

theorem origin_bounds (h : program.layout = .ok layout) :
    0 ≤ layout.origin ∧ layout.origin < 2 ^ 31 := by
  obtain ⟨origin, symbols, -, horigin, -, -, rfl⟩ := layout_eq_ok h
  exact bounds_of_origin horigin

theorem dataStart_bounds (h : program.layout = .ok layout) :
    0 ≤ layout.dataStart ∧ layout.dataStart + program.dataSize < 2 ^ 31 + program.length := by
  have horigin := origin_bounds h
  obtain ⟨origin, symbols, -, -, -, hfits, rfl⟩ := layout_eq_ok h
  have hsize : program.codeSize ≤ program.length := List.countP_le_length
  have hend := checkDataAfter_eq_ok hfits
  simp only [lastAddress, Layout.dataStart] at hend horigin ⊢
  omega

theorem offset_bounds (h : program.layout = .ok layout) {p : Symbol × Statement}
    (hp : p ∈ placements layout.origin layout.dataStart program) :
    -2 ^ 31 ≤ p.1.offset ∧ p.1.offset < 2 ^ 31 + program.length := by
  have horigin := origin_bounds h
  have hdata := dataStart_bounds h
  obtain ⟨origin, symbols, -, -, hsymbols, -, rfl⟩ := layout_eq_ok h
  obtain ⟨before, st, after, rfl, -, hplace⟩ := mem_placements hp
  simp only [Layout.dataStart] at horigin hdata hplace
  rcases hplace with ⟨hk, hp⟩ | ⟨hk, hp⟩ | ⟨hk, hp⟩
  · obtain ⟨name, n, -, hn, hbounds⟩ := constant_of_symbolsFrom hsymbols st (by simp) hk
    have hoffset : p.1.offset = n := by rw [hp, Statement.number_of_value hn]
    omega
  · have hsize : codeSize (before ++ st :: after) = codeSize before + (codeSize after + 1) := by
      rw [codeSize_append, codeSize_cons_of_code hk]
    have hoffset : p.1.offset = origin + codeSize before := by rw [hp]
    omega
  · have hsize : dataSize (before ++ st :: after) = dataSize before + dataSize (st :: after) :=
      dataSize_append before (st :: after)
    have hoffset : p.1.offset = origin + codeSize (before ++ st :: after) + dataSize before := by
      rw [hp]
    omega

theorem Assembled.code_segment (h : Assembled program layout image) :
    image.code.WellFormed ∧ image.code.start = layout.origin ∧
      image.code.content.length = program.codeSize := by
  obtain ⟨words, hencode, hcode⟩ := h.code_eq
  rw [hcode]
  exact ⟨Segment.wellFormed_place _ _, rfl, by simp [Segment.place, length_encode hencode]⟩

theorem Assembled.data_segment (h : Assembled program layout image) :
    image.data.WellFormed ∧ image.data.start = layout.dataStart ∧
      image.data.content.length = program.dataSize := by
  obtain ⟨words, hsegment, hdata⟩ := h.data_eq
  rw [hdata]
  exact ⟨Segment.wellFormed_place _ _, rfl, length_dataSegment hsegment⟩

theorem Assembled.code_word_bounds (h : Assembled program layout image) :
    ∀ word ∈ image.code.content, -2 ^ 31 ≤ word ∧ word < 2 ^ 31 := by
  intro word hword
  obtain ⟨words, hencode, hcode⟩ := h.code_eq
  rw [hcode] at hword
  obtain ⟨st, -, hencoded⟩ := mem_encode hencode hword
  exact Statement.encode_bounds hencoded

theorem Assembled.data_word_bounds (h : Assembled program layout image) :
    ∀ word ∈ image.data.content, -2 ^ 31 ≤ word ∧ word < 2 ^ 31 := by
  intro word hword
  obtain ⟨words, hsegment, hdata⟩ := h.data_eq
  rw [hdata] at hword
  obtain ⟨st, -, front, hfront, hmem⟩ := mem_dataSegment hsegment hword
  exact Statement.dataWords_bounds hfront word hmem

theorem Assembled.code_bounds (h : Assembled program layout image) :
    ∀ n ∈ image.code.numbers, -2 ^ 31 ≤ n ∧ n < 2 ^ 31 + program.length := by
  intro n hn
  have horigin := origin_bounds h.layout_eq
  have hsize : program.codeSize ≤ program.length := List.countP_le_length
  obtain ⟨hwell, hstart, hlength⟩ := h.code_segment
  rcases hwell.mem_numbers hn with hn | hn | hn
  · omega
  · omega
  · have hbounds := h.code_word_bounds n hn
    omega

theorem Assembled.data_bounds (h : Assembled program layout image) :
    ∀ n ∈ image.data.numbers, -2 ^ 31 ≤ n ∧ n < 2 ^ 31 + program.length := by
  intro n hn
  have hdata := dataStart_bounds h.layout_eq
  obtain ⟨hwell, hstart, hlength⟩ := h.data_segment
  rcases hwell.mem_numbers hn with hn | hn | hn
  · omega
  · omega
  · have hbounds := h.data_word_bounds n hn
    omega

theorem Assembled.mem_symbols (h : Assembled program layout image) {entry : Text × Int}
    (hentry : entry ∈ image.symbols) :
    ∃ p ∈ placements layout.origin layout.dataStart program,
      p.2.label = some entry.1 ∧ p.1.offset = entry.2 := by
  rw [h.addresses_eq, SymbolTable.addresses, h.symbols_eq] at hentry
  obtain ⟨⟨name, s⟩, hsymbol, rfl⟩ := List.mem_map.mp hentry
  obtain ⟨p, hp, heq⟩ := List.mem_filterMap.mp hsymbol
  obtain ⟨label, hlabel, hpair⟩ := Option.map_eq_some_iff.mp heq
  obtain ⟨rfl, rfl⟩ := Prod.mk.inj hpair
  exact ⟨p, hp, hlabel, rfl⟩

theorem Assembled.mem_comments (h : Assembled program layout image) {entry : Int × Text}
    (hentry : entry ∈ image.comments) :
    ∃ p ∈ placements layout.origin layout.dataStart program,
      p.1.kind ≠ .constant ∧ p.1.offset = entry.1 ∧ p.2.comment = some entry.2 := by
  rw [h.comments_eq] at hentry
  obtain ⟨p, hp, heq⟩ := List.mem_filterMap.mp hentry
  unfold commentEntry at heq
  split at heq
  · cases heq
  · rename_i hkind
    obtain ⟨text, htext, rfl⟩ := Option.map_eq_some_iff.mp heq
    exact ⟨p, hp, hkind, rfl, htext⟩

theorem Assembled.numbers_bounds (h : Assembled program layout image) :
    ∀ n ∈ image.numbers, -2 ^ 31 ≤ n ∧ n < 2 ^ 31 + program.length := by
  intro n hn
  simp only [Image.numbers, List.mem_append] at hn
  rcases hn with ((hn | hn) | hn) | hn
  · exact h.code_bounds n hn
  · exact h.data_bounds n hn
  · obtain ⟨entry, hentry, rfl⟩ := List.mem_map.mp hn
    obtain ⟨p, hp, -, hoffset⟩ := h.mem_symbols hentry
    exact hoffset ▸ offset_bounds h.layout_eq hp
  · obtain ⟨entry, hentry, rfl⟩ := List.mem_map.mp hn
    obtain ⟨p, hp, -, hoffset, -⟩ := h.mem_comments hentry
    exact hoffset ▸ offset_bounds h.layout_eq hp

theorem mem_of_mem_placements {code data : Int} {p : Symbol × Statement}
    (h : p ∈ placements code data program) : p.2 ∈ program := by
  obtain ⟨before, st, after, rfl, rfl, -⟩ := mem_placements h
  simp

/-- Labels are words and comments are parts of lines, whatever their characters. -/
theorem Assembled.wellFormed (h : Assembled program layout image)
    (hread : ∀ st ∈ program, st.IsRead) : image.WellFormed := by
  constructor
  case code => exact h.code_segment.1
  case data => exact h.data_segment.1
  case name_ne_nil =>
    intro entry hentry
    obtain ⟨p, hp, hlabel, -⟩ := h.mem_symbols hentry
    exact (hread p.2 (mem_of_mem_placements hp)).label_ne_nil entry.1 hlabel
  case isBlank_name =>
    intro entry hentry
    obtain ⟨p, hp, hlabel, -⟩ := h.mem_symbols hentry
    exact (hread p.2 (mem_of_mem_placements hp)).isBlank_of_mem_label entry.1 hlabel
  case isBreak_comment =>
    intro entry hentry
    obtain ⟨p, hp, -, -, hcomment⟩ := h.mem_comments hentry
    exact (hread p.2 (mem_of_mem_placements hp)).isBreak_of_mem_comment entry.2 hcomment

theorem Assembled.distinct (h : Assembled program layout image)
    (hread : ∀ st ∈ program, st.IsRead) : image.Distinct where
  symbols := by
    rw [h.addresses_eq, SymbolTable.addresses, Table.keys_map_value, h.keys_symbols hread]
    exact h.labels_nodup
  comments := h.comments_nodup

end Program

theorem Text.isShowable_of_bounds {n : Int} {size : Nat} (h : -2 ^ 31 ≤ n ∧ n < 2 ^ 31 + size)
    (hsize : size + 2 ^ 31 ≤ Text.numeralBound) : Text.isShowable n = true := by
  by_cases hneg : n < 0
  · apply Text.isShowable_of_natAbs_lt
    omega
  · have hlt : n.natAbs < Text.numeralBound := by omega
    simp [Text.isShowable, hlt]

/-- An assembled image is read back from its text form with the same segments, the same symbols in
the same order and the same comments, now by increasing address. The bound is about `10 ^ 4300`:
addresses grow with the source, and no numeral of more digits is read. -/
theorem exists_parse_render_of_assemble {source : Text} {image : Image}
    (h : assemble source = .ok image) (hsize : source.length + 2 ^ 31 ≤ Text.numeralBound) :
    ∃ back, Image.parse image.render = .ok back ∧ back.Same image ∧
      back.comments.keys.Pairwise (· < ·) := by
  obtain ⟨program, hparse, hassemble⟩ := bind_eq_ok.mp h
  obtain ⟨layout, hlayout⟩ := Program.assembled_of_assemble hassemble
  have hread := Program.isRead_of_parse hparse
  have hlength := Program.length_le_of_parse hparse
  have hdistinct := hlayout.distinct hread
  have hshow : ∀ n ∈ image.numbers, Text.isShowable n = true := fun n hn =>
    Text.isShowable_of_bounds (hlayout.numbers_bounds n hn) (by omega)
  exact ⟨_, Image.parse_render (hlayout.wellFormed hread) hdistinct hshow,
    Image.same_sortedComments hdistinct.comments,
    Image.keys_sortedComments_pairwise hdistinct.comments⟩

/-- A marker as a label, an entry of another section as a comment, and an empty comment. -/
theorem exists_parse_render_of_assemble_markers :
    let source := "x DC -1;___comments___ 5\n___end___ LOAD R1, x;\nNOP; 3 ___end___".toList
    let image : Image := ⟨⟨0, 1, [36175874, 524288]⟩, ⟨2, 2, [-1]⟩,
      [("x".toList, 2), ("___end___".toList, 0)],
      [(2, "___comments___ 5".toList), (0, []), (1, " 3 ___end___".toList)]⟩
    assemble source = .ok image ∧ source.length + 2 ^ 31 ≤ Text.numeralBound ∧
      ∃ back, Image.parse image.render = .ok back ∧ back.Same image ∧
        back.comments.keys.Pairwise (· < ·) := by
  intro source image
  have h : assemble source = .ok image := eq_ok_of_toOption (by decide +kernel)
  have hsize : source.length + 2 ^ 31 ≤ Text.numeralBound := by decide +kernel
  exact ⟨h, hsize, exists_parse_render_of_assemble h hsize⟩

end Ttk91
