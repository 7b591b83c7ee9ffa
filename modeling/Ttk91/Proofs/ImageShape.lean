import Ttk91.Proofs.AssembledImage

/-! The shape of assembled images: code from the origin on, data right behind it, every label and
every comment in the segment of its statement, and all of it within the reach of an address field as
soon as there are data. -/

namespace Ttk91

namespace Segment

def Contains (s : Segment) (address : Int) : Prop := s.start ≤ address ∧ address ≤ s.last

theorem WellFormed.contains {s : Segment} (h : s.WellFormed) {i : Nat}
    (hi : i < s.content.length) : s.Contains (s.start + i) := by
  have hlast : s.last = s.start + s.content.length - 1 := h
  exact ⟨by omega, by omega⟩

end Segment

/-- The values that a label can have, by the kind of its statement: an address in the segment of the
statement, or a signed number of 16 bits. No other statement has a label. -/
def Image.Admits (image : Image) : WordKind → Int → Prop
  | .code, value => image.code.Contains value
  | .data, value => image.data.Contains value
  | .constant, value => -32768 ≤ value ∧ value ≤ 32767
  | _, _ => False

namespace Statement

theorem extent_pos_of_dataWords {st : Statement} {words : List Int}
    (h : st.dataWords = .ok words) : 0 < st.extent := by
  rw [← length_of_dataWords h]
  rcases dataWords_eq_ok h with ⟨-, n, -, rfl⟩ | ⟨-, n, -, hpos, rfl⟩
  · simp
  · rw [List.length_replicate]
    omega

end Statement

namespace Program

variable {before after : Program} {st : Statement}

theorem codeSize_lt_of_code (hk : st.kind = .code) :
    before.codeSize < codeSize (before ++ st :: after) := by
  rw [codeSize_append, codeSize_cons_of_code hk]
  omega

theorem dataSize_lt_of_data (hk : st.kind = .data) (hpos : 0 < st.extent) :
    before.dataSize < dataSize (before ++ st :: after) := by
  rw [dataSize_append, dataSize_cons_of_data hk]
  omega

variable {program : Program} {layout : Layout} {image : Image}

theorem extent_pos_of_dataSegment {words : List Int} (h : program.dataSegment = .ok words)
    (hmem : st ∈ program) (hk : st.kind = .data) : 0 < st.extent := by
  obtain ⟨before, after, rfl⟩ := List.append_of_mem hmem
  obtain ⟨-, back, -, hback, -⟩ := dataSegment_append h
  obtain ⟨front, -, hfront, -, -⟩ := dataSegment_cons_of_data hk hback
  exact Statement.extent_pos_of_dataWords hfront

theorem dataSize_pos_of_dataSegment {words : List Int} (h : program.dataSegment = .ok words)
    (hmem : st ∈ program) (hk : st.kind = .data) : 0 < program.dataSize := by
  have hpos := extent_pos_of_dataSegment h hmem hk
  obtain ⟨before, after, rfl⟩ := List.append_of_mem hmem
  exact Nat.zero_lt_of_lt (dataSize_lt_of_data hk hpos)

structure Shapes (program : Program) (image : Image) : Prop where
  code_start : 0 ≤ image.code.start
  code_last : image.code.last = image.code.start + image.code.content.length - 1
  data_start : image.data.start = image.code.last + 1
  data_last : image.data.last = image.data.start + image.data.content.length - 1
  word_bounds : ∀ word ∈ image.code.content ++ image.data.content,
    -2 ^ 31 ≤ word ∧ word ≤ 2 ^ 31 - 1
  keys_eq : image.symbols.keys = program.labels
  labels_nodup : program.labels.Nodup
  symbol : ∀ st ∈ program, ∀ name, st.label = some name →
    ∃ value, image.symbols.find? name = some value ∧ image.Admits st.kind value
  comment : ∀ address ∈ image.comments.keys,
    image.code.start ≤ address ∧ address ≤ image.data.last
  addressable : (∃ st ∈ program, st.kind = .data) →
    image.data.last ≤ 65535 ∧
      ∀ st ∈ program, st.kind = .code ∨ st.kind = .data → ∀ name, st.label = some name →
        ∃ value, image.symbols.find? name = some value ∧ 0 ≤ value ∧ value ≤ 65535 ∧
          Bits.fitsAddress value = true

theorem Assembled.admits (h : Assembled program layout image) {p : Symbol × Statement}
    (hp : p ∈ placements layout.origin layout.dataStart program) :
    image.Admits p.2.kind p.1.offset := by
  obtain ⟨before, st, after, hprogram, hst, hplace⟩ := mem_placements hp
  have hmem : st ∈ program := by simp [hprogram]
  rcases hplace with ⟨hk, hp⟩ | ⟨hk, hp⟩ | ⟨hk, hp⟩
  · obtain ⟨name, n, -, hvalue, hbounds⟩ := h.constant st hmem hk
    rw [hst, hk, hp, Statement.number_of_value hvalue]
    exact hbounds
  · obtain ⟨hwell, hstart, hlength⟩ := h.code_segment
    rw [hst, hk, hp, ← hstart]
    apply hwell.contains
    rw [hlength, hprogram]
    exact codeSize_lt_of_code hk
  · obtain ⟨hwell, hstart, hlength⟩ := h.data_segment
    obtain ⟨words, hsegment, -⟩ := h.data_eq
    rw [hst, hk, hp, ← hstart]
    apply hwell.contains
    rw [hlength, hprogram]
    exact dataSize_lt_of_data hk (extent_pos_of_dataSegment hsegment hmem hk)

theorem Assembled.exists_admits (h : Assembled program layout image)
    (hread : ∀ st ∈ program, st.IsRead) (hmem : st ∈ program) {name : Text}
    (hname : st.label = some name) :
    ∃ value, image.symbols.find? name = some value ∧ image.Admits st.kind value := by
  obtain ⟨s, -, hplaced, -, -⟩ :=
    exists_mem_placements layout.origin layout.dataStart 0 hread h.directive hmem hname
  exact ⟨s.offset, h.find?_label hplaced hname, h.admits hplaced⟩

theorem Assembled.data_start (h : Assembled program layout image) :
    image.data.start = image.code.last + 1 := by
  obtain ⟨hwell, hcode, hlength⟩ := h.code_segment
  have hlast : image.code.last = image.code.start + image.code.content.length - 1 := hwell
  have hdata := h.dataStart_eq
  rw [h.data_segment.2.1]
  omega

theorem Assembled.code_start_nonneg (h : Assembled program layout image) :
    0 ≤ image.code.start := by
  rw [h.code_segment.2.1]
  exact (origin_bounds h.layout_eq).1

theorem Assembled.bounds_of_admits (h : Assembled program layout image) {kind : WordKind}
    {value : Int} (hkind : kind = .code ∨ kind = .data) (hvalue : image.Admits kind value) :
    image.code.start ≤ value ∧ value ≤ image.data.last := by
  have hstart := h.data_start
  have hcode : image.code.last = image.code.start + image.code.content.length - 1 :=
    h.code_segment.1
  have hdata : image.data.last = image.data.start + image.data.content.length - 1 :=
    h.data_segment.1
  rcases hkind with rfl | rfl
  · obtain ⟨hlow, hhigh⟩ : image.code.Contains value := hvalue
    omega
  · obtain ⟨hlow, hhigh⟩ : image.data.Contains value := hvalue
    omega

theorem Assembled.comment_bounds (h : Assembled program layout image) :
    ∀ address ∈ image.comments.keys, image.code.start ≤ address ∧ address ≤ image.data.last := by
  intro address haddress
  obtain ⟨entry, hentry, rfl⟩ := List.mem_map.mp haddress
  obtain ⟨p, hp, hconstant, hoffset, -⟩ := h.mem_comments hentry
  have hkind : p.2.kind = .code ∨ p.2.kind = .data := by
    obtain ⟨before, st, after, -, rfl, ⟨-, hp⟩ | ⟨hk, -⟩ | ⟨hk, -⟩⟩ := mem_placements hp
    · rw [hp] at hconstant
      exact absurd rfl hconstant
    · exact Or.inl hk
    · exact Or.inr hk
  rw [← hoffset]
  exact h.bounds_of_admits hkind (h.admits hp)

theorem Assembled.data_last_le (h : Assembled program layout image) (hmem : st ∈ program)
    (hk : st.kind = .data) : image.data.last ≤ 65535 := by
  obtain ⟨hwell, hstart, hlength⟩ := h.data_segment
  obtain ⟨words, hsegment, -⟩ := h.data_eq
  have hlast : image.data.last = image.data.start + image.data.content.length - 1 := hwell
  have hpos := dataSize_pos_of_dataSegment hsegment hmem hk
  have hfits := h.fits
  simp only [lastAddress] at hfits
  omega

theorem Assembled.word_bounds (h : Assembled program layout image) :
    ∀ word ∈ image.code.content ++ image.data.content, -2 ^ 31 ≤ word ∧ word ≤ 2 ^ 31 - 1 := by
  intro word hword
  have hbounds : -2 ^ 31 ≤ word ∧ word < 2 ^ 31 := by
    rcases List.mem_append.mp hword with hword | hword
    · exact h.code_word_bounds word hword
    · exact h.data_word_bounds word hword
  omega

theorem Assembled.shapes (h : Assembled program layout image)
    (hread : ∀ st ∈ program, st.IsRead) : Shapes program image where
  code_start := h.code_start_nonneg
  code_last := h.code_segment.1
  data_start := h.data_start
  data_last := h.data_segment.1
  word_bounds := h.word_bounds
  keys_eq := (h.agrees hread).keys_eq
  labels_nodup := h.labels_nodup
  symbol st hmem name hname := h.exists_admits hread hmem hname
  comment := h.comment_bounds
  addressable := by
    rintro ⟨dataStatement, hdata, hkind⟩
    have hlast := h.data_last_le hdata hkind
    refine ⟨hlast, fun st hmem hk name hname => ?_⟩
    obtain ⟨value, hvalue, hadmits⟩ := h.exists_admits hread hmem hname
    have hbounds := h.bounds_of_admits hk hadmits
    have hstart := h.code_start_nonneg
    have hrange : 0 ≤ value ∧ value ≤ 65535 := by omega
    exact ⟨value, hvalue, hrange.1, hrange.2, decide_eq_true (by omega)⟩

end Program

/-- Every assembled image has this shape: the code starts at an address that is not negative and the
data follow it without a gap; all words have 32 bits; labels and comments stay in their segments,
and constants in 16 bits; with at least one data statement nothing lies beyond the last address. -/
theorem assemble_shapes {source : Text} {image : Image} (h : assemble source = .ok image) :
    ∃ program, Program.parse source = .ok program ∧ program.Shapes image := by
  obtain ⟨program, hparse, hassemble⟩ := bind_eq_ok.mp h
  obtain ⟨layout, hassembled⟩ := Program.assembled_of_assemble hassemble
  exact ⟨program, hparse, hassembled.shapes (Program.isRead_of_parse hparse)⟩

/-- The data end at the last address, a label names their last word, and a constant is negative. -/
theorem assemble_shapes_full :
    let source := "org 65531\nlow equ -32768\nx dc -1;d\n nop\nend load r1, =low ;c\ny ds 2".toList
    let image : Image := ⟨⟨65531, 65532, [524288, 35684352]⟩, ⟨65533, 65535, [-1, 0, 0]⟩,
      [("low".toList, -32768), ("x".toList, 65533), ("end".toList, 65532), ("y".toList, 65534)],
      [(65533, "d".toList), (65532, "c".toList)]⟩
    assemble source = .ok image ∧
      ∃ program, Program.parse source = .ok program ∧ program.Shapes image := by
  intro source image
  have h : assemble source = .ok image := eq_ok_of_toOption (by decide +kernel)
  exact ⟨h, assemble_shapes h⟩

end Ttk91
