import Mathlib.Data.List.Induction
import Ttk91.Proofs.ImageShape
import Ttk91.Proofs.SourceGrammar

/-! Where the comments of a source text go. A comment belongs to the first word of its statement, no
two statements share an address, and so an image has every comment of an instruction or a data
statement once, in source order, and no others. -/

namespace Ttk91

/-- The text behind the first semicolon of a line, where lines are numbered from 1. -/
def IsRemark (texts : List Text) (line : Int) (remark : Text) : Prop :=
  ∃ (index : Nat) (front : Text), line = index + 1 ∧
    texts[index]? = some (front ++ ';' :: remark) ∧ ';' ∉ front

theorem Statement.IsAt.comment_eq {line : Nat} {text : Text} {st : Statement}
    (h : IsAt line text st) : st.comment = (Text.cut ';' text).2 := by
  cases h <;> rfl

namespace Program

open Statement (IsAt IsLine lineWords)

variable {texts : List Text} {program before after : Program} {st : Statement}

/-! Comments in the source. -/

theorem getElem?_of_mem_wordedLines {entry : Text × Nat} (h : entry ∈ wordedLines 1 texts) :
    ∃ index, entry.2 = index + 1 ∧ texts[index]? = some entry.1 := by
  have hmem : entry ∈ texts.zipIdx 1 := List.mem_of_mem_filter h
  obtain ⟨hle, hget⟩ := List.mk_mem_zipIdx_iff_le_and_getElem?_sub.mp hmem
  exact ⟨entry.2 - 1, by omega, hget⟩

theorem comment_eq_some_iff {remark : Text}
    (h : List.Forall₂ (fun entry st => IsAt entry.2 entry.1 st) (wordedLines 1 texts) program)
    (hmem : st ∈ program) : st.comment = some remark ↔ IsRemark texts st.line remark := by
  obtain ⟨⟨text, number⟩, hworded, hat⟩ := Image.exists_mem_of_forall₂ h hmem
  obtain ⟨index, hnumber, hget⟩ := getElem?_of_mem_wordedLines hworded
  simp only at hat hnumber hget
  have hline : st.line = index + 1 := by
    rw [hat.line_eq, hnumber]
    rfl
  rw [hat.comment_eq, hline]
  constructor
  · intro hcut
    have hpair : Text.cut ';' text = ((Text.cut ';' text).1, some remark) := Prod.ext rfl hcut
    obtain ⟨htext, hfront⟩ := Text.cut_eq_some hpair
    exact ⟨index, _, rfl, hget.trans (congrArg some htext), hfront⟩
  · rintro ⟨other, front, hother, hremark, hfront⟩
    obtain rfl : index = other := by omega
    obtain rfl := Option.some.inj (hget.symm.trans hremark)
    rw [Text.cut_append remark hfront]

theorem statements_of_parse {source : Text} (h : parse source = .ok program) :
    List.Forall₂ (fun entry st => IsAt entry.2 entry.1 st) (wordedLines 1 (Text.lines source))
      program := by
  by_cases hlines : ∀ text ∈ Text.lines source, IsLine (lineWords text)
  · obtain ⟨other, hother, hstatements⟩ := ofLines_of_isLine hlines 1
    obtain rfl : other = program := Except.ok.inj (hother.symm.trans h)
    exact hstatements
  · have hbad : ∃ text ∈ Text.lines source, ¬ IsLine (lineWords text) := by simpa using hlines
    obtain ⟨failure, hfailure, -⟩ := ofLines_of_not_isLine hbad 1
    cases hfailure.symm.trans h

/-! Addresses of statements. -/

/-- The address of the first word of a statement, with the instructions from `code` on and the data
from `data` on. Other statements have no words. -/
inductive StandsAt (code data : Int) (program : Program) (st : Statement) : Int → Prop
  | code {before after : Program} (h : program = before ++ st :: after) (hk : st.kind = .code) :
    StandsAt code data program st (code + before.codeSize)
  | data {before after : Program} (h : program = before ++ st :: after) (hk : st.kind = .data) :
    StandsAt code data program st (data + before.dataSize)

def remarked (program : Program) : Program :=
  program.filter fun st => (st.kind = .code ∨ st.kind = .data) ∧ st.comment.isSome

def Annotated (code data : Int) (program : Program) (entry : Int × Text) (st : Statement) : Prop :=
  StandsAt code data program st entry.1 ∧ st.comment = some entry.2

variable {code data address : Int} {entry : Int × Text}

theorem StandsAt.mem (h : StandsAt code data program st address) : st ∈ program := by
  cases h with
  | code h _ | data h _ => simp [h]

theorem StandsAt.append (h : StandsAt code data program st address) (more : Program) :
    StandsAt code data (program ++ more) st address := by
  cases h with
  | code h hk => exact .code (by rw [h, List.append_assoc, List.cons_append]) hk
  | data h hk => exact .data (by rw [h, List.append_assoc, List.cons_append]) hk

theorem forall₂_annotated_last (before : Program) (st : Statement) :
    List.Forall₂ (Annotated code data (before ++ [st]))
      ((placements (code + before.codeSize) (data + before.dataSize) [st]).filterMap commentEntry)
      (remarked [st]) := by
  cases hcomment : st.comment with
  | none => cases hk : st.kind <;> simp [placements, commentEntry, remarked, hk, hcomment]
  | some text =>
    cases hk : st.kind with
    | code =>
      have hlast : remarked [st] = [st] := by simp [remarked, hk, hcomment]
      have hentries : (placements (code + before.codeSize) (data + before.dataSize) [st]).filterMap
          commentEntry = [(code + before.codeSize, text)] := by
        simp [placements, commentEntry, hk, hcomment]
      rw [hlast, hentries]
      exact .cons ⟨.code rfl hk, hcomment⟩ .nil
    | data =>
      have hlast : remarked [st] = [st] := by simp [remarked, hk, hcomment]
      have hentries : (placements (code + before.codeSize) (data + before.dataSize) [st]).filterMap
          commentEntry = [(data + before.dataSize, text)] := by
        simp [placements, commentEntry, hk, hcomment]
      rw [hlast, hentries]
      exact .cons ⟨.data rfl hk, hcomment⟩ .nil
    | _ => simp [placements, commentEntry, remarked, hk]

theorem forall₂_annotated (code data : Int) (program : Program) :
    List.Forall₂ (Annotated code data program)
      ((placements code data program).filterMap commentEntry) program.remarked := by
  induction program using List.reverseRecOn with
  | nil => exact .nil
  | append_singleton before st ih =>
    have hremarked : remarked (before ++ [st]) = remarked before ++ remarked [st] :=
      List.filter_append ..
    rw [placements_append, List.filterMap_append, hremarked]
    exact List.rel_append (ih.imp fun _ _ h => ⟨h.1.append [st], h.2⟩)
      (forall₂_annotated_last before st)

theorem Annotated.mem (h : Annotated code data program entry st) :
    entry ∈ (placements code data program).filterMap commentEntry := by
  obtain ⟨address, text⟩ := entry
  obtain ⟨hstands, hcomment⟩ := h
  simp only at hstands hcomment
  rw [List.mem_filterMap]
  cases hstands with
  | code h hk =>
    rw [h]
    exact ⟨_, mem_placements_of_code hk, by simp [commentEntry, hcomment]⟩
  | data h hk =>
    rw [h]
    exact ⟨_, mem_placements_of_data hk, by simp [commentEntry, hcomment]⟩

/-! Statements with one address. -/

/-- Two places in a program are the same place, or one comes first. -/
theorem split_cases {before' after' : Program} {st' : Statement}
    (h : before ++ st :: after = before' ++ st' :: after') :
    before = before' ∧ st = st' ∨ (∃ middle, before' = before ++ st :: middle) ∨
      ∃ middle, before = before' ++ st' :: middle := by
  rcases List.append_eq_append_iff.mp h with ⟨rest, rfl, hrest⟩ | ⟨rest, rfl, hrest⟩
  · cases rest with
    | nil => exact Or.inl ⟨by simp, (List.cons.inj hrest).1⟩
    | cons first rest =>
      obtain ⟨rfl, -⟩ := List.cons.inj hrest
      exact Or.inr (Or.inl ⟨rest, rfl⟩)
  · cases rest with
    | nil => exact Or.inl ⟨by simp, (List.cons.inj hrest).1.symm⟩
    | cons first rest =>
      obtain ⟨rfl, -⟩ := List.cons.inj hrest
      exact Or.inr (Or.inr ⟨rest, rfl⟩)

/-- A size that grows with both statements tells their places apart. -/
theorem eq_of_size {size : Program → Nat} {before' after' : Program} {st' : Statement}
    (h : before ++ st :: after = before' ++ st' :: after')
    (hgrows : ∀ middle, size before < size (before ++ st :: middle))
    (hgrows' : ∀ middle, size before' < size (before' ++ st' :: middle))
    (hsize : size before = size before') : st = st' := by
  rcases split_cases h with ⟨-, hst⟩ | ⟨middle, rfl⟩ | ⟨middle, rfl⟩
  · exact hst
  · exact absurd hsize (Nat.ne_of_lt (hgrows middle))
  · exact absurd hsize.symm (Nat.ne_of_lt (hgrows' middle))

variable {layout : Layout} {image : Image}

theorem Assembled.admits_of_standsAt (h : Assembled program layout image)
    (hstands : StandsAt image.code.start image.data.start program st address) :
    image.Admits st.kind address := by
  have hadmits := fun p => h.admits (p := p)
  rw [← h.code_segment.2.1, ← h.data_segment.2.1] at hadmits
  cases hstands with
  | code hprogram hk => exact hadmits _ (hprogram ▸ mem_placements_of_code hk)
  | data hprogram hk => exact hadmits _ (hprogram ▸ mem_placements_of_data hk)

theorem Assembled.not_contains_data (h : Assembled program layout image)
    (hcode : image.code.Contains address) : ¬ image.data.Contains address := by
  rintro ⟨hdata, -⟩
  have hstart := h.data_start
  have hlast := hcode.2
  omega

theorem Assembled.eq_of_standsAt (h : Assembled program layout image) {other : Statement}
    (hst : StandsAt image.code.start image.data.start program st address)
    (hother : StandsAt image.code.start image.data.start program other address) : st = other := by
  obtain ⟨words, hsegment, -⟩ := h.data_eq
  have hadmits := h.admits_of_standsAt hst
  have hadmits' := h.admits_of_standsAt hother
  have hpos := extent_pos_of_dataSegment hsegment hst.mem
  have hpos' := extent_pos_of_dataSegment hsegment hother.mem
  generalize haddress : address = address' at hother
  cases hst with
  | code hprogram hk =>
    rw [hk] at hadmits
    cases hother with
    | code hprogram' hk' =>
      exact eq_of_size (hprogram.symm.trans hprogram') (fun _ => codeSize_lt_of_code hk)
        (fun _ => codeSize_lt_of_code hk') (by omega)
    | data hprogram' hk' =>
      rw [hk'] at hadmits'
      exact absurd hadmits' (h.not_contains_data hadmits)
  | data hprogram hk =>
    rw [hk] at hadmits
    cases hother with
    | code hprogram' hk' =>
      rw [hk'] at hadmits'
      exact absurd hadmits (h.not_contains_data hadmits')
    | data hprogram' hk' =>
      exact eq_of_size (hprogram.symm.trans hprogram')
        (fun _ => dataSize_lt_of_data hk (hpos hk)) (fun _ => dataSize_lt_of_data hk' (hpos' hk'))
        (by omega)

/-! Comments in the image. -/

/-- The comments of an image are those of the instructions and data statements of a text. -/
structure Annotates (texts : List Text) (program : Program) (image : Image) : Prop where
  statements : List.Forall₂ (fun entry st => IsAt entry.2 entry.1 st) (wordedLines 1 texts) program
  increasing : program.Pairwise fun st later => st.line < later.line
  find?_iff : ∀ address remark, image.comments.find? address = some remark ↔
    ∃ st, StandsAt image.code.start image.data.start program st address ∧
      IsRemark texts st.line remark
  apart : ∀ st other address, StandsAt image.code.start image.data.start program st address →
    StandsAt image.code.start image.data.start program other address → st = other
  keys_nodup : image.comments.keys.Nodup
  comment_iff : ∀ st ∈ program, ∀ remark,
    st.comment = some remark ↔ IsRemark texts st.line remark
  entries : List.Forall₂ (fun entry st =>
    StandsAt image.code.start image.data.start program st entry.1 ∧
      IsRemark texts st.line entry.2) image.comments program.remarked
  length_eq : image.comments.length = program.remarked.length

theorem Assembled.annotates (h : Assembled program layout image)
    (hstatements : List.Forall₂ (fun entry st => IsAt entry.2 entry.1 st) (wordedLines 1 texts)
      program) : Annotates texts program image := by
  have hcomment {st : Statement} (hmem : st ∈ program) (remark : Text) :
      st.comment = some remark ↔ IsRemark texts st.line remark :=
    comment_eq_some_iff hstatements hmem
  have hcomments := h.comments_eq
  rw [← h.code_segment.2.1, ← h.data_segment.2.1] at hcomments
  have hannotated := forall₂_annotated image.code.start image.data.start program
  rw [← hcomments] at hannotated
  refine ⟨hstatements, increasing_of_forall₂ hstatements (wordedLines_increasing 1 texts),
    fun address remark => ?_, fun _ _ _ => h.eq_of_standsAt, h.comments_nodup,
    fun _ => hcomment, ?_, hannotated.length_eq⟩
  · rw [Table.find?_eq_some_iff h.comments_nodup]
    constructor
    · intro hentry
      obtain ⟨st, -, hstands, htext⟩ := Image.exists_mem_of_forall₂ hannotated.flip hentry
      exact ⟨st, hstands, (hcomment hstands.mem remark).mp htext⟩
    · rintro ⟨st, hstands, hremark⟩
      rw [hcomments]
      exact Annotated.mem ⟨hstands, (hcomment hstands.mem remark).mpr hremark⟩
  · exact hannotated.imp fun entry st hentry =>
      ⟨hentry.1, (hcomment hentry.1.mem entry.2).mp hentry.2⟩

end Program

/-- Comments land on their own statements. The image of a source text has a comment at an address
exactly if an instruction or the first word of a data statement is there and its line has a
semicolon; the comment is all that follows the first one. Every such line has its own entry, and the
entries are in source order. -/
theorem assemble_annotates {source : Text} {image : Image} (h : assemble source = .ok image) :
    ∃ program, Program.parse source = .ok program ∧
      program.Annotates (Text.lines source) image := by
  obtain ⟨program, hparse, hassemble⟩ := bind_eq_ok.mp h
  obtain ⟨layout, hassembled⟩ := Program.assembled_of_assemble hassemble
  exact ⟨program, hparse, hassembled.annotates (Program.statements_of_parse hparse)⟩

/-- Seven lines with six comments, one of them empty and one with a semicolon of its own. Three are
not in the image: those of the origin, of the line without words and of the constant. -/
theorem assemble_annotates_mixed :
    let source :=
      "org 10;o\n; alone\nk equ 3;k\nx ds 2;a;b\n load r1, x ;c\ny dc 1\n nop;".toList
    let image : Image := ⟨⟨10, 11, [36175884, 524288]⟩, ⟨12, 14, [0, 0, 1]⟩,
      [("k".toList, 3), ("x".toList, 12), ("y".toList, 14)],
      [(12, "a;b".toList), (10, "c".toList), (11, [])]⟩
    assemble source = .ok image ∧
      ∃ program, Program.parse source = .ok program ∧
        program.Annotates (Text.lines source) image := by
  intro source image
  have h : assemble source = .ok image := eq_ok_of_toOption (by decide +kernel)
  exact ⟨h, assemble_annotates h⟩

end Ttk91
