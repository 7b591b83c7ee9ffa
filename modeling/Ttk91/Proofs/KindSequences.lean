import Ttk91.Proofs.Agreement

/-! What the passes over a program depend on: the statements of each kind, in their order and apart
from their lines. How the kinds take turns is lost on them. -/

namespace Ttk91

theorem toOption_map {ε α β : Type} (f : α → β) (x : Except ε α) :
    (x.map f).toOption = x.toOption.map f := by
  cases x <;> rfl

namespace Statement

def unlined (st : Statement) : Statement := { st with line := 0 }

@[simp] theorem unlined_kind (st : Statement) : st.unlined.kind = st.kind := rfl
@[simp] theorem unlined_keyword (st : Statement) : st.unlined.keyword = st.keyword := rfl
@[simp] theorem unlined_label (st : Statement) : st.unlined.label = st.label := rfl
@[simp] theorem unlined_originValue (st : Statement) :
    st.unlined.originValue = st.originValue := rfl
@[simp] theorem unlined_dataWords (st : Statement) : st.unlined.dataWords = st.dataWords := rfl
@[simp] theorem unlined_constantValue (st : Statement) :
    st.unlined.constantValue = st.constantValue := rfl
@[simp] theorem unlined_span (st : Statement) : st.unlined.span = st.span := rfl
@[simp] theorem unlined_size (st : Statement) : st.unlined.size = st.size := rfl
@[simp] theorem unlined_encode (st : Statement) (symbols : SymbolTable) :
    st.unlined.encode symbols = st.encode symbols := rfl

end Statement

namespace Program

def sequence (kind : WordKind) (program : Program) : Program :=
  (program.filter fun st => st.kind = kind).map Statement.unlined

variable {kind : WordKind} {st : Statement} {rest program : Program}

theorem sequence_cons_of_eq (h : st.kind = kind) :
    sequence kind (st :: rest) = st.unlined :: sequence kind rest := by
  simp [sequence, h]

theorem sequence_cons_of_ne (h : st.kind ≠ kind) :
    sequence kind (st :: rest) = sequence kind rest := by
  simp [sequence, h]

theorem length_sequence_code (program : Program) :
    (program.sequence .code).length = program.codeSize := by
  rw [← length_instructions]
  simp [sequence, instructions]

/-! Passes that look at one kind only. -/

theorem toOption_originAfter (found : Option Int) (program : Program) :
    (originAfter found (program.sequence .directive)).toOption =
      (originAfter found program).toOption := by
  induction program generalizing found with
  | nil => rfl
  | cons st rest ih =>
    by_cases hk : st.kind = .directive
    · rw [sequence_cons_of_eq hk]
      by_cases hkey : st.keyword = WordKind.org
      · cases found with
        | some m => simp [originAfter, hk, hkey, Except.toOption]
        | none =>
          cases hn : st.originValue with
          | error fault => simp [originAfter, hk, hkey, hn, Except.toOption]
          | ok n => simp [originAfter, hk, hkey, hn, ih]
      · simp [originAfter, hk, hkey, Except.toOption]
    · rw [sequence_cons_of_ne hk, originAfter, if_neg hk, ih]

theorem toOption_dataSegment (program : Program) :
    (dataSegment (program.sequence .data)).toOption = (dataSegment program).toOption := by
  induction program with
  | nil => rfl
  | cons st rest ih =>
    by_cases hk : st.kind = .data
    · rw [sequence_cons_of_eq hk]
      cases hw : st.dataWords with
      | error fault => simp [dataSegment, hk, hw, Except.toOption]
      | ok words => simp [dataSegment, hk, hw, toOption_map, ih]
    · rw [sequence_cons_of_ne hk, dataSegment, if_neg hk, ih]

theorem toOption_checkDataAfter (last : Int) (program : Program) :
    (checkDataAfter last (program.sequence .data)).toOption =
      (checkDataAfter last program).toOption := by
  induction program generalizing last with
  | nil => rfl
  | cons st rest ih =>
    by_cases hk : st.kind = .data
    · rw [sequence_cons_of_eq hk]
      cases hn : st.size with
      | error fault => simp [checkDataAfter, hk, hn, Except.toOption]
      | ok n =>
        by_cases hlast : lastAddress < last + n
        · simp [checkDataAfter, hk, hn, hlast, Except.toOption]
        · simp [checkDataAfter, hk, hn, hlast, ih]
    · rw [sequence_cons_of_ne hk, checkDataAfter, if_neg hk, ih]

theorem toOption_encode (symbols : SymbolTable) (address : Int) (program : Program) :
    (encode symbols address (program.sequence .code)).toOption =
      (encode symbols address program).toOption := by
  induction program generalizing address with
  | nil => rfl
  | cons st rest ih =>
    by_cases hk : st.kind = .code
    · rw [sequence_cons_of_eq hk]
      cases hw : st.encode symbols with
      | error fault => simp [encode, hk, hw, Except.toOption]
      | ok word => simp [encode, hk, hw, toOption_map, ih]
    · rw [sequence_cons_of_ne hk, encode, if_neg hk, ih]

/-! Passes over all kinds. Whether they succeed is settled by every statement on its own. -/

theorem exists_symbolsFrom_iff (code data : Int) (table : SymbolTable) (program : Program) :
    (∃ result, symbolsFrom code data table program = .ok result) ↔
      (∀ st ∈ program.sequence .constant, (∃ name, st.label = some name) ∧
        ∃ n, st.constantValue = .ok n) ∧
      ∀ st ∈ program.sequence .data, ∃ n, st.span = .ok n := by
  induction program generalizing code data table with
  | nil => simp [symbolsFrom, sequence]
  | cons st rest ih =>
    cases hk : st.kind with
    | constant =>
      rw [sequence_cons_of_eq hk, sequence_cons_of_ne (by simp [hk]), List.forall_mem_cons]
      cases hl : st.label with
      | none => simp [symbolsFrom, hk, hl]
      | some name =>
        cases hn : st.constantValue with
        | error fault => simp [symbolsFrom, hk, hl, hn]
        | ok n => simp [symbolsFrom, hk, hl, hn, ih]
    | code =>
      rw [sequence_cons_of_ne (by simp [hk]), sequence_cons_of_ne (by simp [hk])]
      simp [symbolsFrom, hk, ih]
    | data =>
      rw [sequence_cons_of_ne (by simp [hk]), sequence_cons_of_eq hk, List.forall_mem_cons]
      cases hn : st.span with
      | error fault => simp [symbolsFrom, hk, hn]
      | ok n => simp [symbolsFrom, hk, hn, ih]
    | _ =>
      rw [sequence_cons_of_ne (by simp [hk]), sequence_cons_of_ne (by simp [hk])]
      simp [symbolsFrom, hk, ih]

theorem exists_commentsFrom_iff (code data : Int) (table : Table Int Text) (program : Program) :
    (∃ result, commentsFrom code data table program = .ok result) ↔
      ∀ st ∈ program.sequence .data, ∃ n, st.size = .ok n := by
  induction program generalizing code data table with
  | nil => simp [commentsFrom, sequence]
  | cons st rest ih =>
    cases hk : st.kind with
    | data =>
      rw [sequence_cons_of_eq hk, List.forall_mem_cons]
      cases hn : st.size with
      | error fault => simp [commentsFrom, hk, hn]
      | ok n => simp [commentsFrom, hk, hn, ih]
    | _ =>
      rw [sequence_cons_of_ne (by simp [hk])]
      simp [commentsFrom, hk, ih]

/-! The statements and their placements, sorted by kind. -/

theorem map_unlined_perm (h : ∀ st ∈ program, st.IsRead) :
    (program.map Statement.unlined).Perm
      (program.sequence .directive ++ (program.sequence .constant ++
        (program.sequence .data ++ program.sequence .code))) := by
  induction program with
  | nil => exact .nil
  | cons st rest ih =>
    rw [List.forall_mem_cons] at h
    have hcons := (ih h.2).cons st.unlined
    rw [List.map_cons]
    cases hk : st.kind with
    | directive =>
      simp (disch := simp [hk]) only [sequence_cons_of_eq hk, sequence_cons_of_ne]
      exact hcons
    | constant =>
      simp (disch := simp [hk]) only [sequence_cons_of_eq hk, sequence_cons_of_ne]
      exact hcons.trans List.perm_middle.symm
    | data =>
      simp (disch := simp [hk]) only [sequence_cons_of_eq hk, sequence_cons_of_ne]
      rw [← List.append_assoc] at hcons ⊢
      exact hcons.trans List.perm_middle.symm
    | code =>
      simp (disch := simp [hk]) only [sequence_cons_of_eq hk, sequence_cons_of_ne]
      rw [← List.append_assoc, ← List.append_assoc] at hcons ⊢
      exact hcons.trans List.perm_middle.symm
    | register => exact absurd hk h.1.kind_ne_register
    | plain => exact absurd hk h.1.kind_ne_plain

/-- Code and data are placed independently of each other and of the constants. -/
theorem placements_perm (code data : Int) (program : Program) :
    ((placements code data program).map fun p => (p.1, p.2.unlined)).Perm
      (placements 0 0 (program.sequence .constant) ++
        (placements code 0 (program.sequence .code) ++
          placements 0 data (program.sequence .data))) := by
  induction program generalizing code data with
  | nil => exact .nil
  | cons st rest ih =>
    cases hk : st.kind with
    | constant =>
      simp (disch := simp [hk]) only [sequence_cons_of_eq hk, sequence_cons_of_ne,
        placements_of_constant]
      exact (ih code data).cons _
    | code =>
      simp (disch := simp [hk]) only [sequence_cons_of_eq hk, sequence_cons_of_ne,
        placements_of_code]
      exact ((ih (code + 1) data).cons _).trans List.perm_middle.symm
    | data =>
      simp (disch := simp [hk]) only [sequence_cons_of_eq hk, sequence_cons_of_ne,
        placements_of_data]
      have hcons := (ih code (data + st.extent)).cons ((⟨.data, data⟩ : Symbol), st.unlined)
      rw [← List.append_assoc] at hcons ⊢
      exact hcons.trans List.perm_middle.symm
    | _ =>
      simp (disch := simp [hk]) only [sequence_cons_of_ne, placements_of_other]
      exact ih code data

end Program
end Ttk91
