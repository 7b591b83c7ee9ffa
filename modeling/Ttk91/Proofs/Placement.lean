import Mathlib.Algebra.GroupWithZero.Nat
import Ttk91.Assembly
import Ttk91.Proofs.SourceReader
import Ttk91.Proofs.Tables

/-! Where the statements of a program stand. The passes over a program keep counters of their own;
here the outcome of each pass is given in terms of one list of placements, so that any two of them
can be compared. -/

namespace Ttk91

namespace Statement

def number (st : Statement) : Int :=
  match st.value with
  | .ok n => n
  | .error _ => 0

/-- The words that a data statement takes: one for a value, `n` for a reservation of `n`. -/
def extent (st : Statement) : Nat :=
  if st.keyword = WordKind.dc then 1 else st.number.toNat

inductive IsData (st : Statement) : Prop
  | value (h : st.keyword = WordKind.dc)
  | reservation (h : st.keyword = WordKind.ds)

theorem number_of_value {st : Statement} {n : Int} (h : st.value = .ok n) : st.number = n := by
  rw [number, h]

theorem extent_of_dc {st : Statement} (h : st.keyword = WordKind.dc) : st.extent = 1 := if_pos h

theorem extent_of_ds {st : Statement} (h : st.keyword = WordKind.ds) :
    st.extent = st.number.toNat := by
  rw [extent, if_neg (by rw [h]; decide)]

theorem reservation_eq_ok {st : Statement} {n : Int} (h : st.reservation = .ok n) :
    st.value = .ok n ∧ 0 < n := by
  unfold reservation at h
  split at h
  · cases h
  · rename_i m hm
    split at h
    · cases h
    · split at h
      · cases h
      · cases h
        exact ⟨hm, by omega⟩

theorem reservation_of_value {st : Statement} {n : Int} (h : st.value = .ok n) (hn : 0 < n) :
    st.reservation = .ok n := by
  have hnonneg : ¬ n < 0 := by omega
  have hne : n ≠ 0 := by omega
  simp [reservation, h, hnonneg, hne]

theorem constantValue_eq_ok {st : Statement} {n : Int} (h : st.constantValue = .ok n) :
    st.value = .ok n ∧ -32768 ≤ n ∧ n ≤ 32767 := by
  unfold constantValue at h
  split at h
  · cases h
  · rename_i m hm
    split at h
    · rename_i hrange
      cases h
      exact ⟨hm, hrange⟩
    · cases h

theorem originValue_eq_ok {st : Statement} {n : Int} (h : st.originValue = .ok n) :
    st.label = none ∧ st.value = .ok n ∧ 0 ≤ n := by
  unfold originValue at h
  split at h
  · cases h
  · rename_i hlabel
    split at h
    · cases h
    · rename_i m hm
      split at h
      · cases h
      · cases h
        exact ⟨by simpa using hlabel, hm, by omega⟩

theorem size_eq_ok {st : Statement} {n : Int} (h : st.size = .ok n) :
    (st.extent : Int) = n ∧ 0 < n := by
  unfold size at h
  split at h
  · rename_i hdc
    cases h
    exact ⟨by rw [extent_of_dc hdc]; rfl, by omega⟩
  · rename_i hdc
    obtain ⟨hv, hn⟩ := reservation_eq_ok h
    refine ⟨?_, hn⟩
    rw [extent, if_neg hdc, number_of_value hv]
    omega

theorem span_eq_ok {st : Statement} {n : Int} (hk : st.IsData) (h : st.span = .ok n) :
    (st.extent : Int) = n := by
  unfold span at h
  split at h
  · rename_i hds
    obtain ⟨hv, hn⟩ := reservation_eq_ok h
    rw [extent_of_ds hds, number_of_value hv]
    omega
  · rename_i hds
    cases h
    cases hk with
    | value hdc =>
      rw [extent_of_dc hdc]
      rfl
    | reservation h => exact absurd h hds

theorem dataWords_eq_ok {st : Statement} {words : List Int} (h : st.dataWords = .ok words) :
    (st.keyword = WordKind.dc ∧ ∃ n, st.value = .ok n ∧ words = [n]) ∨
    (st.keyword = WordKind.ds ∧ ∃ n, st.value = .ok n ∧ 0 < n ∧
      words = List.replicate n.toNat 0) := by
  unfold dataWords at h
  split at h
  · rename_i hdc
    obtain ⟨n, hn, rfl⟩ := map_eq_ok.mp h
    exact Or.inl ⟨hdc, n, hn, rfl⟩
  · split at h
    · rename_i hds
      obtain ⟨n, hn, rfl⟩ := map_eq_ok.mp h
      obtain ⟨hv, hpos⟩ := reservation_eq_ok hn
      exact Or.inr ⟨hds, n, hv, hpos, rfl⟩
    · cases h

theorem isData_of_dataWords {st : Statement} {words : List Int} (h : st.dataWords = .ok words) :
    st.IsData := by
  rcases dataWords_eq_ok h with ⟨hdc, -⟩ | ⟨hds, -⟩
  · exact .value hdc
  · exact .reservation hds

theorem length_of_dataWords {st : Statement} {words : List Int} (h : st.dataWords = .ok words) :
    words.length = st.extent := by
  rcases dataWords_eq_ok h with ⟨hdc, n, -, rfl⟩ | ⟨hds, n, hv, -, rfl⟩
  · rw [extent_of_dc hdc, List.length_singleton]
  · rw [extent_of_ds hds, number_of_value hv, List.length_replicate]

end Statement

namespace Program

def labels (program : Program) : List Text := program.filterMap Statement.label

def instructions (program : Program) : Program := program.filter fun st => st.kind = .code

def dataStatements (program : Program) : Program := program.filter fun st => st.kind = .data

def dataSize (program : Program) : Nat := (program.dataStatements.map Statement.extent).sum

/-- The statements that a label can name, each with the symbol that a label on it stands for: the
address of its first word, or its value. The next instruction is at `code`, the next data word at
`data`. -/
def placements (code data : Int) : Program → List (Symbol × Statement)
  | [] => []
  | st :: rest =>
    match st.kind with
    | .constant => (⟨.constant, st.number⟩, st) :: placements code data rest
    | .code => (⟨.code, code⟩, st) :: placements (code + 1) data rest
    | .data => (⟨.data, data⟩, st) :: placements code (data + st.extent) rest
    | _ => placements code data rest

variable {code data : Int} {st : Statement} {rest : Program}

theorem codeSize_cons_of_code (h : st.kind = .code) :
    codeSize (st :: rest) = codeSize rest + 1 := by
  simp [codeSize, h]

theorem codeSize_cons_of_ne (h : st.kind ≠ .code) : codeSize (st :: rest) = codeSize rest := by
  simp [codeSize, h]

theorem codeSize_append (before after : Program) :
    codeSize (before ++ after) = codeSize before + codeSize after := List.countP_append

theorem length_instructions (program : Program) : program.instructions.length = program.codeSize :=
  List.countP_eq_length_filter.symm

theorem dataSize_cons_of_data (h : st.kind = .data) :
    dataSize (st :: rest) = st.extent + dataSize rest := by
  simp [dataSize, dataStatements, h]

theorem dataSize_cons_of_ne (h : st.kind ≠ .data) : dataSize (st :: rest) = dataSize rest := by
  simp [dataSize, dataStatements, h]

theorem dataSize_append (before after : Program) :
    dataSize (before ++ after) = dataSize before + dataSize after := by
  simp [dataSize, dataStatements]

theorem placements_of_constant (h : st.kind = .constant) :
    placements code data (st :: rest) =
      (⟨.constant, st.number⟩, st) :: placements code data rest := by
  rw [placements, h]

theorem placements_of_code (h : st.kind = .code) :
    placements code data (st :: rest) = (⟨.code, code⟩, st) :: placements (code + 1) data rest := by
  rw [placements, h]

theorem placements_of_data (h : st.kind = .data) :
    placements code data (st :: rest) =
      (⟨.data, data⟩, st) :: placements code (data + st.extent) rest := by
  rw [placements, h]

theorem placements_of_other (hconstant : st.kind ≠ .constant) (hcode : st.kind ≠ .code)
    (hdata : st.kind ≠ .data) : placements code data (st :: rest) = placements code data rest := by
  rw [placements]
  cases hk : st.kind <;> first | rfl | contradiction

theorem placements_append (before after : Program) :
    placements code data (before ++ after) =
      placements code data before ++
        placements (code + before.codeSize) (data + before.dataSize) after := by
  induction before generalizing code data with
  | nil => simp [placements, codeSize, dataSize, dataStatements]
  | cons st before ih =>
    rw [List.cons_append, placements, placements]
    cases hk : st.kind with
    | code =>
      have hcode : code + (codeSize (st :: before) : Int) = code + 1 + codeSize before := by
        rw [codeSize_cons_of_code hk]
        omega
      rw [hcode, dataSize_cons_of_ne (by simp [hk])]
      exact congrArg (List.cons _) ih
    | data =>
      have hdata : data + (dataSize (st :: before) : Int) =
          data + st.extent + dataSize before := by
        rw [dataSize_cons_of_data hk]
        omega
      rw [hdata, codeSize_cons_of_ne (by simp [hk])]
      exact congrArg (List.cons _) ih
    | constant =>
      rw [codeSize_cons_of_ne (by simp [hk]), dataSize_cons_of_ne (by simp [hk])]
      exact congrArg (List.cons _) ih
    | _ =>
      rw [codeSize_cons_of_ne (by simp [hk]), dataSize_cons_of_ne (by simp [hk])]
      exact ih

theorem map_snd_placements_sublist (code data : Int) (program : Program) :
    ((placements code data program).map Prod.snd).Sublist program := by
  induction program generalizing code data with
  | nil => exact .slnil
  | cons st rest ih =>
    rw [placements]
    cases st.kind with
    | constant | code | data => exact (ih _ _).cons_cons st
    | register | directive | plain => exact (ih code data).cons st

/-- A placement is that of a statement, behind the statements before it. -/
theorem mem_placements {program : Program} {p : Symbol × Statement}
    (h : p ∈ placements code data program) :
    ∃ before st after, program = before ++ st :: after ∧ p.2 = st ∧
      (st.kind = .constant ∧ p.1 = ⟨.constant, st.number⟩ ∨
        st.kind = .code ∧ p.1 = ⟨.code, code + codeSize before⟩ ∨
        st.kind = .data ∧ p.1 = ⟨.data, data + dataSize before⟩) := by
  induction program generalizing code data with
  | nil => cases h
  | cons st rest ih =>
    have hlater {code' data' : Int} (hcode : code' = code + codeSize [st])
        (hdata : data' = data + dataSize [st]) (hp : p ∈ placements code' data' rest) :
        ∃ before st' after, st :: rest = before ++ st' :: after ∧ p.2 = st' ∧
          (st'.kind = .constant ∧ p.1 = ⟨.constant, st'.number⟩ ∨
            st'.kind = .code ∧ p.1 = ⟨.code, code + codeSize before⟩ ∨
            st'.kind = .data ∧ p.1 = ⟨.data, data + dataSize before⟩) := by
      obtain ⟨before, st', after, rfl, hst', hplace⟩ := ih hp
      have hc : codeSize (st :: before) = codeSize [st] + codeSize before :=
        codeSize_append [st] before
      have hd : dataSize (st :: before) = dataSize [st] + dataSize before :=
        dataSize_append [st] before
      refine ⟨st :: before, st', after, rfl, hst', ?_⟩
      simpa [hc, hd, hcode, hdata, Int.add_assoc] using hplace
    cases hk : st.kind with
    | constant =>
      rw [placements_of_constant hk] at h
      rcases List.mem_cons.mp h with rfl | h
      · exact ⟨[], st, rest, rfl, rfl, Or.inl ⟨hk, rfl⟩⟩
      · exact hlater (by simp [codeSize, hk]) (by simp [dataSize, dataStatements, hk]) h
    | code =>
      rw [placements_of_code hk] at h
      rcases List.mem_cons.mp h with rfl | h
      · exact ⟨[], st, rest, rfl, rfl, Or.inr (Or.inl ⟨hk, by simp [codeSize]⟩)⟩
      · exact hlater (by simp [codeSize, hk]) (by simp [dataSize, dataStatements, hk]) h
    | data =>
      rw [placements_of_data hk] at h
      rcases List.mem_cons.mp h with rfl | h
      · exact ⟨[], st, rest, rfl, rfl,
          Or.inr (Or.inr ⟨hk, by simp [dataSize, dataStatements]⟩)⟩
      · exact hlater (by simp [codeSize, hk]) (by simp [dataSize, dataStatements, hk]) h
    | _ =>
      rw [placements_of_other (by simp [hk]) (by simp [hk]) (by simp [hk])] at h
      exact hlater (by simp [codeSize, hk]) (by simp [dataSize, dataStatements, hk]) h

theorem map_relocate_placements (codeStart dataStart : Int) (program : Program) :
    (placements code data program).map (fun p => (p.1.relocate codeStart dataStart, p.2)) =
      placements (code + codeStart) (data + dataStart) program := by
  induction program generalizing code data with
  | nil => rfl
  | cons st rest ih =>
    rw [placements, placements]
    cases hk : st.kind with
    | code =>
      rw [Int.add_right_comm code]
      exact congrArg (List.cons _) ih
    | data =>
      rw [Int.add_right_comm data]
      exact congrArg (List.cons _) ih
    | constant => exact congrArg (List.cons _) ih
    | _ => exact ih

end Program
end Ttk91
