import Mathlib.Data.List.Induction
import Ttk91.Proofs.ImageShape

/-! The check that data stay in memory, against the data that are built. The check adds up sizes and
stops at the first statement that ends too far; building makes the words. Both agree on the size,
and a refusal names the statement and the address that it would have reached. -/

namespace Ttk91

/-- Numbers of fewer digits than may be shown stay showable behind any one statement. -/
theorem Text.add_le_numeralBound {n : Nat} (h : (Text.ofNat n).length < Text.maxDigits) :
    n + 2 ^ 32 ≤ Text.numeralBound := by
  have hn : n < 10 ^ (Text.maxDigits - 1) :=
    (Nat.length_toDigits_le_iff (by decide) (by decide)).mp (Nat.le_sub_one_of_lt h)
  have hsmall : 2 ^ 32 ≤ 10 ^ (Text.maxDigits - 1) :=
    Nat.le_trans (by decide : 2 ^ 32 ≤ 10 ^ 10) (Nat.pow_le_pow_right (by decide) (by decide))
  have hbound : Text.numeralBound = 10 ^ (Text.maxDigits - 1) * 10 := by
    rw [Text.numeralBound_eq, Nat.pow_pred_mul (by decide)]
  generalize 10 ^ (Text.maxDigits - 1) = power at hn hsmall hbound
  omega

namespace Statement

variable {st : Statement} {words : List Int}

theorem size_of_dataWords (h : st.dataWords = .ok words) : st.size = .ok st.extent := by
  rcases dataWords_eq_ok h with ⟨hdc, -⟩ | ⟨hds, n, hv, hpos, -⟩
  · rw [size, if_pos hdc, extent_of_dc hdc]
    rfl
  · rw [size, if_neg (by rw [hds]; decide), reservation_of_value hv hpos, extent_of_ds hds,
      number_of_value hv, Int.toNat_of_nonneg (Int.le_of_lt hpos)]

theorem extent_lt_of_dataWords (h : st.dataWords = .ok words) : st.extent < 2 ^ 31 := by
  rcases dataWords_eq_ok h with ⟨hdc, -⟩ | ⟨hds, n, hv, -⟩
  · rw [extent_of_dc hdc]
    decide
  · have hbounds := value_bounds hv
    rw [extent_of_ds hds, number_of_value hv]
    omega

end Statement

namespace Program

variable {program before rest : Program} {st first : Statement} {words : List Int} {last : Int}
  {failure : Failure}

/-- With `last` the address before the data, `st` is the first statement that ends beyond memory;
`before` are the statements in front of it. -/
structure Overruns (last : Int) (before : Program) (st : Statement) : Prop where
  isData : st.kind = .data
  earlier : ∀ front other back, before = front ++ other :: back → other.kind = .data →
    last + dataSize (front ++ [other]) ≤ lastAddress
  beyond : lastAddress < last + dataSize (before ++ [st])

theorem Overruns.head (hk : st.kind = .data) (h : lastAddress < last + st.extent) :
    Overruns last [] st where
  isData := hk
  earlier front other back hnil := by simp at hnil
  beyond := by
    rw [List.nil_append, dataSize_cons_of_data hk]
    exact h

theorem Overruns.cons_of_data (hk : first.kind = .data) (hfits : last + first.extent ≤ lastAddress)
    (h : Overruns (last + first.extent) before st) : Overruns last (first :: before) st where
  isData := h.isData
  earlier front other back hsplit hother := by
    cases front with
    | nil =>
      obtain ⟨rfl, -⟩ := List.cons.inj hsplit
      rw [List.nil_append, dataSize_cons_of_data hk]
      exact hfits
    | cons head front =>
      obtain ⟨rfl, htail⟩ := List.cons.inj hsplit
      have hearlier := h.earlier front other back htail hother
      rw [List.cons_append, dataSize_cons_of_data hk]
      omega
  beyond := by
    have hbeyond := h.beyond
    rw [List.cons_append, dataSize_cons_of_data hk]
    omega

theorem Overruns.cons_of_ne (hk : first.kind ≠ .data) (h : Overruns last before st) :
    Overruns last (first :: before) st where
  isData := h.isData
  earlier front other back hsplit hother := by
    cases front with
    | nil =>
      obtain ⟨rfl, -⟩ := List.cons.inj hsplit
      exact absurd hother hk
    | cons head front =>
      obtain ⟨rfl, htail⟩ := List.cons.inj hsplit
      rw [List.cons_append, dataSize_cons_of_ne hk]
      exact h.earlier front other back htail hother
  beyond := by
    rw [List.cons_append, dataSize_cons_of_ne hk]
    exact h.beyond

theorem Overruns.dataSize_before (h : Overruns last before st) :
    before.dataSize = 0 ∨ last + before.dataSize ≤ lastAddress := by
  have hearlier := h.earlier
  clear h
  induction before using List.reverseRecOn with
  | nil => exact Or.inl rfl
  | append_singleton before other ih =>
    by_cases hk : other.kind = .data
    · exact Or.inr (hearlier before other [] rfl hk)
    · rw [dataSize_append, dataSize_cons_of_ne hk]
      exact ih fun front early back hsplit =>
        hearlier front early (back ++ [other]) (by rw [hsplit]; simp)

theorem Overruns.reach_lt (h : Overruns last before st) (hextent : st.extent < 2 ^ 31) :
    last + dataSize (before ++ [st]) < max last lastAddress + 2 ^ 31 := by
  have hbefore := h.dataSize_before
  rw [dataSize_append, dataSize_cons_of_data h.isData]
  have hnil : dataSize [] = 0 := rfl
  omega

/-- The check stops at the first statement beyond memory, if all data can be built. -/
theorem overruns_of_checkDataAfter (hbuilt : program.dataSegment = .ok words)
    (h : checkDataAfter last program = .error failure) :
    ∃ before st after, program = before ++ st :: after ∧ Overruns last before st ∧
      failure = .faulty st.line (.dataBeyondMemory (last + dataSize (before ++ [st]))) := by
  induction program generalizing last words with
  | nil => cases h
  | cons first rest ih =>
    by_cases hk : first.kind = .data
    · obtain ⟨front, back, hfront, hback, -⟩ := dataSegment_cons_of_data hk hbuilt
      simp only [checkDataAfter, if_pos hk, Statement.size_of_dataWords hfront] at h
      split at h
      · rename_i hbeyond
        cases h
        refine ⟨[], first, rest, rfl, .head hk hbeyond, ?_⟩
        rw [List.nil_append, dataSize_cons_of_data hk]
        rfl
      · rename_i hfits
        obtain ⟨before, st, after, rfl, hoverruns, rfl⟩ := ih hback h
        refine ⟨first :: before, st, after, rfl, hoverruns.cons_of_data hk (by omega), ?_⟩
        rw [List.cons_append, dataSize_cons_of_data hk, Int.natCast_add, ← Int.add_assoc]
    · rw [dataSegment, if_neg hk] at hbuilt
      rw [checkDataAfter, if_neg hk] at h
      obtain ⟨before, st, after, rfl, hoverruns, rfl⟩ := ih hbuilt h
      refine ⟨first :: before, st, after, rfl, hoverruns.cons_of_ne hk, ?_⟩
      rw [List.cons_append, dataSize_cons_of_ne hk]

/-- The check accepts the data that are built within memory. -/
theorem checkDataAfter_eq_ok_iff (hbuilt : program.dataSegment = .ok words) :
    checkDataAfter last program = .ok () ↔
      (∀ st ∈ program, st.kind ≠ .data) ∨ last + words.length ≤ lastAddress := by
  rw [length_dataSegment hbuilt]
  constructor
  · intro hok
    by_cases hnone : ∀ st ∈ program, st.kind ≠ .data
    · exact Or.inl hnone
    · simp only [not_forall, Decidable.not_not] at hnone
      obtain ⟨st, hmem, hk⟩ := hnone
      have hpos := dataSize_pos_of_dataSegment hbuilt hmem hk
      exact Or.inr ((checkDataAfter_eq_ok hok).resolve_left (by omega))
  · intro hfits
    cases hcheck : checkDataAfter last program with
    | ok => rfl
    | error failure =>
      -- What the first statement beyond memory reaches, all the data reach.
      obtain ⟨before, st, after, rfl, hoverruns, -⟩ := overruns_of_checkDataAfter hbuilt hcheck
      have hbeyond := hoverruns.beyond
      have hsplit : before ++ st :: after = before ++ [st] ++ after := by simp
      have hsize := dataSize_append (before ++ [st]) after
      rw [hsplit] at hfits
      rcases hfits with hnone | hfits
      · exact absurd hoverruns.isData (hnone st (by simp))
      · omega

end Program

/-- The report of data that reach the address `last`. It is lost only with a line number that cannot
be shown. -/
theorem Failure.checkedReport_dataBeyondMemory {line last : Int}
    (h : Text.isShowable last = true) :
    checkedReport (.faulty line (.dataBeyondMemory last)) =
      if Text.isShowable line then
        .ok (.single .range
          ("El segmento de datos llega a la dirección " ++ String.ofList (Text.ofInt last))
          (some line) (some "la última dirección válida es 65535"))
      else .error .tooManyDigits := by
  simp only [checkedReport, numbers, Fault.numbers, List.all_cons, List.all_nil, h, Bool.and_true]
  rfl

namespace Program

variable {program : Program} {words : List Int} {start : Int}

/-- The size that is predicted is the size that is built. The data are accepted exactly if there are
none or the last of their words is in memory; else the refusal stands at the first data statement
that ends beyond memory and shows the address that it would have reached. -/
theorem checkDataFits_predicts (hbuilt : program.dataSegment = .ok words)
    (hstart : (Text.ofNat start.natAbs).length < 4300) :
    (program.checkDataFits start = .ok () ↔
      (∀ st ∈ program, st.kind ≠ .data) ∨ start + words.length - 1 ≤ 65535) ∧
    ∀ failure, program.checkDataFits start = .error failure →
      ∃ before st after last, program = before ++ st :: after ∧
        Overruns (start - 1) before st ∧ last = start - 1 + dataSize (before ++ [st]) ∧
        failure = .faulty st.line (.dataBeyondMemory last) ∧
        failure.checkedReport =
          if Text.isShowable st.line then
            .ok (.single .range
              ("El segmento de datos llega a la dirección " ++ String.ofList (Text.ofInt last))
              (some st.line) (some "la última dirección válida es 65535"))
          else .error .tooManyDigits := by
  constructor
  · have hlast : start + words.length - 1 = start - 1 + words.length := by omega
    rw [hlast]
    exact checkDataAfter_eq_ok_iff hbuilt
  · intro failure hfailure
    obtain ⟨before, st, after, rfl, hoverruns, rfl⟩ := overruns_of_checkDataAfter hbuilt hfailure
    refine ⟨before, st, after, _, rfl, hoverruns, rfl, rfl, ?_⟩
    apply Failure.checkedReport_dataBeyondMemory
    obtain ⟨-, back, -, hback, -⟩ := dataSegment_append hbuilt
    obtain ⟨front, -, hfront, -, -⟩ := dataSegment_cons_of_data hoverruns.isData hback
    have hreach := hoverruns.reach_lt (Statement.extent_lt_of_dataWords hfront)
    have hbeyond := hoverruns.beyond
    have hbound := Text.add_le_numeralBound hstart
    simp only [lastAddress] at hreach hbeyond
    have hbounds : -2 ^ 31 ≤ start - 1 + dataSize (before ++ [st]) ∧
        start - 1 + dataSize (before ++ [st]) < 2 ^ 31 + (start.natAbs + 65536 : Nat) := by
      omega
    exact Text.isShowable_of_bounds hbounds (by omega)

/-- Four words behind address 65531 fill memory; one address further they are refused at the last of
three data statements. -/
theorem checkDataFits_predicts_boundary :
    let program : Program :=
      [⟨.data, WordKind.dc, ["5".toList], 1, none, none⟩, ⟨.code, "NOP".toList, [], 2, none, none⟩,
        ⟨.data, WordKind.ds, ["2".toList], 3, none, none⟩,
        ⟨.data, WordKind.dc, ["7".toList], 5, none, none⟩]
    program.dataSegment = .ok [5, 0, 0, 7] ∧ program.checkDataFits 65532 = .ok () ∧
      program.checkDataFits 65533 = .error (.faulty 5 (.dataBeyondMemory 65536)) ∧
      ∃ before st after, program = before ++ st :: after ∧ Overruns 65532 before st ∧
        st.line = 5 ∧ dataSize (before ++ [st]) = 4 := by
  intro program
  have hbuilt : program.dataSegment = .ok [5, 0, 0, 7] := by decide +kernel
  have hrefused : program.checkDataFits 65533 = .error (.faulty 5 (.dataBeyondMemory 65536)) := by
    decide +kernel
  have hfits : program.checkDataFits 65532 = .ok () :=
    (checkDataFits_predicts hbuilt (by decide)).1.mpr (Or.inr (by decide))
  obtain ⟨before, st, after, last, hprogram, hoverruns, hlast, hfailure, -⟩ :=
    (checkDataFits_predicts hbuilt (by decide)).2 _ hrefused
  obtain ⟨hline, hreach⟩ := Failure.faulty.inj hfailure
  obtain rfl := Fault.dataBeyondMemory.inj hreach
  exact ⟨hbuilt, hfits, hrefused, before, st, after, hprogram, hoverruns, hline.symm, by omega⟩

end Program
end Ttk91
