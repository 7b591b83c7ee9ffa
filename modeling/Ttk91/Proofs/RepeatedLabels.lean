import Mathlib.Data.List.Forall2
import Mathlib.Data.List.Induction
import Ttk91.Proofs.Numeral
import Ttk91.Proofs.Passes

/-! What is said about labels that are defined more than once. The definitions are grouped by label
in one pass; the groups come in the order of first definitions and are complete, so each repeated
label has one diagnostic, and it comes before every other fault of the layout. -/

namespace Ttk91

/-- A diagnostic about a label: it names the label and the lines of all its definitions, and it
stands at the second one. -/
structure Diagnostic.Repeats (d : Diagnostic) (program : Program) (label : Text) : Prop where
  message : d.message = "Definición múltiple de '" ++ String.ofList label ++ "' en las líneas: " ++
    String.ofList (Text.join [',', ' '] ((program.linesOf label).map Text.ofInt))
  line : ∃ second, (program.linesOf label)[1]? = some second ∧ d.line = some second
  category : d.severity = "error" ∧ d.kind = some Category.structural.tag
  plain : d.col = none ∧ d.hint = none ∧ d.file = none

namespace Program

/-- One diagnostic for each label with several definitions, in the order of first definitions. -/
def RepeatsReported (program : Program) (diagnostics : List Diagnostic) : Prop :=
  ∃ names : List Text,
    (∀ name, name ∈ names ↔ 1 < program.labels.count name) ∧
    names.Pairwise (fun a b => program.labels.idxOf a < program.labels.idxOf b) ∧
    List.Forall₂ (fun name d => Diagnostic.Repeats d program name) names diagnostics

variable {program before : Program} {st : Statement} {name : Text}

/-! Groups in the order of first definitions. -/

theorem labels_concat_none (h : st.label = none) : labels (before ++ [st]) = labels before := by
  simp [labels, h]

theorem labels_concat_some (h : st.label = some name) :
    labels (before ++ [st]) = labels before ++ [name] := by
  simp [labels, h]

theorem definitions_concat (before : Program) (st : Statement) :
    definitions (before ++ [st]) = noteDefinition (definitions before) st := by
  rw [definitions_eq_foldl, List.foldl_append, ← definitions_eq_foldl]
  rfl

theorem keys_definitions_concat_none (h : st.label = none) :
    (definitions (before ++ [st])).keys = before.definitions.keys := by
  simp [definitions_concat, noteDefinition, h]

theorem keys_definitions_concat_of_mem (h : st.label = some name)
    (hmem : name ∈ before.definitions.keys) :
    (definitions (before ++ [st])).keys = before.definitions.keys := by
  simp [definitions_concat, noteDefinition, h, Table.keys_insert_of_mem _ hmem]

theorem keys_definitions_concat_of_not_mem (h : st.label = some name)
    (hmem : name ∉ before.definitions.keys) :
    (definitions (before ++ [st])).keys = before.definitions.keys ++ [name] := by
  simp [definitions_concat, noteDefinition, h, Table.insert_of_not_mem _ hmem, Table.keys]

theorem mem_keys_definitions_iff {label : Text} :
    label ∈ program.definitions.keys ↔ label ∈ program.labels := by
  induction program using List.reverseRecOn with
  | nil => simp [definitions, labels, Table.keys]
  | append_singleton before st ih =>
    cases hl : st.label with
    | none => rw [keys_definitions_concat_none hl, labels_concat_none hl, ih]
    | some name =>
      rw [labels_concat_some hl, List.mem_append, List.mem_singleton, ← ih]
      by_cases hmem : name ∈ (definitions before).keys
      · rw [keys_definitions_concat_of_mem hl hmem]
        constructor
        · exact Or.inl
        · rintro (h | rfl)
          · exact h
          · exact hmem
      · rw [keys_definitions_concat_of_not_mem hl hmem, List.mem_append, List.mem_singleton]

/-- A later label does not change which of the labels known so far came first. -/
theorem pairwise_idxOf_append {names labels : List Text}
    (h : names.Pairwise fun a b => labels.idxOf a < labels.idxOf b)
    (hmem : ∀ a ∈ names, a ∈ labels) (more : List Text) :
    names.Pairwise fun a b => (labels ++ more).idxOf a < (labels ++ more).idxOf b := by
  refine h.imp_of_mem fun ha hb hlt => ?_
  rw [List.idxOf_append_of_mem (hmem _ ha), List.idxOf_append_of_mem (hmem _ hb)]
  exact hlt

theorem keys_definitions_pairwise (program : Program) :
    program.definitions.keys.Pairwise fun a b =>
      program.labels.idxOf a < program.labels.idxOf b := by
  -- from the end: the last statement leaves the keys alone or adds one behind all of them
  induction program using List.reverseRecOn with
  | nil => exact .nil
  | append_singleton before st ih =>
    cases hl : st.label with
    | none =>
      rw [keys_definitions_concat_none hl, labels_concat_none hl]
      exact ih
    | some name =>
      have hold := pairwise_idxOf_append ih (fun a ha => mem_keys_definitions_iff.mp ha) [name]
      rw [labels_concat_some hl]
      by_cases hmem : name ∈ (definitions before).keys
      · rw [keys_definitions_concat_of_mem hl hmem]
        exact hold
      · rw [keys_definitions_concat_of_not_mem hl hmem, List.pairwise_append]
        refine ⟨hold, List.pairwise_singleton _ _, ?_⟩
        intro a ha b hb
        obtain rfl := List.mem_singleton.mp hb
        have hknown := mem_keys_definitions_iff.mp ha
        have hnew := mt mem_keys_definitions_iff.mpr hmem
        rw [List.idxOf_append_of_mem hknown, List.idxOf_append_of_notMem hnew]
        exact Nat.lt_add_right _ (List.idxOf_lt_length_iff.mpr hknown)

/-! Diagnostics. -/

theorem repeatedLabels_pairwise (program : Program) :
    (program.repeatedLabels.map Repeated.label).Pairwise fun a b =>
      program.labels.idxOf a < program.labels.idxOf b := by
  have hentries := keys_definitions_pairwise program
  rw [Table.keys, List.pairwise_map] at hentries
  rw [List.pairwise_map]
  refine hentries.filterMap _ fun a b hlt r hr s hs => ?_
  obtain ⟨-, hr⟩ := Option.ite_none_right_eq_some.mp hr
  obtain ⟨-, hs⟩ := Option.ite_none_right_eq_some.mp hs
  obtain rfl := Option.some.inj hr
  obtain rfl := Option.some.inj hs
  exact hlt

theorem repeats_diagnostic {r : Repeated} (h : r ∈ program.repeatedLabels) :
    r.diagnostic.Repeats program r.label := by
  obtain ⟨hlines, hmany⟩ := mem_repeatedLabels_iff.mp h
  rw [← length_linesOf] at hmany
  refine ⟨by rw [← hlines]; rfl, ⟨(program.linesOf r.label)[1], ?_, ?_⟩, ⟨rfl, rfl⟩, rfl, rfl, rfl⟩
  · exact List.getElem?_eq_getElem hmany
  · rw [← List.getElem?_eq_getElem hmany, ← hlines]
    rfl

theorem repeatsReported (program : Program) :
    program.RepeatsReported (program.repeatedLabels.map Repeated.diagnostic) := by
  refine ⟨program.repeatedLabels.map Repeated.label, fun name => ?_,
    repeatedLabels_pairwise program, ?_⟩
  · rw [List.mem_map]
    constructor
    · rintro ⟨r, hr, rfl⟩
      exact (mem_repeatedLabels_iff.mp hr).2
    · intro hmany
      exact ⟨⟨name, linesOf name program⟩, mem_repeatedLabels_iff.mpr ⟨rfl, hmany⟩, rfl⟩
  · rw [List.forall₂_map_left_iff, List.forall₂_map_right_iff, List.forall₂_same]
    exact fun r hr => repeats_diagnostic hr

theorem checkedReport_repeated (hlines : ∀ st ∈ program, Text.isShowable st.line = true) :
    (Failure.repeated program.repeatedLabels).checkedReport =
      .ok (Failure.repeated program.repeatedLabels).report := by
  have hshow : (Failure.repeated program.repeatedLabels).numbers.all Text.isShowable = true := by
    rw [List.all_eq_true]
    intro n hn
    obtain ⟨r, hr, hn⟩ := List.mem_flatMap.mp hn
    rw [(mem_repeatedLabels_iff.mp hr).1] at hn
    obtain ⟨st, hst, rfl⟩ := List.mem_map.mp hn
    exact hlines st (List.mem_filter.mp hst).1
  rw [Failure.checkedReport, if_pos hshow]

/-- Labels are accepted exactly when they are distinct. Otherwise there is one failure that reports
every repeated label and no other, and laying the program out ends with this failure, whatever else
is wrong with it. -/
theorem checkLabels_complete (program : Program)
    (hlines : ∀ st ∈ program, Text.isShowable st.line = true) :
    (program.checkLabels = .ok () ↔ program.labels.Nodup) ∧
    (¬program.labels.Nodup →
      ∃ failure report, program.checkLabels = .error failure ∧
        program.layout = .error failure ∧ failure.category = .structural ∧
        failure.checkedReport = .ok report ∧ report.line = none ∧
        program.RepeatsReported report.diagnostics) := by
  refine ⟨checkLabels_eq_ok_iff, fun hdup => ?_⟩
  cases hlabels : program.checkLabels with
  | ok => exact absurd (checkLabels_eq_ok_iff.mp hlabels) hdup
  | error failure =>
    obtain ⟨rfl, -⟩ := checkLabels_eq_error hlabels
    exact ⟨_, _, rfl, bind_eq_error.mpr (Or.inl hlabels), rfl, checkedReport_repeated hlines, rfl,
      repeatsReported program⟩

/-- Two repeated labels with interleaved definitions, on statements that are faulty in other ways
too: a labelled negative origin, an empty reservation and a constant without a value. -/
theorem checkLabels_complete_interleaved :
    let program : Program :=
      [⟨.code, "NOP".toList, [], 1, some ['b'], none⟩,
       ⟨.directive, WordKind.org, ["-1".toList], 2, some ['a'], none⟩,
       ⟨.data, WordKind.ds, [['0']], 3, some ['b'], none⟩,
       ⟨.code, "NOP".toList, [], 4, some ['c'], none⟩,
       ⟨.constant, WordKind.equ, [], 5, some ['a'], none⟩,
       ⟨.code, "NOP".toList, [], 6, some ['b'], none⟩]
    ∃ failure report, program.checkLabels = .error failure ∧ program.layout = .error failure ∧
      failure.checkedReport = .ok report ∧
      report.diagnostics.map (fun d => (d.message, d.line)) =
        [("Definición múltiple de 'b' en las líneas: 1, 3, 6", some 3),
         ("Definición múltiple de 'a' en las líneas: 2, 5", some 5)] := by
  intro program
  have hlines : ∀ st ∈ program, Text.isShowable st.line = true := by
    intro st hst
    have hsmall : ∀ st ∈ program, st.line.natAbs < 2 ^ 64 := by decide
    exact Text.isShowable_of_natAbs_lt (hsmall st hst)
  obtain ⟨-, hrefused⟩ := checkLabels_complete program hlines
  obtain ⟨failure, report, hcheck, hlayout, -, hreport, -, -⟩ := hrefused (by decide)
  obtain rfl := (checkLabels_eq_error hcheck).1
  obtain rfl := Except.ok.inj ((checkedReport_repeated hlines).symm.trans hreport)
  exact ⟨_, _, hcheck, hlayout, hreport, by decide +kernel⟩

end Program
end Ttk91
