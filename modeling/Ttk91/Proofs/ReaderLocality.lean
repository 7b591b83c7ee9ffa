import Ttk91.Proofs.NormalForm

/-! Where the reading of an image is decided. Either the lines come to an end too early, or there is
one line that decides: no line behind it counts, and an error names it. Only a missing section is
reported without a line, since it is on none. -/

namespace Ttk91

theorem Text.lines_eq_nil_iff {t : Text} : lines t = [] ↔ t = [] := by
  constructor
  · intro h
    fun_cases lines t with
    | case1 => rfl
    | case2 | case3 => simp_all [lines]
    | case4 | case5 => simp_all [lines]
  · rintro rfl
    exact lines_nil

namespace Image

variable {state next : State} {line : Text} {problem : Problem} {part : Part}

/-! What a line can be refused for. -/

def Problem.numbers : Problem → List Int
  | .repeatedComment address => [address]
  | _ => []

/-- A problem of a line itself, whose message can be shown. -/
def Problem.OfLine : Problem → Prop
  | .unexpectedEnd | .missingSection _ => False
  | .repeatedComment address => Text.isShowable address = true
  | _ => True

theorem Problem.OfLine.ne_missingSection (h : problem.OfLine) (part : Part) :
    problem ≠ .missingSection part := by
  rintro rfl
  exact h

theorem Problem.OfLine.isShowable (h : problem.OfLine) :
    ∀ n ∈ problem.numbers, Text.isShowable n = true := by
  cases problem with
  | repeatedComment address => simpa [numbers, OfLine] using h
  | _ => simp [numbers]

theorem Problem.OfLine.onLine_eq (h : problem.OfLine) (n : Nat) :
    ReadError.onLine n problem = ⟨problem, some n⟩ := by
  cases problem with
  | missingSection part => exact absurd rfl (h.ne_missingSection part)
  | _ => rfl

theorem ofLine_of_readBounds (h : readBounds line = .error problem) : problem.OfLine := by
  unfold readBounds at h
  split at h
  · split at h
    · split at h
      · cases h
        trivial
      · cases h
    · cases h
      trivial
  · cases h
    trivial

theorem ofLine_of_readSymbol {table : Table Text Int} (h : readSymbol table line = .error problem) :
    problem.OfLine := by
  unfold readSymbol at h
  split at h
  · split at h
    · cases h
      trivial
    · split at h
      · cases h
        trivial
      · cases h
  · cases h
    trivial

/-- The address in the message was read, so it can be shown again. -/
theorem ofLine_of_readComment {table : Table Int Text}
    (h : readComment table line = .error problem) : problem.OfLine := by
  unfold readComment at h
  split at h
  · cases h
    trivial
  · split at h
    · cases h
      trivial
    · rename_i address haddress
      split at h
      · cases h
        exact Text.isShowable_of_toInt? haddress
      · cases h

/-! Sections that have not been opened. -/

def State.Lacks (part : Part) : State → Prop
  | .header => True
  | .sections draft => draft.get part = none
  | .bounds draft current => draft.get part = none ∧ current ≠ part
  | .words draft current _ _ _ _ => draft.get part = none ∧ current ≠ part
  | .symbols draft _ => draft.get part = none
  | .comments draft _ _ => draft.get part = none

theorem get_eq_none_of_set {draft : Draft} {s : Segment} {current : Part}
    (h : (draft.set s current).get part = none) : draft.get part = none ∧ current ≠ part := by
  cases current <;> cases part <;> simp_all [Draft.set, Draft.get]

theorem lacks_of_expectWords {draft : Draft} {current : Part} {start last : Int} {missing : Nat}
    {read : List Int} (h : (expectWords draft current start last missing read).Lacks part) :
    draft.get part = none ∧ current ≠ part := by
  unfold expectWords at h
  split at h
  · exact get_eq_none_of_set h
  · exact h

/-! The lines that open a section. -/

theorem marker_injective {current : Part} (h : current.marker = part.marker) : current = part := by
  cases current <;> cases part <;> first | rfl | exact absurd h (by decide)

theorem ne_marker_of_mem
    (h : line ∈ [[], Marker.header, Marker.symbols, Marker.comments, Marker.finish]) :
    line ≠ part.marker := by
  have hall : ∀ other ∈ [[], Marker.header, Marker.symbols, Marker.comments, Marker.finish],
      other ≠ Marker.code ∧ other ≠ Marker.data := by decide
  cases part with
  | code => exact (hall line h).1
  | data => exact (hall line h).2

theorem ne_marker_of_readBounds {bounds : Int × Int} (h : readBounds line = .ok bounds) :
    line ≠ part.marker := by
  rintro rfl
  cases part <;> cases h

theorem ne_marker_of_word {word : Int} (h : Text.toInt? (Text.trim line) = some word) :
    line ≠ part.marker := by
  rintro rfl
  have hnone : Text.toInt? (Text.trim part.marker) = none := by cases part <;> decide +kernel
  rw [hnone] at h
  cases h

theorem ne_marker_of_readSymbol {table : Table Text Int} {entry : Text × Int}
    (h : readSymbol table line = .ok entry) : line ≠ part.marker := by
  rintro rfl
  cases part <;> cases h

theorem ne_marker_of_readComment {table : Table Int Text} {entry : Int × Text}
    (h : readComment table line = .ok entry) : line ≠ part.marker := by
  rintro rfl
  cases part <;> cases h

/-! Single steps. -/

/-- What a line may come to. It is refused for a problem of its own, or because it is the end marker
and a section is lacking. A section that is lacking after the line was lacking before, and the line
did not open it. -/
def Allowed (state : State) (line : Text) : Except Problem Progress → Prop
  | .error problem => problem.OfLine ∨
    ∃ part, problem = .missingSection part ∧ line = Marker.finish ∧ state.Lacks part
  | .ok (.more next) => ∀ part : Part, next.Lacks part → state.Lacks part ∧ line ≠ part.marker
  | .ok (.done _) => True

theorem allowed_openSection (draft : Draft) (hline : line = part.marker) :
    Allowed (.sections draft) line (openSection draft part) := by
  unfold openSection
  split
  · exact Or.inl trivial
  · intro other hnext
    exact ⟨hnext.1, fun h => hnext.2 (marker_injective (hline.symm.trans h))⟩

theorem allowed_complete {draft : Draft} (symbols : Table Text Int) (comments : Table Int Text)
    (hline : line = Marker.finish) (hdraft : ∀ part, draft.get part = none → state.Lacks part) :
    Allowed state line ((draft.complete symbols comments).map Progress.done) := by
  unfold Draft.complete
  split
  · rename_i hcode
    exact Or.inr ⟨.code, rfl, hline, hdraft .code hcode⟩
  · rename_i hdata _
    exact Or.inr ⟨.data, rfl, hline, hdraft .data hdata⟩
  · trivial

theorem allowed_step (state : State) (line : Text) : Allowed state line (step state line) := by
  cases state with
  | header =>
    simp only [step]
    split
    · rename_i hheader
      exact fun part _ => ⟨trivial, ne_marker_of_mem (by simp [hheader])⟩
    · exact Or.inl trivial
  | sections draft =>
    simp only [step]
    split
    · rename_i hempty
      exact fun part hnext => ⟨hnext, ne_marker_of_mem (by simp [List.isEmpty_iff.mp hempty])⟩
    · split
      · rename_i hcode
        exact allowed_openSection draft hcode
      · split
        · rename_i hdata
          exact allowed_openSection draft hdata
        · split
          · rename_i hsymbols
            exact fun part hnext => ⟨hnext, ne_marker_of_mem (by simp [hsymbols])⟩
          · exact Or.inl trivial
  | bounds draft current =>
    simp only [step]
    split
    · rename_i hread
      exact Or.inl (ofLine_of_readBounds hread)
    · rename_i hread
      exact fun part hnext => ⟨lacks_of_expectWords hnext, ne_marker_of_readBounds hread⟩
  | words draft current start last missing read =>
    simp only [step]
    split
    · exact Or.inl trivial
    · rename_i hword
      exact fun part hnext => ⟨lacks_of_expectWords hnext, ne_marker_of_word hword⟩
  | symbols draft table =>
    simp only [step]
    split
    · rename_i hfinish
      exact allowed_complete table [] hfinish fun part hdraft => hdraft
    · split
      · rename_i hcomments
        exact fun part hnext => ⟨hnext, ne_marker_of_mem (by simp [hcomments])⟩
      · split
        · rename_i hread
          exact Or.inl (ofLine_of_readSymbol hread)
        · rename_i hread
          exact fun part hnext => ⟨hnext, ne_marker_of_readSymbol hread⟩
  | comments draft names table =>
    simp only [step]
    split
    · rename_i hfinish
      exact allowed_complete names table hfinish fun part hdraft => hdraft
    · split
      · rename_i hread
        exact Or.inl (ofLine_of_readComment hread)
      · rename_i hread
        exact fun part hnext => ⟨hnext, ne_marker_of_readComment hread⟩

theorem lacks_of_step (h : step state line = .ok (.more next)) (hnext : next.Lacks part) :
    state.Lacks part ∧ line ≠ part.marker := by
  have hallowed := allowed_step state line
  rw [h] at hallowed
  exact hallowed part hnext

theorem step_eq_error (h : step state line = .error problem) :
    problem.OfLine ∨
      ∃ part, problem = .missingSection part ∧ line = Marker.finish ∧ state.Lacks part := by
  have hallowed := allowed_step state line
  rw [h] at hallowed
  exact hallowed

/-! Runs of the reader. -/

/-- What the reader can report once it has taken the lines `taken` in a state, and `count` lines
before: a problem of the last one, or a section that none of them opens. -/
inductive Reports (state : State) (count : Nat) (taken : List Text) : ReadError → Prop
  | onLine {problem : Problem} (h : problem.OfLine) :
    Reports state count taken ⟨problem, some (count + taken.length)⟩
  | missing {part : Part} (hstate : state.Lacks part) (hmarker : part.marker ∉ taken)
    (hlast : taken.getLast? = some Marker.finish) :
    Reports state count taken ⟨.missingSection part, none⟩

theorem reports_of_step (h : step state line = .error problem) (count : Nat) :
    Reports state count [line] (.onLine (count + 1) problem) := by
  rcases step_eq_error h with hline | ⟨part, rfl, rfl, hlacks⟩
  · rw [hline.onLine_eq]
    exact .onLine hline
  · refine .missing hlacks ?_ rfl
    rw [List.mem_singleton]
    exact Ne.symm (ne_marker_of_mem (by simp))

theorem Reports.cons {count : Nat} {taken : List Text} {e : ReadError}
    (hstep : step state line = .ok (.more next)) (h : Reports next (count + 1) taken e) :
    Reports state count (line :: taken) e := by
  cases h with
  | onLine h =>
    have hcount : count + 1 + taken.length = count + (line :: taken).length := by
      rw [List.length_cons]
      omega
    rw [hcount]
    exact .onLine h
  | missing hstate hmarker hlast =>
    have hlacks := lacks_of_step hstep hstate
    refine .missing hlacks.1 ?_ (by simp [List.getLast?_cons, hlast])
    rw [List.mem_cons, not_or]
    exact ⟨Ne.symm hlacks.2, hmarker⟩

/-- The first `n` lines decide: fewer of them come to an end too early, and nothing behind them
makes a difference. -/
structure Stops (state : State) (count : Nat) (lines : List Text) (n : Nat)
    (outcome : Except ReadError Image) : Prop where
  pos : 0 < n
  le : n ≤ lines.length
  few : ∀ k < n, readFrom state count (lines.take k) = .error (.atEnd (count + k))
  enough : ∀ more, readFrom state count (lines.take n ++ more) = outcome
  reports : ∀ e, outcome = .error e → Reports state count (lines.take n) e

theorem stops_of_error (h : step state line = .error problem) (count : Nat) (rest : List Text) :
    Stops state count (line :: rest) 1 (.error (.onLine (count + 1) problem)) where
  pos := Nat.one_pos
  le := by simp
  few k hk := by
    obtain rfl : k = 0 := by omega
    rfl
  enough more := by simp [readFrom, h]
  reports e he := Except.error.inj he ▸ reports_of_step h count

theorem stops_of_done {image : Image} (h : step state line = .ok (.done image)) (count : Nat)
    (rest : List Text) : Stops state count (line :: rest) 1 (.ok image) where
  pos := Nat.one_pos
  le := by simp
  few k hk := by
    obtain rfl : k = 0 := by omega
    rfl
  enough more := by simp [readFrom, h]
  reports := nofun

theorem Stops.cons {count n : Nat} {rest : List Text} {outcome : Except ReadError Image}
    (hstep : step state line = .ok (.more next)) (h : Stops next (count + 1) rest n outcome) :
    Stops state count (line :: rest) (n + 1) outcome where
  pos := Nat.succ_pos n
  le := Nat.succ_le_succ h.le
  few k hk := by
    cases k with
    | zero => rfl
    | succ k =>
      rw [List.take_succ_cons, readFrom, hstep]
      simp only [h.few k (by omega)]
      rw [Nat.add_assoc, Nat.add_comm 1 k]
  enough more := by
    rw [List.take_succ_cons, List.cons_append, readFrom, hstep]
    exact h.enough more
  reports e he := (h.reports e he).cons hstep

/-- Every run comes to an end too early, or stops at one of the lines. -/
theorem atEnd_or_stops (state : State) (count : Nat) (lines : List Text) :
    readFrom state count lines = .error (.atEnd (count + lines.length)) ∨
      ∃ n, Stops state count lines n (readFrom state count lines) := by
  induction lines generalizing state count with
  | nil => exact Or.inl rfl
  | cons line rest ih =>
    rw [readFrom]
    cases hstep : step state line with
    | error problem => exact Or.inr ⟨1, stops_of_error hstep count rest⟩
    | ok progress =>
      cases progress with
      | done image => exact Or.inr ⟨1, stops_of_done hstep count rest⟩
      | more next =>
        rcases ih next (count + 1) with hend | ⟨n, hstops⟩
        · left
          simp only [hend, List.length_cons]
          rw [Nat.add_assoc, Nat.add_comm 1]
        · exact Or.inr ⟨n + 1, hstops.cons hstep⟩

/-! Texts. -/

/-- What is known about the error of a text: its line is one of the text, and there is none only
without any lines or for a section that the text lacks. -/
structure Located (text : Text) (e : ReadError) : Prop where
  line_bounds : ∀ n, e.line = some n → 1 ≤ n ∧ n ≤ (Text.lines text).length
  line_eq_none_iff : e.line = none ↔ text = [] ∨ ∃ part, e.problem = .missingSection part
  missing : ∀ part, e.problem = .missingSection part →
    ∃ n, (Text.lines text)[n]? = some Marker.finish ∧
      part.marker ∉ (Text.lines text).take (n + 1)
  isShowable : ∀ n ∈ e.problem.numbers, Text.isShowable n = true

/-- Line number `n` decides about a text: any text with the same lines up to that one has the same
outcome, an error that is on a line is on this one, and no text that ends before it is complete. -/
structure DecidedAt (text : Text) (n : Nat) : Prop where
  bounds : 1 ≤ n ∧ n ≤ (Text.lines text).length
  same : ∀ other, (Text.lines other).take n = (Text.lines text).take n → parse other = parse text
  line : ∀ e m, parse text = .error e → e.line = some m → m = n
  fewer : ∀ other, Text.lines other <+: Text.lines text → (Text.lines other).length < n →
    parse other = .error (.atEnd (Text.lines other).length)

variable {text : Text} {n : Nat}

theorem Stops.decidedAt (h : Stops .header 0 (Text.lines text) n (parse text)) :
    DecidedAt text n where
  bounds := ⟨h.pos, h.le⟩
  same other hother := by
    rw [parse, ← List.take_append_drop n (Text.lines other), hother]
    exact h.enough _
  line e m he hline := by
    have hreports := h.reports e he
    cases hreports with
    | onLine _ =>
      rw [List.length_take, Nat.min_eq_left h.le, Nat.zero_add] at hline
      exact (Option.some.inj hline).symm
    | missing _ _ _ => cases hline
  fewer other hcut hlength := by
    have hfew := h.few (Text.lines other).length hlength
    rw [← List.prefix_iff_eq_take.mp hcut, Nat.zero_add] at hfew
    exact hfew

theorem located_atEnd (text : Text) : Located text (.atEnd (Text.lines text).length) where
  line_bounds m hm := by
    unfold ReadError.atEnd at hm
    simp only at hm
    split at hm
    · cases hm
    · obtain rfl := Option.some.inj hm
      omega
  line_eq_none_iff := by
    simp [ReadError.atEnd, Text.lines_eq_nil_iff]
  missing part h := by cases h
  isShowable m hm := by cases hm

theorem Stops.located (h : Stops .header 0 (Text.lines text) n (parse text)) {e : ReadError}
    (he : parse text = .error e) : Located text e := by
  have hlength : ((Text.lines text).take n).length = n := by
    rw [List.length_take, Nat.min_eq_left h.le]
  have hreports := h.reports e he
  cases hreports with
  | onLine hline =>
    refine ⟨fun m hm => ?_, ?_, fun part hpart => absurd hpart (hline.ne_missingSection part),
      hline.isShowable⟩
    · rw [hlength, Nat.zero_add] at hm
      obtain rfl := Option.some.inj hm
      exact ⟨h.pos, h.le⟩
    · constructor
      · intro hnone
        cases hnone
      · rintro (rfl | ⟨part, hpart⟩)
        · have hpos := h.pos
          have hle := h.le
          rw [Text.lines_nil, List.length_nil] at hle
          omega
        · exact absurd hpart (hline.ne_missingSection part)
  | @missing part _ hmarker hlast =>
    refine ⟨nofun, ⟨fun _ => Or.inr ⟨part, rfl⟩, fun _ => rfl⟩, fun other hother => ?_, nofun⟩
    obtain rfl := Problem.missingSection.inj hother
    obtain ⟨m, rfl⟩ : ∃ m, n = m + 1 := ⟨n - 1, by have := h.pos; omega⟩
    refine ⟨m, ?_, hmarker⟩
    rwa [List.getLast?_eq_getElem?, hlength, Nat.add_sub_cancel,
      List.getElem?_take_of_lt (Nat.lt_succ_self m)] at hlast

/-- Reading a text gives an image, or one error that can be shown. Its line is one of the text, and
it has none only if the text is empty or lacks a section. Unless the text came to an end too early,
one of its lines decides, and more lines behind the text change nothing. -/
theorem parse_decided (text : Text) :
    ((∃ image, parse text = .ok image) ∨ ∃ e, parse text = .error e ∧ Located text e) ∧
      ((∀ e, parse text = .error e → e.problem ≠ .unexpectedEnd) →
        (∃ n, DecidedAt text n) ∧
        ∀ (longer : Text) (more : List Text), Text.lines longer = Text.lines text ++ more →
          parse longer = parse text) := by
  rcases atEnd_or_stops .header 0 (Text.lines text) with hend | ⟨n, hstops⟩
  · rw [Nat.zero_add] at hend
    have hparse : parse text = .error (.atEnd (Text.lines text).length) := hend
    exact ⟨Or.inr ⟨_, hparse, located_atEnd text⟩, fun hsettled => absurd rfl (hsettled _ hparse)⟩
  · have hdecided : DecidedAt text n := Stops.decidedAt hstops
    refine ⟨?_, fun _ => ⟨⟨n, hdecided⟩, fun longer more hmore => ?_⟩⟩
    · cases hparse : parse text with
      | ok image => exact Or.inl ⟨image, rfl⟩
      | error e => exact Or.inr ⟨e, rfl, Stops.located hstops hparse⟩
    · apply hdecided.same
      rw [hmore, List.take_append_of_le_length hdecided.bounds.2]

/-- A marker in a place where none is expected, with the lines of an image behind it. -/
theorem parse_decided_unknown :
    let text := "___b91___\n\n___end___".toList
    let longer := "___b91___\n\n___end___\n___code___\n0 -1\n___data___\n0 -1\n".toList
    let e : ReadError := ⟨.unknownSection Marker.finish, some 3⟩
    parse text = .error e ∧ Located text e ∧ parse longer = .error e := by
  intro text longer e
  have hparse : parse text = .error e := by decide +kernel
  have hsettled : ∀ e', parse text = .error e' → e'.problem ≠ .unexpectedEnd := by
    intro e' he'
    obtain rfl := Except.error.inj (hparse.symm.trans he')
    nofun
  have hmore : Text.lines longer = Text.lines text ++
      ["___code___".toList, "0 -1".toList, "___data___".toList, "0 -1".toList] := by decide +kernel
  refine ⟨hparse, ?_, hparse ▸ ((parse_decided text).2 hsettled).2 longer _ hmore⟩
  rcases (parse_decided text).1 with ⟨image, himage⟩ | ⟨e', he', hlocated⟩
  · rw [hparse] at himage
    cases himage
  · obtain rfl := Except.error.inj (hparse.symm.trans he')
    exact hlocated

end Image
end Ttk91
