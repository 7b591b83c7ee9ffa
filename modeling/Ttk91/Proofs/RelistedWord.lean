import Ttk91.Proofs.EncoderDomain
import Ttk91.Proofs.ListedInstruction

/-! Any word at all, listed and encoded again: the result is the canonical form of the word, and
only listings with an unknown instruction or an unknown mode have none. -/

namespace Ttk91

/-- Read a text on its own and encode its instructions, without any symbols. -/
def encodeAlone (text : Text) : Except Failure (List CodeWord) := do
  let program ← Program.parse text
  program.encode [] 0

theorem encodeAlone_line {text : Text} {st : Statement} (hne : text ≠ [])
    (hbreak : ∀ c ∈ text, Text.isBreak c = false)
    (hline : Statement.ofLine 1 text = .ok (some st)) (hkind : st.kind = .code) :
    encodeAlone text =
      (Failure.locate st.line (st.encode [])).map fun word => [⟨word, 0, st.keyword⟩] := by
  have hparse : Program.parse text = .ok [st] := by
    rw [Program.parse, Text.lines_line hne hbreak, Program.ofLines]
    simp [hline, Program.ofLines, Except.map]
  rw [encodeAlone, hparse]
  cases hword : st.encode [] <;>
    simp [bind, Except.bind, Program.encode, hkind, hword, Failure.locate, Except.map]

theorem encodeAlone_unknown :
    encodeAlone Listing.unknown = .error (.faulty 1 (.labelAlone Listing.unknown)) := rfl

/-! Operands with an unknown sign. The sign is no part of the grammar, so it ends up in front of the
address, where no constant and no literal can start with it. -/

theorem Literal.constant?_marked (t : Text) : Literal.constant? ('?' :: t) = none := by
  cases h : Literal.constant? ('?' :: t) with
  | none => rfl
  | some n =>
    have hhead : ∀ entry ∈ Literal.constants, entry.1.head? ≠ some '?' := by decide
    exact absurd rfl (hhead _ (Literal.mem_constants_of_constant? h))

theorem Literal.integer_marked (t : Text) :
    Literal.integer ('?' :: t) = .error (.malformed ('?' :: t)) := rfl

theorem SymbolTable.not_resolves_marked (t : Text) (n : Int) :
    ¬ SymbolTable.Resolves [] ('?' :: t) n := by
  intro h
  cases h with
  | constant _ h => simp [Literal.constant?_marked] at h
  | symbol _ _ h => simp [Table.find?] at h
  | literal _ _ _ h => simp [Literal.integer_marked] at h

theorem Operand.address_marked {t : Text} (hblank : ∀ c ∈ '?' :: t, Text.isBlank c = false)
    {operand : Operand} (h : Operand.parse ('?' :: t) = .ok operand) :
    ∃ u, operand.address = '?' :: u := by
  obtain ⟨e, he⟩ := Register.exists_parse_eq_error_of_head (by decide) (by decide) hblank
  have hcut : Text.cut '(' ('?' :: t) = ('?' :: (Text.cut '(' t).1, (Text.cut '(' t).2) := rfl
  have hbody : Operand.parse ('?' :: t) = Operand.parseBody ('?' :: t) 0 [] ('?' :: t) := rfl
  rw [hbody, Operand.parseBody, he, hcut] at h
  generalize Text.cut '(' t = parts at h
  obtain ⟨before, inner | inner⟩ := parts
  · cases h
    exact ⟨t, rfl⟩
  · simp only at h
    split at h
    · cases h
    · rename_i name after hclose
      split at h
      · cases h
      · split at h
        · cases h
        · cases h
          exact ⟨before ++ after, rfl⟩

theorem Instruction.exists_second_marked (i : Instruction) {t : Text}
    (hblank : ∀ c ∈ '?' :: t, Text.isBlank c = false) :
    ∃ fault, i.second [] ('?' :: t) = .error fault := by
  cases h : i.second [] ('?' :: t) with
  | error fault => exact ⟨fault, rfl⟩
  | ok values =>
    obtain ⟨operand, hoperand, hresolves, -⟩ := Instruction.second_eq_ok_iff.mp h
    obtain ⟨u, hu⟩ := Operand.address_marked hblank hoperand
    rw [hu] at hresolves
    exact absurd hresolves (SymbolTable.not_resolves_marked u _)

/-! Listed words. -/

namespace Listing

theorem modeSign_eq_mark_iff {written : Int} :
    modeSign written = '?' ↔ written < -1 ∨ 2 < written := by
  unfold modeSign
  split
  · simp only [Char.reduceEq, false_iff]
    omega
  · split
    · simp only [Char.reduceEq, false_iff]
      omega
    · split
      · simp only [Char.reduceEq, false_iff]
        omega
      · simp only [true_iff]
        omega

def writtenFor (i : Instruction) (f : Fields) : Int :=
  writtenMode f.mode f.index.val f.address i.defaultMode

theorem exists_second_listedOperand {i : Instruction} {f : Fields} (h : 2 < writtenFor i f) :
    ∃ fault, i.second [] (listedOperand i f) = .error fault := by
  have hword : listedOperand i f = '?' :: body (writtenFor i f) f.index f.address := by
    have hne : writtenFor i f ≠ 0 := by omega
    rw [← modeSign_eq_mark_iff.mpr (Or.inr h), ← second_eq]
    exact if_neg hne
  rw [hword]
  apply i.exists_second_marked
  intro c hc
  rw [← hword] at hc
  exact Statement.isBlank_of_isSeparator (Statement.endsWord_eq_false (mem_operandWord hc)).1

/-- Without a sign for its mode, a listed instruction has no word. -/
theorem encode_operandWords_of_gt {i : Instruction} (hi : i ∈ Instruction.all) {f : Fields}
    (hsecond : i.format.hasSecond = true) (hwritten : 2 < writtenFor i f) (line word : Int) :
    Statement.encode ⟨.code, i.name, operandWords i f, line, none, none⟩ [] ≠ .ok word := by
  intro h
  obtain ⟨j, firstText, secondText, _, _, _, _, hnamed, hassign, -, hok, -⟩ :=
    Statement.encode_eq_ok h
  obtain rfl : i = j := Option.some.inj ((Instruction.named?_name hi).symm.trans hnamed)
  have htext : secondText = listedOperand i f := by
    rw [assign?_operandWords, hsecond] at hassign
    exact (Prod.mk.inj (Option.some.inj hassign)).2.symm
  obtain ⟨fault, hfault⟩ := exists_second_listedOperand hwritten
  rw [htext, hfault] at hok
  cases hok

theorem le_writtenFor {i : Instruction} (hi : i ∈ Instruction.all) {f : Fields}
    (hmode : 0 ≤ f.mode) : -1 ≤ writtenFor i f := by
  have hdefault := Instruction.defaultMode_of_mem hi
  rw [writtenFor, writtenMode_eq]
  split <;> omega

/-- The mark of an unknown mode stands in no listing with a known one. -/
theorem gt_of_mem_render {i : Instruction} (hi : i ∈ Instruction.all) {f : Fields}
    (hmode : 0 ≤ f.mode) (h : '?' ∈ render i f) :
    i.format.hasSecond = true ∧ 2 < writtenFor i f := by
  have hname : '?' ∉ i.name := fun hmem =>
    absurd ((Instruction.name_spelling hi).2.2 _ hmem) (by decide)
  have hpadded : '?' ∉ padded i.name := by
    intro hmem
    rcases List.mem_append.mp hmem with hmem | hmem
    · exact hname hmem
    · exact absurd (List.mem_replicate.mp hmem).2 (by decide)
  have hfirst : '?' ∉ f.first.displayName := by
    have hall : ∀ r : Register, '?' ∉ r.displayName := by decide
    exact hall f.first
  have hsecond : '?' ∈ second (writtenFor i f) f.index f.address → 2 < writtenFor i f := by
    intro hmem
    rcases List.mem_cons.mp hmem with hsign | hmem
    · have hlow := le_writtenFor hi hmode
      exact (modeSign_eq_mark_iff.mp hsign.symm).resolve_left (by omega)
    · exact absurd (isOperandChar_of_mem_body hmem) (by decide)
  unfold render at h
  cases hf : i.format <;> simp only [hf, List.append_assoc, List.mem_append, List.mem_cons] at h
  case bare => exact absurd h hname
  case first => exact absurd h (by simp [hpadded, hfirst])
  case second => exact ⟨rfl, hsecond (h.resolve_left hpadded)⟩
  case both =>
    rcases h with h | h | h | h | h
    · exact absurd h hpadded
    · exact absurd h hfirst
    · exact absurd h (by decide)
    · exact absurd h (by decide)
    · exact ⟨rfl, hsecond h⟩

theorem encodeAlone_render {i : Instruction} (hi : i ∈ Instruction.all) (f : Fields) :
    encodeAlone (render i f) =
      (Failure.locate 1 (Statement.encode ⟨.code, i.name, operandWords i f, 1, none, none⟩ [])).map
        fun word => [⟨word, 0, i.name⟩] :=
  encodeAlone_line (render_ne_nil hi f) (fun _ hc => (mem_render hi hc).2) (ofLine_render hi f 1)
    rfl

variable {word : Int} {i : Instruction}

theorem instruction_of_not_found (rules : Rules)
    (h : Instruction.ofOpcode? (Fields.ofWord word).opcode = none) :
    instruction rules word = unknown := by
  simp [instruction, h]

/-- A listing with a known mode is encoded into the canonical form of its word. -/
theorem encodeAlone_of_le (h : Instruction.ofOpcode? (Fields.ofWord word).opcode = some i)
    (hwritten : i.format.hasSecond = false ∨ writtenFor i (Fields.ofWord word) ≤ 2) :
    encodeAlone (instruction lenient word) =
      .ok [⟨((Fields.ofWord word).canonical i).toWord, 0, i.name⟩] := by
  obtain ⟨hi, -, htext⟩ := instruction_of_found h
  have hencode := encode_operandWords hi (Fields.ofWord_mode_bounds word).1
    (Fields.ofWord_address_bounds word) (fun hs => hwritten.resolve_left (by simp [hs])) 1
  rw [htext, encodeAlone_render hi, hencode]
  rfl

theorem encodeAlone_of_gt (h : Instruction.ofOpcode? (Fields.ofWord word).opcode = some i)
    (hsecond : i.format.hasSecond = true) (hwritten : 2 < writtenFor i (Fields.ofWord word)) :
    ∃ failure, encodeAlone (instruction lenient word) = .error failure := by
  obtain ⟨hi, -, htext⟩ := instruction_of_found h
  rw [htext, encodeAlone_render hi]
  cases hencode : Statement.encode
      ⟨.code, i.name, operandWords i (Fields.ofWord word), 1, none, none⟩ [] with
  | error fault => exact ⟨_, rfl⟩
  | ok again => exact absurd hencode (encode_operandWords_of_gt hi hsecond hwritten 1 again)

theorem exists_encodeAlone_iff (word : Int) :
    (∃ words, encodeAlone (instruction lenient word) = .ok words) ↔
      ∃ i, Instruction.ofOpcode? (Fields.ofWord word).opcode = some i ∧
        (i.format.hasSecond = false ∨ writtenFor i (Fields.ofWord word) ≤ 2) := by
  constructor
  · rintro ⟨words, hwords⟩
    cases hfound : Instruction.ofOpcode? (Fields.ofWord word).opcode with
    | none =>
      rw [instruction_of_not_found lenient hfound, encodeAlone_unknown] at hwords
      cases hwords
    | some i =>
      refine ⟨i, rfl, ?_⟩
      cases hsecond : i.format.hasSecond with
      | false => exact Or.inl rfl
      | true =>
        right
        apply Int.not_lt.mp
        intro hgt
        obtain ⟨failure, hfailure⟩ := encodeAlone_of_gt hfound hsecond hgt
        rw [hfailure] at hwords
        cases hwords
  · rintro ⟨i, hfound, hwritten⟩
    exact ⟨_, encodeAlone_of_le hfound hwritten⟩

theorem ofWord_toWord_canonical (hi : i ∈ Instruction.all) (word : Int) :
    Fields.ofWord ((Fields.ofWord word).canonical i).toWord = (Fields.ofWord word).canonical i := by
  have hopcode := Instruction.opcode_lt_of_mem hi
  have hdefault := Instruction.defaultMode_of_mem hi
  have hmode := Fields.ofWord_mode_bounds word
  have haddress := Fields.ofWord_address_bounds word
  have hmode' : 0 ≤ ((Fields.ofWord word).canonical i).mode ∧
      ((Fields.ofWord word).canonical i).mode < 4 := by
    simp only [Fields.canonical]
    split <;> omega
  have haddress' : -2 ^ 15 ≤ ((Fields.ofWord word).canonical i).address ∧
      ((Fields.ofWord word).canonical i).address < 2 ^ 15 := by
    simp only [Fields.canonical]
    split <;> omega
  have hopcode' : 0 ≤ ((Fields.ofWord word).canonical i).opcode ∧
      ((Fields.ofWord word).canonical i).opcode < 256 := by
    simp only [Fields.canonical]
    omega
  exact Fields.ofWord_toWord hopcode' hmode' haddress'

/-- Listing a word and encoding the text again succeeds exactly when the instruction is known and,
if it has a second operand, its written mode is known too. The word that comes out has the
canonical fields: those of the operands that the instruction has, with a mode at most one above the
default. The texts for unknown words and modes are refused. -/
theorem encodeAlone_instruction (word : Int) :
    ((∃ words, encodeAlone (instruction lenient word) = .ok words) ↔
      ∃ i, Instruction.ofOpcode? (Fields.ofWord word).opcode = some i ∧
        (i.format.hasSecond = false ∨ writtenFor i (Fields.ofWord word) ≤ 2)) ∧
    (∀ i words, Instruction.ofOpcode? (Fields.ofWord word).opcode = some i →
      encodeAlone (instruction lenient word) = .ok words →
      ∃ again, words = [⟨again, 0, i.name⟩] ∧ -2 ^ 31 ≤ again ∧ again < 2 ^ 31 ∧
        Fields.ofWord again =
          ⟨(Fields.ofWord word).opcode,
           if i.format.hasFirst then (Fields.ofWord word).first else Register.zero,
           if i.format.hasSecond then min (Fields.ofWord word).mode (i.defaultMode + 1)
             else i.defaultMode,
           if i.format.hasSecond then (Fields.ofWord word).index else Register.zero,
           if i.format.hasSecond then (Fields.ofWord word).address else 0⟩) ∧
    (instruction lenient word = unknown ∨ '?' ∈ instruction lenient word →
      ∃ failure, encodeAlone (instruction lenient word) = .error failure) := by
  have hiff := exists_encodeAlone_iff word
  refine ⟨hiff, ?_, ?_⟩
  · intro i words hfound hwords
    obtain ⟨j, hj, hwritten⟩ := hiff.mp ⟨words, hwords⟩
    obtain rfl : j = i := Option.some.inj (hj.symm.trans hfound)
    obtain ⟨hi, hopcode, -⟩ := instruction_of_found hfound
    have hencode := encodeAlone_of_le hfound hwritten
    refine ⟨((Fields.ofWord word).canonical j).toWord,
      Except.ok.inj (hwords.symm.trans hencode), (Fields.pack_bounds ..).1,
      (Fields.pack_bounds ..).2, ?_⟩
    rw [ofWord_toWord_canonical hi, ← hopcode]
    rfl
  · intro htext
    cases hresult : encodeAlone (instruction lenient word) with
    | error failure => exact ⟨failure, rfl⟩
    | ok words =>
      obtain ⟨i, hfound, hwritten⟩ := hiff.mp ⟨words, hresult⟩
      obtain ⟨hi, -, hrender⟩ := instruction_of_found hfound
      rcases htext with htext | hmark
      · rw [htext, encodeAlone_unknown] at hresult
        cases hresult
      · obtain ⟨hsecond, hgt⟩ :=
          gt_of_mem_render hi (Fields.ofWord_mode_bounds word).1 (hrender ▸ hmark)
        exact absurd (hwritten.resolve_left (by simp [hsecond])) (Int.not_le.mpr hgt)

/-- Two stores that no statement is encoded into: a mode two above the default comes out lowered,
and with a register in place of the address it has no sign. -/
theorem encodeAlone_instruction_store :
    (∃ again, encodeAlone "STORE R1, @5(R0)".toList = .ok [⟨again, 0, "STORE".toList⟩] ∧
      Fields.ofWord 0x01300005 = ⟨0x01, 1, 2, 0, 5⟩ ∧ Fields.ofWord again = ⟨0x01, 1, 1, 0, 5⟩) ∧
    ∃ failure, encodeAlone "STORE R1, ?R2".toList = .error failure := by
  have hlowered : instruction lenient 0x01300005 = "STORE R1, @5(R0)".toList := by decide +kernel
  have hmarked : instruction lenient 0x01320000 = "STORE R1, ?R2".toList := by decide +kernel
  have hfound : Instruction.ofOpcode? (Fields.ofWord 0x01300005).opcode =
      some ⟨"STORE".toList, 0x01, .both, 0, true⟩ := by decide
  obtain ⟨hiff, hfields, -⟩ := encodeAlone_instruction 0x01300005
  obtain ⟨-, -, hrefused⟩ := encodeAlone_instruction 0x01320000
  rw [hlowered] at hiff hfields
  rw [hmarked] at hrefused
  obtain ⟨words, hwords⟩ := hiff.mpr ⟨_, hfound, Or.inr (by decide)⟩
  obtain ⟨again, rfl, -, -, hagain⟩ := hfields _ words hfound hwords
  exact ⟨⟨again, hwords, by decide, hagain⟩, hrefused (Or.inr (by decide))⟩

end Listing
end Ttk91
