import Ttk91.Proofs.Passes
import Ttk91.Proofs.RelistedWord

/-! The image of the encoder: exactly which words of 32 bits some statement is encoded into. Each of
them is also the word of its own listing. -/

namespace Ttk91

/-- The fields that the words of an instruction can have, one rule for each format. Without a first
operand the register is 0; without a second one the mode is the default and nothing is addressed;
with one the mode is at most one above the default. -/
def Fields.Emitted (f : Fields) (i : Instruction) : Prop :=
  match i.format with
  | .bare =>
    f.first = Register.zero ∧ f.mode = i.defaultMode ∧ f.index = Register.zero ∧ f.address = 0
  | .first => f.mode = i.defaultMode ∧ f.index = Register.zero ∧ f.address = 0
  | .second => f.first = Register.zero ∧ f.mode ≤ i.defaultMode + 1
  | .both => f.mode ≤ i.defaultMode + 1

theorem Fields.emitted_iff {f : Fields} {i : Instruction} (hopcode : f.opcode = i.opcode) :
    f.Emitted i ↔ f = f.canonical i := by
  obtain ⟨opcode, first, mode, index, address⟩ := f
  have hmin : mode = min mode (i.defaultMode + 1) ↔ mode ≤ i.defaultMode + 1 := by omega
  cases hf : i.format <;>
    simp_all [Emitted, canonical, Format.hasFirst, Format.hasSecond]

variable {word : Int} {i : Instruction}

theorem Statement.emitted_of_encode {st : Statement} {symbols : SymbolTable}
    (h : st.encode symbols = .ok word) :
    ∃ i, Instruction.ofOpcode? (Fields.ofWord word).opcode = some i ∧
      (Fields.ofWord word).Emitted i := by
  obtain ⟨i, hi, hcanonical⟩ := canonical_of_encode h
  have hopcode : (Fields.ofWord word).opcode = i.opcode := congrArg Fields.opcode hcanonical
  refine ⟨i, ?_, (Fields.emitted_iff hopcode).mpr hcanonical⟩
  rw [hopcode]
  exact Instruction.ofOpcode?_of_mem hi

namespace Listing

theorem writtenFor_le_of_emitted {f : Fields} (h : f.Emitted i)
    (hsecond : i.format.hasSecond = true) : writtenFor i f ≤ 2 := by
  have hmode : f.mode ≤ i.defaultMode + 1 := by
    unfold Fields.Emitted at h
    cases hf : i.format with
    | bare | first =>
      rw [hf] at hsecond
      cases hsecond
    | second =>
      rw [hf] at h
      exact h.2
    | both =>
      rw [hf] at h
      exact h
  rw [writtenFor, writtenMode_eq]
  split <;> omega

theorem encodeAlone_of_emitted (hword : -2 ^ 31 ≤ word ∧ word < 2 ^ 31)
    (hfound : Instruction.ofOpcode? (Fields.ofWord word).opcode = some i)
    (h : (Fields.ofWord word).Emitted i) :
    encodeAlone (instruction lenient word) = .ok [⟨word, 0, i.name⟩] := by
  have hopcode := (instruction_of_found hfound).2.1
  have hcanonical := (Fields.emitted_iff hopcode.symm).mp h
  have hwritten : i.format.hasSecond = false ∨ writtenFor i (Fields.ofWord word) ≤ 2 := by
    cases hs : i.format.hasSecond with
    | false => exact Or.inl rfl
    | true => exact Or.inr (writtenFor_le_of_emitted h hs)
  rw [encodeAlone_of_le hfound hwritten, ← hcanonical, Fields.toWord_ofWord,
    Bits.signed_of_bounds (n := 31) hword]

end Listing

/-- A word of 32 bits is the encoding of some statement under some symbols exactly when its code is
that of an instruction and its fields are emitted for it. No symbols are needed then, and a text to
read the statement from is the listing of the word. -/
theorem exists_encode_iff_emitted (hword : -2 ^ 31 ≤ word ∧ word < 2 ^ 31) :
    ((∃ (st : Statement) (symbols : SymbolTable), st.encode symbols = .ok word) ↔
      ∃ i, Instruction.ofOpcode? (Fields.ofWord word).opcode = some i ∧
        (Fields.ofWord word).Emitted i) ∧
    ∀ (st : Statement) (symbols : SymbolTable), st.encode symbols = .ok word →
      ∃ name, encodeAlone (Listing.instruction Listing.lenient word) = .ok [⟨word, 0, name⟩] := by
  refine ⟨⟨?_, ?_⟩, ?_⟩
  · rintro ⟨st, symbols, h⟩
    exact Statement.emitted_of_encode h
  · rintro ⟨i, hfound, h⟩
    obtain ⟨program, -, hencode⟩ :=
      bind_eq_ok.mp (Listing.encodeAlone_of_emitted hword hfound h)
    have hmem : word ∈ [CodeWord.mk word 0 i.name].map CodeWord.word := by simp
    obtain ⟨st, -, hst⟩ := Program.mem_encode hencode hmem
    exact ⟨st, [], hst⟩
  · intro st symbols h
    obtain ⟨i, hfound, hemitted⟩ := Statement.emitted_of_encode h
    exact ⟨i.name, Listing.encodeAlone_of_emitted hword hfound hemitted⟩

/-- A store with the highest mode it can have is emitted. The same store with the next mode is not,
and neither is the word 0: the default mode of its instruction is another one. -/
theorem exists_encode_iff_emitted_store :
    (∃ (st : Statement) (symbols : SymbolTable), st.encode symbols = .ok 0x0128FFFB) ∧
      (¬ ∃ (st : Statement) (symbols : SymbolTable), st.encode symbols = .ok 0x0130FFFB) ∧
      ¬ ∃ (st : Statement) (symbols : SymbolTable), st.encode symbols = .ok 0 := by
  refine ⟨?_, ?_, ?_⟩
  · have hfound : Instruction.ofOpcode? (Fields.ofWord 0x0128FFFB).opcode =
        some ⟨"STORE".toList, 0x01, .both, 0, true⟩ := by decide
    have hmode : (Fields.ofWord 0x0128FFFB).mode ≤ 0 + 1 := by decide
    exact (exists_encode_iff_emitted (by decide)).1.mpr ⟨_, hfound, hmode⟩
  · intro h
    obtain ⟨i, hfound, hemitted⟩ := (exists_encode_iff_emitted (by decide)).1.mp h
    have hstore : Instruction.ofOpcode? (Fields.ofWord 0x0130FFFB).opcode =
        some ⟨"STORE".toList, 0x01, .both, 0, true⟩ := by decide
    obtain rfl := Option.some.inj (hstore.symm.trans hfound)
    have hmode : (Fields.ofWord 0x0130FFFB).mode ≤ 0 + 1 := hemitted
    exact absurd hmode (by decide)
  · intro h
    obtain ⟨i, hfound, hemitted⟩ := (exists_encode_iff_emitted (by decide)).1.mp h
    have hnop : Instruction.ofOpcode? (Fields.ofWord 0).opcode =
        some ⟨"NOP".toList, 0x00, .bare, 1, true⟩ := by decide
    obtain rfl := Option.some.inj (hnop.symm.trans hfound)
    exact absurd hemitted.2.1 (by decide)

end Ttk91
