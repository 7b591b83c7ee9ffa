import Ttk91.Proofs.EncoderImage
import Ttk91.Proofs.OperandGrammar

/-! Strict listings of encoded words. The encoder checks the mode that it stores, and a strict
listing checks the mode that it would write. The two differ for an index register without an
address, so one form of operands has words and no strict listing. -/

namespace Ttk91

/-- The highest mode with an index register and no address, for an instruction that needs no memory.
What is written for it is reserved to instructions that do. -/
structure Fields.DoublyIndirect (f : Fields) (i : Instruction) : Prop where
  defaultMode : i.defaultMode = 1
  second : i.format.hasSecond = true
  mode : f.mode = 2
  index : f.index ≠ Register.zero
  address : f.address = 0

instance (f : Fields) (i : Instruction) : Decidable (f.DoublyIndirect i) :=
  decidable_of_iff (i.defaultMode = 1 ∧ i.format.hasSecond = true ∧ f.mode = 2 ∧
      f.index ≠ Register.zero ∧ f.address = 0)
    ⟨fun ⟨hdefault, hsecond, hmode, hindex, haddress⟩ =>
      ⟨hdefault, hsecond, hmode, hindex, haddress⟩,
    fun h => ⟨h.defaultMode, h.second, h.mode, h.index, h.address⟩⟩

/-! The same operands in the source text. -/

/-- The last word of a statement is `@` in front of a register in parentheses other than register 0,
and the address beside the parentheses comes to 0. -/
def Statement.HasNullPointer (st : Statement) (symbols : SymbolTable) : Prop :=
  ∃ (token : Text) (minus : Bool) (before name after : Text) (operand : Operand),
    st.operands.getLast? = some token ∧
    Operand.Parts.Reads ⟨.raise, minus, .indexed before name after⟩ token operand ∧
    operand.register ≠ Register.zero ∧ symbols.Resolves operand.address 0

namespace Operand.Parts

variable {parts : Parts} {token : Text} {operand : Operand}

theorem Reads.exists_indexed (h : parts.Reads token operand) (hmode : operand.mode = 1)
    (hregister : operand.register ≠ Register.zero) :
    ∃ (minus : Bool) (before name after : Text),
      parts = ⟨.raise, minus, .indexed before name after⟩ := by
  obtain ⟨sign, minus, body⟩ := parts
  have hbody := h.body
  cases hbody with
  | register _ _ => cases sign <;> cases hmode
  | indexed _ _ _ _ _ =>
    obtain rfl : sign = .raise := Sign.eq_of_mode_eq hmode
    exact ⟨minus, _, _, _, rfl⟩
  | address _ _ => exact absurd rfl hregister

theorem Reads.mode_of_indexed {minus : Bool} {before name after : Text}
    (h : Reads ⟨.raise, minus, .indexed before name after⟩ token operand) : operand.mode = 1 := by
  have hbody := h.body
  cases hbody
  rfl

end Operand.Parts

theorem OperandValues.Of.exists_second {symbols : SymbolTable} {format : Format}
    {words : List Text} {v : OperandValues} (h : Of symbols format words v)
    (hsecond : format.hasSecond = true) :
    ∃ token operand, words.getLast? = some token ∧ Operand.parse token = .ok operand ∧
      symbols.Resolves operand.address v.address ∧ operand.mode = v.shift ∧
      operand.register = v.index := by
  cases h with
  | bare => cases hsecond
  | first _ => cases hsecond
  | second hoperand haddress => exact ⟨_, _, rfl, hoperand, haddress, rfl, rfl⟩
  | both _ hoperand haddress => exact ⟨_, _, rfl, hoperand, haddress, rfl, rfl⟩

namespace Statement

variable {st : Statement} {symbols : SymbolTable} {i : Instruction} {v : OperandValues} {word : Int}

theorem Encodes.ofOpcode?_eq (h : st.Encodes symbols i v) (hword : st.encode symbols = .ok word) :
    Instruction.ofOpcode? (Fields.ofWord word).opcode = some i := by
  rw [h.ofWord_eq hword]
  exact Instruction.ofOpcode?_of_mem (Instruction.mem_of_named? h.named).1

theorem Encodes.doublyIndirect_iff (h : st.Encodes symbols i v)
    (hword : st.encode symbols = .ok word) :
    (Fields.ofWord word).DoublyIndirect i ↔
      i.defaultMode = 1 ∧ i.format.hasSecond = true ∧ st.HasNullPointer symbols := by
  have hfields := h.ofWord_eq hword
  have hrange := h.address
  constructor
  · intro hdouble
    have hshift : v.shift = 1 := by
      have hmode : i.defaultMode + v.shift = 2 := by simpa [hfields] using hdouble.mode
      have hdefault := hdouble.defaultMode
      omega
    have hindex : v.index ≠ Register.zero := by simpa [hfields] using hdouble.index
    have haddress : v.address = 0 := by
      have hfield : (if v.address ≤ 32767 then v.address else v.address - 65536) = 0 := by
        simpa [hfields] using hdouble.address
      split at hfield <;> omega
    obtain ⟨token, operand, htoken, hparse, hresolves, hmode, hregister⟩ :=
      h.operands.exists_second hdouble.second
    obtain ⟨parts, hparts⟩ := Operand.Parts.exists_reads_of_parse hparse
    obtain ⟨minus, before, name, after, rfl⟩ :=
      hparts.exists_indexed (hmode.trans hshift) (hregister ▸ hindex)
    exact ⟨hdouble.defaultMode, hdouble.second, token, minus, before, name, after, operand, htoken,
      hparts, hregister ▸ hindex, haddress ▸ hresolves⟩
  · rintro ⟨hdefault, hsecond, token, minus, before, name, after, operand, htoken, hparts,
      hregister, hresolves⟩
    obtain ⟨token', operand', htoken', hparse, hresolves', hmode, hindex⟩ :=
      h.operands.exists_second hsecond
    obtain rfl : token' = token := Option.some.inj (htoken'.symm.trans htoken)
    obtain rfl : operand' = operand := Except.ok.inj (hparse.symm.trans hparts.parse_eq)
    have hshift : v.shift = 1 := hmode.symm.trans hparts.mode_of_indexed
    have haddress : v.address = 0 := hresolves'.unique hresolves
    rw [hfields]
    refine ⟨hdefault, hsecond, ?_, hindex ▸ hregister, by simp [haddress]⟩
    simp only
    omega

end Statement

namespace Listing

variable {word : Int} {i : Instruction}

def strict : Rules := ⟨true, false⟩

theorem writtenFor_eq (i : Instruction) (f : Fields) :
    writtenFor i f = writtenMode f.mode f.index.val f.address i.defaultMode := rfl

/-- A rule can only refuse a word; it never changes how the word is listed. -/
theorem instruction_eq_ite (rules : Rules)
    (hfound : Instruction.ofOpcode? (Fields.ofWord word).opcode = some i) :
    instruction rules word =
      if rules.classicOnly = true ∧ i.classic = false ∨
          rules.strict = true ∧
            isValidMode (writtenFor i (Fields.ofWord word)) i.defaultMode = false then unknown
      else instruction lenient word := by
  rw [(instruction_of_found hfound).2.2]
  obtain ⟨isStrict, classicOnly⟩ := rules
  cases hvalid : isValidMode (writtenFor i (Fields.ofWord word)) i.defaultMode <;>
    cases isStrict <;> cases classicOnly <;> cases hclassic : i.classic <;>
    simp [instruction, hfound, hclassic, ← writtenFor_eq, hvalid]

/-- No instruction is listed as an unknown word: its name is made of letters. -/
theorem render_ne_unknown (hi : i ∈ Instruction.all) (f : Fields) : render i f ≠ unknown := by
  intro h
  have hwords := words_render hi f
  rw [h] at hwords
  have hname : i.name = unknown := (List.cons.inj hwords).1.symm
  have hslash : Text.IsCapital '/' :=
    (Instruction.name_spelling hi).2.2 '/' (by simp [hname, unknown])
  exact absurd hslash (by decide)

/-- Of the modes that words are encoded with, all can be written but one. -/
theorem isValidMode_of_emitted {f : Fields} (hi : i ∈ Instruction.all) (h : f.Emitted i)
    (hmode : 0 ≤ f.mode) :
    isValidMode (writtenFor i f) i.defaultMode = false ↔ f.DoublyIndirect i := by
  have hdefault := Instruction.defaultMode_of_mem hi
  rw [writtenFor, writtenMode_eq, isValidMode, decide_eq_false_iff_not]
  by_cases hsecond : i.format.hasSecond = true
  · have hle : f.mode ≤ i.defaultMode + 1 := by
      cases hf : i.format <;> simp_all [Fields.Emitted, Format.hasSecond]
    by_cases hshown : f.address = 0 ∧ f.index ≠ Register.zero
    · rw [if_pos hshown]
      constructor
      · intro hinvalid
        exact ⟨by omega, hsecond, by omega, hshown.2, hshown.1⟩
      · intro hdouble
        have hone := hdouble.defaultMode
        have htwo := hdouble.mode
        omega
    · rw [if_neg hshown]
      constructor
      · intro hinvalid
        omega
      · intro hdouble
        exact absurd ⟨hdouble.address, hdouble.index⟩ hshown
  · have hplain : f.mode = i.defaultMode ∧ f.index = Register.zero := by
      cases hf : i.format <;> simp_all [Fields.Emitted, Format.hasSecond]
    rw [if_neg fun hshown => hshown.2 hplain.2]
    constructor
    · intro hinvalid
      omega
    · intro hdouble
      exact absurd hdouble.second hsecond

/-- An encoded word is listed as an instruction. The strict listing is the same text, unless the
instruction needs no memory and its operand is a null pointer: `@` in front of an index register
with an address of 0. The classic listing refuses that word too, and the extensions. -/
theorem instruction_strict_of_encode {st : Statement} {symbols : SymbolTable}
    (h : st.encode symbols = .ok word) :
    ∃ i, Instruction.named? st.keyword = some i ∧ instruction lenient word ≠ unknown ∧
      instruction strict word =
        (if (Fields.ofWord word).DoublyIndirect i then unknown else instruction lenient word) ∧
      instruction classic word =
        (if (Fields.ofWord word).DoublyIndirect i ∨ i.classic = false then unknown
          else instruction lenient word) ∧
      ((Fields.ofWord word).DoublyIndirect i ↔
        i.defaultMode = 1 ∧ i.format.hasSecond = true ∧ st.HasNullPointer symbols) := by
  obtain ⟨i, v, hencodes⟩ := Statement.exists_encodes_of_encode h
  have hfound := hencodes.ofOpcode?_eq h
  have hmem := (Instruction.mem_of_named? hencodes.named).1
  have hemitted : (Fields.ofWord word).Emitted i := by
    obtain ⟨other, hother, hfields⟩ := Statement.emitted_of_encode h
    obtain rfl := Option.some.inj (hother.symm.trans hfound)
    exact hfields
  have hvalid := isValidMode_of_emitted hmem hemitted (Fields.ofWord_mode_bounds word).1
  refine ⟨i, hencodes.named, ?_, ?_, ?_, hencodes.doublyIndirect_iff h⟩
  · rw [(instruction_of_found hfound).2.2]
    exact render_ne_unknown hmem _
  · rw [instruction_eq_ite strict hfound]
    simp [hvalid, strict]
  · rw [instruction_eq_ite classic hfound]
    simp [hvalid, classic, or_comm]

/-- A symbol for 0 beside an index register behind `@`: the word is listed, but not strictly. The
same operand of a store has a strict listing. -/
theorem instruction_strict_of_encode_null :
    let operands := ["r1".toList, "@zero(r2)".toList]
    let load : Statement := ⟨.code, "load".toList, operands, 1, none, none⟩
    let store : Statement := ⟨.code, "store".toList, operands, 2, none, none⟩
    let symbols : SymbolTable := [("zero".toList, ⟨.constant, 0⟩)]
    (load.encode symbols = .ok 0x02320000 ∧ instruction strict 0x02320000 = unknown ∧
      instruction lenient 0x02320000 = "LOAD  R1, @(R2)".toList) ∧
    store.encode symbols = .ok 0x012A0000 ∧
      instruction strict 0x012A0000 = "STORE R1, @(R2)".toList := by
  intro operands load store symbols
  have hload : load.encode symbols = .ok 0x02320000 := eq_ok_of_toOption (by decide +kernel)
  have hstore : store.encode symbols = .ok 0x012A0000 := eq_ok_of_toOption (by decide +kernel)
  have hloadName :
      Instruction.named? load.keyword = some ⟨"LOAD".toList, 0x02, .both, 1, true⟩ := by
    decide +kernel
  have hstoreName :
      Instruction.named? store.keyword = some ⟨"STORE".toList, 0x01, .both, 0, true⟩ := by
    decide +kernel
  obtain ⟨i, hi, -, hrefused, -, -⟩ := instruction_strict_of_encode hload
  obtain rfl := Option.some.inj (hloadName.symm.trans hi)
  obtain ⟨j, hj, -, hlisted, -, -⟩ := instruction_strict_of_encode hstore
  obtain rfl := Option.some.inj (hstoreName.symm.trans hj)
  refine ⟨⟨hload, ?_, by decide +kernel⟩, hstore, ?_⟩
  · rw [hrefused, if_pos (by decide)]
  · rw [hlisted, if_neg (by decide)]
    decide +kernel

end Listing
end Ttk91
