import Ttk91.Proofs.Encoder
import Ttk91.Proofs.SourceReader

/-! The domain of the encoder: exactly which statements have a word, and which word that is. No
field loses a bit on the way into it. -/

namespace Ttk91

namespace SymbolTable

/-- What an address text stands for. A constant hides a symbol of its name, and a symbol hides a
literal that is spelled like it. -/
inductive Resolves (symbols : SymbolTable) : Text → Int → Prop
  | empty : Resolves symbols [] 0
  | constant {name : Text} {n : Int} (hne : name ≠ []) (h : Literal.constant? name = some n) :
    Resolves symbols name n
  | symbol {name : Text} {s : Symbol} (hne : name ≠ []) (hconstant : Literal.constant? name = none)
    (h : symbols.find? name = some s) : Resolves symbols name s.offset
  | literal {text : Text} {n : Int} (hne : text ≠ []) (hconstant : Literal.constant? text = none)
    (hsymbol : symbols.find? text = none) (h : Literal.integer text = .ok n) :
    Resolves symbols text n

theorem resolve_eq_ok_iff {symbols : SymbolTable} {text : Text} {n : Int} :
    symbols.resolve text = .ok n ↔ symbols.Resolves text n := by
  constructor
  · intro h
    unfold resolve at h
    split at h
    · rename_i hempty
      obtain rfl := List.isEmpty_iff.mp hempty
      cases h
      exact .empty
    · rename_i hempty
      have hne : text ≠ [] := fun hnil => hempty (List.isEmpty_iff.mpr hnil)
      split at h
      · rename_i m hconstant
        cases h
        exact .constant hne hconstant
      · rename_i hconstant
        split at h
        · rename_i s hsymbol
          cases h
          exact .symbol hne hconstant hsymbol
        · rename_i hsymbol
          exact .literal hne hconstant hsymbol h
  · intro h
    cases h with
    | empty => rfl
    | constant hne h => simp [resolve, hne, h]
    | symbol hne hconstant h => simp [resolve, hne, hconstant, h]
    | literal hne hconstant hsymbol h => simp [resolve, hne, hconstant, hsymbol, h]

theorem Resolves.unique {symbols : SymbolTable} {text : Text} {m n : Int}
    (h : symbols.Resolves text m) (h' : symbols.Resolves text n) : m = n := by
  rw [← resolve_eq_ok_iff] at h h'
  exact Except.ok.inj (h.symm.trans h')

theorem Resolves.eq_zero {symbols : SymbolTable} {n : Int} (h : symbols.Resolves [] n) : n = 0 :=
  h.unique .empty

end SymbolTable

theorem Operand.parse_nil : Operand.parse [] = .ok ⟨0, Register.zero, []⟩ := rfl

theorem Register.parse_zero : Register.parse ['R', '0'] = .ok Register.zero := rfl

/-- What the operands of an instruction come to: the first register, how far the mode moves, the
index register and the address. -/
structure OperandValues where
  first : Register
  shift : Int
  index : Register
  address : Int
  deriving DecidableEq, Repr

namespace OperandValues

/-- The values of the words that follow an instruction's name, one rule for each format. A missing
first operand is register 0; without a second operand nothing moves the mode. -/
inductive Of (symbols : SymbolTable) : Format → List Text → OperandValues → Prop
  | bare : Of symbols .bare [] ⟨Register.zero, 0, Register.zero, 0⟩
  | first {word : Text} {r : Register} (h : Register.parse word = .ok r) :
    Of symbols .first [word] ⟨r, 0, Register.zero, 0⟩
  | second {word : Text} {operand : Operand} {address : Int} (h : Operand.parse word = .ok operand)
    (haddress : symbols.Resolves operand.address address) :
    Of symbols .second [word] ⟨Register.zero, operand.mode, operand.register, address⟩
  | both {word other : Text} {r : Register} {operand : Operand} {address : Int}
    (hfirst : Register.parse word = .ok r) (h : Operand.parse other = .ok operand)
    (haddress : symbols.Resolves operand.address address) :
    Of symbols .both [word, other] ⟨r, operand.mode, operand.register, address⟩

/-- The values, read from the places that the words are assigned to. A missing second operand reads
as the empty one, which moves nothing. -/
theorem of_iff {symbols : SymbolTable} {format : Format} {words : List Text} {v : OperandValues} :
    Of symbols format words v ↔
      ∃ firstText secondText operand,
        Instruction.assign? format words = some (firstText, secondText) ∧
        Register.parse firstText = .ok v.first ∧ Operand.parse secondText = .ok operand ∧
        symbols.Resolves operand.address v.address ∧
        operand.mode = v.shift ∧ operand.register = v.index := by
  constructor
  · intro h
    cases h with
    | bare => exact ⟨_, _, _, rfl, rfl, rfl, .empty, rfl, rfl⟩
    | first hr => exact ⟨_, _, _, rfl, hr, rfl, .empty, rfl, rfl⟩
    | second hoperand hresolves => exact ⟨_, _, _, rfl, rfl, hoperand, hresolves, rfl, rfl⟩
    | both hr hoperand hresolves => exact ⟨_, _, _, rfl, hr, hoperand, hresolves, rfl, rfl⟩
  · obtain ⟨first, shift, index, address⟩ := v
    rintro ⟨firstText, secondText, operand, hassign, hr, hoperand, hresolves, rfl, rfl⟩
    -- Without a word of its own, each operand is the text that stands for it.
    have hzero (h : firstText = ['R', '0']) : first = Register.zero := by
      rw [h, Register.parse_zero] at hr
      exact (Except.ok.inj hr).symm
    have hnone (h : secondText = []) : operand = ⟨0, Register.zero, []⟩ ∧ address = 0 := by
      rw [h, Operand.parse_nil] at hoperand
      obtain rfl := Except.ok.inj hoperand
      exact ⟨rfl, hresolves.eq_zero⟩
    unfold Instruction.assign? at hassign
    split at hassign <;> cases hassign
    · obtain rfl := hzero rfl
      obtain ⟨rfl, rfl⟩ := hnone rfl
      exact .bare
    · obtain ⟨rfl, rfl⟩ := hnone rfl
      exact .first hr
    · obtain rfl := hzero rfl
      exact .second hoperand hresolves
    · exact .both hr hoperand hresolves

end OperandValues

namespace Instruction

variable {i : Instruction} {symbols : SymbolTable}

/-- The empty text needs no case of its own: it is an operand without sign, register and address. -/
theorem second_eq_ok_iff {text : Text} {mode address : Int} {index : Register} :
    i.second symbols text = .ok (mode, index, address) ↔
      ∃ operand, Operand.parse text = .ok operand ∧ symbols.Resolves operand.address address ∧
        mode = i.defaultMode + operand.mode ∧ index = operand.register := by
  cases text with
  | nil =>
    constructor
    · intro h
      cases h
      exact ⟨_, Operand.parse_nil, .empty, (Int.add_zero _).symm, rfl⟩
    · rintro ⟨operand, hoperand, haddress, rfl, rfl⟩
      obtain rfl := Except.ok.inj (Operand.parse_nil.symm.trans hoperand)
      obtain rfl := haddress.eq_zero
      simp [second]
  | cons c t =>
    simp only [second, List.isEmpty_cons, storedMode]
    cases hparse : Operand.parse (c :: t) with
    | error cause => simp
    | ok operand =>
      cases hresolve : symbols.resolve operand.address with
      | error cause =>
        have hno : ¬ symbols.Resolves operand.address address := by
          rw [← SymbolTable.resolve_eq_ok_iff, hresolve]
          simp
        simp [hresolve, hno]
      | ok n =>
        have hiff : symbols.Resolves operand.address address ↔ n = address := by
          rw [← SymbolTable.resolve_eq_ok_iff, hresolve]
          simp
        simp only [hresolve, Bool.false_eq_true, if_false, Except.ok.injEq, Prod.mk.injEq]
        constructor
        · rintro ⟨rfl, rfl, rfl⟩
          exact ⟨operand, rfl, hiff.mpr rfl, rfl, rfl⟩
        · rintro ⟨_, rfl, haddress, rfl, rfl⟩
          exact ⟨rfl, rfl, hiff.mp haddress⟩

end Instruction

namespace Statement

/-- A statement is an instruction with operands of the given values, and they fit their fields. -/
structure Encodes (st : Statement) (symbols : SymbolTable) (i : Instruction) (v : OperandValues) :
    Prop where
  named : Instruction.named? st.keyword = some i
  operands : OperandValues.Of symbols i.format st.operands v
  mode : 0 ≤ i.defaultMode + v.shift ∧ i.defaultMode + v.shift ≤ 2
  address : -32768 ≤ v.address ∧ v.address ≤ 65535

variable {st : Statement} {symbols : SymbolTable}

theorem Encodes.encode_eq {i : Instruction} {v : OperandValues} (h : st.Encodes symbols i v) :
    st.encode symbols =
      .ok (Fields.pack i.opcode v.first.val (i.defaultMode + v.shift) v.index.val v.address) := by
  obtain ⟨firstText, secondText, operand, hassign, hfirst, hoperand, hresolves, hmode, hindex⟩ :=
    OperandValues.of_iff.mp h.operands
  have hsecond : i.second symbols secondText =
      .ok (i.defaultMode + v.shift, v.index, v.address) :=
    Instruction.second_eq_ok_iff.mpr ⟨operand, hoperand, hresolves, by rw [hmode], hindex.symm⟩
  exact encode_of_operands h.named hassign hfirst hsecond h.mode (decide_eq_true h.address)

theorem exists_encodes_of_encode {word : Int} (h : st.encode symbols = .ok word) :
    ∃ i v, st.Encodes symbols i v := by
  obtain ⟨i, firstText, secondText, first, mode, index, address, hnamed, hassign, hfirst, hsecond,
    hpos, hle, hfits, -⟩ := encode_eq_ok h
  obtain ⟨operand, hoperand, hresolves, rfl, rfl⟩ := Instruction.second_eq_ok_iff.mp hsecond
  have hoperands : OperandValues.Of symbols i.format st.operands
      ⟨first, operand.mode, operand.register, address⟩ :=
    OperandValues.of_iff.mpr
      ⟨firstText, secondText, operand, hassign, hfirst, hoperand, hresolves, rfl, rfl⟩
  exact ⟨i, _, hnamed, hoperands, ⟨hpos, hle⟩, of_decide_eq_true hfits⟩

theorem Encodes.ofWord_eq {i : Instruction} {v : OperandValues} {word : Int}
    (h : st.Encodes symbols i v) (hword : st.encode symbols = .ok word) :
    Fields.ofWord word = ⟨i.opcode, v.first, i.defaultMode + v.shift, v.index,
      if v.address ≤ 32767 then v.address else v.address - 65536⟩ := by
  have hopcode := Instruction.opcode_lt_of_mem (Instruction.mem_of_named? h.named).1
  have hmode := h.mode
  rw [h.encode_eq] at hword
  rw [← Except.ok.inj hword, Fields.ofWord_pack v.first v.index v.address (by omega) (by omega),
    Bits.signed_address h.address]

/-- A statement has a word exactly when it is an instruction whose operands can be read and fit
their fields, and then the word has 32 bits and shows these fields unchanged. -/
theorem encode_domain (st : Statement) (symbols : SymbolTable) :
    ((∃ word, st.encode symbols = .ok word) ↔ ∃ i v, st.Encodes symbols i v) ∧
      ∀ word i v, st.encode symbols = .ok word → st.Encodes symbols i v →
        (-2 ^ 31 ≤ word ∧ word < 2 ^ 31) ∧
        Fields.ofWord word = ⟨i.opcode, v.first, i.defaultMode + v.shift, v.index,
          if v.address ≤ 32767 then v.address else v.address - 65536⟩ := by
  refine ⟨⟨?_, ?_⟩, ?_⟩
  · rintro ⟨word, hword⟩
    exact exists_encodes_of_encode hword
  · rintro ⟨i, v, h⟩
    exact ⟨_, h.encode_eq⟩
  · intro word i v hword h
    exact ⟨encode_bounds hword, h.ofWord_eq hword⟩

/-- Small letters, a constant above the signed range in the address, and an index register. -/
theorem encode_domain_wide :
    let st : Statement :=
      ⟨.code, "load".toList, ["fp".toList, "@USHRT_MAX(sp)".toList], 1, none, none⟩
    ∃ word, st.encode [] = .ok word ∧ Fields.ofWord word = ⟨0x02, 7, 2, 6, -1⟩ := by
  intro st
  have h : st.Encodes [] ⟨"LOAD".toList, 0x02, .both, 1, true⟩ ⟨7, 1, 6, 65535⟩ := by
    refine ⟨by decide +kernel, ?_, by decide, by decide⟩
    have hoperand : Operand.parse "@USHRT_MAX(sp)".toList = .ok ⟨1, 6, "USHRT_MAX".toList⟩ :=
      eq_ok_of_toOption (by decide +kernel)
    exact .both (eq_ok_of_toOption (by decide)) hoperand (.constant (by decide) (by decide))
  obtain ⟨word, hword⟩ := (encode_domain st []).1.mpr ⟨_, _, h⟩
  exact ⟨word, hword, ((encode_domain st []).2 word _ _ hword h).2⟩

end Statement
end Ttk91
