import Ttk91.Encoding
import Ttk91.Proofs.SourceReader

/-! The faults that each function can give, and the statements that each pass blames. -/

namespace Ttk91

inductive Fault.OfValue : Fault → Prop
  | missingValue (keyword : Text) : OfValue (.missingValue keyword)
  | extraWords (keyword : Text) : OfValue (.extraWords keyword)
  | unreadableValue (cause : Literal.Error) : OfValue (.unreadableValue cause)
  | negativeReservation (keyword : Text) : OfValue (.negativeReservation keyword)
  | emptyReservation (keyword : Text) : OfValue (.emptyReservation keyword)
  | labelledDirective (keyword : Text) : OfValue (.labelledDirective keyword)
  | negativeOrigin (keyword : Text) : OfValue (.negativeOrigin keyword)
  | wideConstant : OfValue .wideConstant

theorem Instruction.second_eq_error {i : Instruction} {symbols : SymbolTable} {text : Text}
    {fault : Fault} (h : i.second symbols text = .error fault) :
    (∃ cause, fault = .secondOperand cause) ∨ ∃ address, fault = .unknownAddress address := by
  unfold second at h
  split at h
  · cases h
  · split at h
    · cases h
      exact Or.inl ⟨_, rfl⟩
    · split at h <;> cases h
      exact Or.inr ⟨_, rfl⟩

namespace Statement

variable {st : Statement} {fault : Fault}

theorem ofValue_of_value (h : st.value = .error fault) : fault.OfValue := by
  unfold value at h
  split at h
  · cases h
    exact .missingValue _
  · split at h <;> cases h
    exact .unreadableValue _
  · cases h
    exact .extraWords _

theorem ofValue_of_reservation (h : st.reservation = .error fault) : fault.OfValue := by
  unfold reservation at h
  split at h
  · rename_i hvalue
    cases h
    exact ofValue_of_value hvalue
  · split at h
    · cases h
      exact .negativeReservation _
    · split at h <;> cases h
      exact .emptyReservation _

theorem ofValue_of_size (h : st.size = .error fault) : fault.OfValue := by
  unfold size at h
  split at h
  · cases h
  · exact ofValue_of_reservation h

theorem ofValue_of_span (h : st.span = .error fault) : fault.OfValue := by
  unfold span at h
  split at h
  · exact ofValue_of_reservation h
  · cases h

theorem ofValue_of_constantValue (h : st.constantValue = .error fault) : fault.OfValue := by
  unfold constantValue at h
  split at h
  · rename_i hvalue
    cases h
    exact ofValue_of_value hvalue
  · split at h <;> cases h
    exact .wideConstant

theorem ofValue_of_originValue (h : st.originValue = .error fault) : fault.OfValue := by
  unfold originValue at h
  split at h
  · cases h
    exact .labelledDirective _
  · split at h
    · rename_i hvalue
      cases h
      exact ofValue_of_value hvalue
    · split at h <;> cases h
      exact .negativeOrigin _

theorem dataWords_eq_error (h : st.dataWords = .error fault) :
    fault.OfValue ∨
      fault = .notData st.keyword ∧ st.keyword ≠ WordKind.dc ∧ st.keyword ≠ WordKind.ds := by
  unfold dataWords at h
  split at h
  · exact Or.inl (ofValue_of_value (map_eq_error.mp h))
  · rename_i hdc
    split at h
    · exact Or.inl (ofValue_of_reservation (map_eq_error.mp h))
    · rename_i hds
      cases h
      exact Or.inr ⟨rfl, hdc, hds⟩

inductive EncodeFault (st : Statement) (symbols : SymbolTable) : Fault → Prop
  | unknownInstruction (hnamed : Instruction.named? st.keyword = none) :
      EncodeFault st symbols (.unknownInstruction st.keyword)
  | operandCount (i : Instruction) : EncodeFault st symbols (.operandCount i st.operands.length)
  | firstOperand (cause : Register.Error) : EncodeFault st symbols (.firstOperand cause)
  | secondOperand (cause : Operand.Error) : EncodeFault st symbols (.secondOperand cause)
  | unknownAddress (address : Text) : EncodeFault st symbols (.unknownAddress address)
  | modeOutOfRange {i : Instruction} {text : Text} {mode address : Int} {index : Register}
      (hnamed : Instruction.named? st.keyword = some i)
      (hsecond : i.second symbols text = .ok (mode, index, address)) :
      EncodeFault st symbols (.modeOutOfRange mode text)
  | addressOutOfRange {i : Instruction} {text : Text} {mode address : Int} {index : Register}
      (hsecond : i.second symbols text = .ok (mode, index, address)) :
      EncodeFault st symbols (.addressOutOfRange address)

theorem encodeFault_of_encode {symbols : SymbolTable} (h : st.encode symbols = .error fault) :
    st.EncodeFault symbols fault := by
  unfold encode at h
  split at h
  · rename_i hnamed
    cases h
    exact .unknownInstruction hnamed
  · rename_i i hnamed
    split at h
    · cases h
      exact .operandCount i
    · split at h
      · cases h
        exact .firstOperand _
      · split at h
        · rename_i hsecond
          cases h
          rcases Instruction.second_eq_error hsecond with ⟨cause, rfl⟩ | ⟨address, rfl⟩
          · exact .secondOperand cause
          · exact .unknownAddress address
        · rename_i hsecond
          split at h
          · cases h
            exact .modeOutOfRange hnamed hsecond
          · split at h <;> cases h
            exact .addressOutOfRange hsecond

end Statement

namespace Program

variable {program : Program} {failure : Failure}

theorem originAfter_eq_error {found : Option Int}
    (h : originAfter found program = .error failure) :
    ∃ st ∈ program, st.kind = .directive ∧ ∃ fault, failure = .faulty st.line fault ∧
      (fault.OfValue ∨ fault = .secondOrigin ∨
        fault = .notDirective st.keyword ∧ st.keyword ≠ WordKind.org) := by
  fun_induction originAfter found program with
  | case1 => cases h
  | case2 found st rest hdirective hkey =>
    cases h
    exact ⟨st, by simp, hdirective, _, rfl, Or.inr (Or.inr ⟨rfl, hkey⟩)⟩
  | case3 found st rest hdirective =>
    cases h
    exact ⟨st, by simp, hdirective, _, rfl, Or.inr (Or.inl rfl)⟩
  | case4 found st rest hdirective hkey hfound fault hfault =>
    cases h
    exact ⟨st, by simp, hdirective, _, rfl, Or.inl (Statement.ofValue_of_originValue hfault)⟩
  | case5 found st rest hdirective hkey hfound n hn ih =>
    obtain ⟨st', hmem, hblamed⟩ := ih h
    exact ⟨st', by simp [hmem], hblamed⟩
  | case6 found st rest hdirective ih =>
    obtain ⟨st', hmem, hblamed⟩ := ih h
    exact ⟨st', by simp [hmem], hblamed⟩

theorem dataSegment_eq_error (h : dataSegment program = .error failure) :
    ∃ st ∈ program, st.kind = .data ∧ ∃ fault, failure = .faulty st.line fault ∧
      st.dataWords = .error fault := by
  fun_induction dataSegment program with
  | case1 => cases h
  | case2 st rest hdata fault hfault =>
    cases h
    exact ⟨st, by simp, hdata, fault, rfl, hfault⟩
  | case3 st rest hdata words hwords ih =>
    obtain ⟨st', hmem, hblamed⟩ := ih (map_eq_error.mp h)
    exact ⟨st', by simp [hmem], hblamed⟩
  | case4 st rest hdata ih =>
    obtain ⟨st', hmem, hblamed⟩ := ih h
    exact ⟨st', by simp [hmem], hblamed⟩

theorem encode_eq_error {symbols : SymbolTable} {address : Int}
    (h : encode symbols address program = .error failure) :
    ∃ st ∈ program, st.kind = .code ∧ ∃ fault, failure = .faulty st.line fault ∧
      st.encode symbols = .error fault := by
  fun_induction encode symbols address program with
  | case1 => cases h
  | case2 address st rest hcode fault hfault =>
    cases h
    exact ⟨st, by simp, hcode, fault, rfl, hfault⟩
  | case3 address st rest hcode word hword ih =>
    obtain ⟨st', hmem, hblamed⟩ := ih (map_eq_error.mp h)
    exact ⟨st', by simp [hmem], hblamed⟩
  | case4 address st rest hcode ih =>
    obtain ⟨st', hmem, hblamed⟩ := ih h
    exact ⟨st', by simp [hmem], hblamed⟩

end Program
end Ttk91
