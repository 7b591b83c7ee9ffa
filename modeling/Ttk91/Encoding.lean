import Ttk91.Layout

/-! Encoding instructions into words. -/

namespace Ttk91

namespace SymbolTable

/-- The value of an address text: nothing is 0, then constants, symbols and literals count, in
this order. -/
def resolve (symbols : SymbolTable) (address : Text) : Except Literal.Error Int :=
  if address.isEmpty then .ok 0
  else match Literal.constant? address with
    | some n => .ok n
    | none =>
      match symbols.find? address with
      | some s => .ok s.offset
      | none => Literal.integer address

end SymbolTable

namespace Instruction

def storedMode (defaultMode shift : Int) : Int := defaultMode + shift

/-- The first and the second operand; a missing first operand is register 0, a missing second one
is empty. There is no answer when the number of words is wrong. -/
def assign? (format : Format) (operands : List Text) : Option (Text × Text) :=
  match format, operands with
  | .bare, [] => some (['R', '0'], [])
  | .first, [word] => some (word, [])
  | .second, [word] => some (['R', '0'], word)
  | .both, [word, other] => some (word, other)
  | _, _ => none

def second (instruction : Instruction) (symbols : SymbolTable) (text : Text) :
    Except Fault (Int × Register × Int) :=
  if text.isEmpty then .ok (instruction.defaultMode, Register.zero, 0)
  else match Operand.parse text with
    | .error cause => .error (.secondOperand cause)
    | .ok operand =>
      match SymbolTable.resolve symbols operand.address with
      | .error _ => .error (.unknownAddress operand.address)
      | .ok address =>
        .ok (storedMode instruction.defaultMode operand.mode, operand.register, address)

end Instruction

namespace Statement

def encode (st : Statement) (symbols : SymbolTable) : Except Fault Int :=
  match Instruction.named? st.keyword with
  | none => .error (.unknownInstruction st.keyword)
  | some instruction =>
    match Instruction.assign? instruction.format st.operands with
    | none => .error (.operandCount instruction st.operands.length)
    | some (firstText, secondText) =>
      match Register.parse firstText with
      | .error cause => .error (.firstOperand cause)
      | .ok first =>
        match instruction.second symbols secondText with
        | .error fault => .error fault
        | .ok (mode, index, address) =>
          if ¬(0 ≤ mode ∧ mode ≤ 2) then .error (.modeOutOfRange mode secondText)
          else if Bits.fitsAddress address = false then .error (.addressOutOfRange address)
          else .ok (Fields.pack instruction.opcode first.val mode index.val address)

end Statement

structure CodeWord where
  word : Int
  address : Int
  keyword : Text
  deriving DecidableEq, Repr

namespace Program

def encode (symbols : SymbolTable) (address : Int) : Program → Except Failure (List CodeWord)
  | [] => .ok []
  | st :: rest =>
    if st.kind = .code then
      match st.encode symbols with
      | .error fault => .error (.faulty st.line fault)
      | .ok word => (encode symbols (address + 1) rest).map (⟨word, address, st.keyword⟩ :: ·)
    else encode symbols address rest

end Program
end Ttk91
