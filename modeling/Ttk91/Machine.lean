import Ttk91.Text.UpperCase
import Ttk91.Text.Decimal

/-! The machine: two's complement on unbounded integers, registers, the fields of an instruction
word, and the instruction repertoire. -/

namespace Ttk91

namespace Bits

inductive Error
  | extension
  | width
  | range
  deriving DecidableEq, Repr

def Error.message : Error → String
  | .extension => "bits debe ser positivo"
  | .width => "n debe ser positivo"
  | .range => "rango de bits inválido"

def modulus (bits : Nat) : Nat := Nat.pow 2 bits

/-- The residue of `x` in `[0, 2 ^ bits)`. -/
def unsigned (bits : Nat) (x : Int) : Int := x % modulus bits

/-- The residue of `x` in `[-2 ^ (bits - 1), 2 ^ (bits - 1))`. -/
def signed (bits : Nat) (x : Int) : Int := x.bmod (modulus bits)

def signExtend (x bits : Int) : Except Error Int :=
  if bits ≤ 0 then .error .extension else .ok (signed bits.toNat x)

def isUnsigned (x n : Int) : Except Error Bool :=
  if n ≤ 0 then .error .width else .ok (decide (0 ≤ x ∧ x < modulus n.toNat))

def isSigned (x n : Int) : Except Error Bool :=
  if n ≤ 0 then .error .width
  else .ok (decide (-modulus (n.toNat - 1) ≤ x ∧ x ≤ modulus (n.toNat - 1) - 1))

/-- Sixteen bits hold `x`, with or without sign. -/
def fitsAddress (x : Int) : Bool := decide (-32768 ≤ x ∧ x ≤ 65535)

def field (value : Int) (high low : Nat) : Int :=
  (value >>> low) % modulus (high + 1 - low)

/-- The fields at the given inclusive ranges, each from its high to its low bit. -/
def fields (value : Int) : List (Int × Int) → Except Error (List Int)
  | [] => .ok []
  | (high, low) :: ranges =>
    if high < low ∨ high < 0 ∨ low < 0 then .error .range
    else (fields value ranges).map (field value high.toNat low.toNat :: ·)

end Bits

/-! The eight registers and their names. -/

abbrev Register := Fin 8

namespace Register

inductive Error
  | notRegister (token : Text)
  | notDecimal (digit : Char)
  | outOfRange (number : Int)
  deriving DecidableEq, Repr

def Error.message : Error → String
  | .notRegister token => "Registro inválido: " ++ String.ofList token
  | .notDecimal digit =>
    "invalid literal for int() with base 10: " ++ String.ofList ['\'', digit, '\'']
  | .outOfRange number => "Número de registro fuera de rango: " ++ String.ofList (Text.ofInt number)

/-- Read a register: `R` with a decimal digit of any script below 8, or `SP` or `FP`. Letter case
and surrounding white space are free. -/
def parse (token : Text) : Except Error Register :=
  match Text.upper (Text.trim token) with
  | ['S', 'P'] => .ok 6
  | ['F', 'P'] => .ok 7
  | ['R', digit] =>
    match Text.decimalValue? digit with
    | some n => if h : n < 8 then .ok ⟨n, h⟩ else .error (.notRegister token)
    | none =>
      if Text.isOtherDigit digit then .error (.notDecimal digit)
      else .error (.notRegister token)
  | _ => .error (.notRegister token)

def isName (token : Text) : Bool := (parse token).isOk

/-- Where a register is optional, register 0 stands for none. -/
def zero : Register := 0

def ofNat (n : Nat) : Register := Fin.ofNat 8 n

def ofInt (number : Int) : Except Error Register :=
  if h : 0 ≤ number ∧ number < 8 then .ok ⟨number.toNat, by omega⟩
  else .error (.outOfRange number)

def numberedName (r : Register) : Text := 'R' :: Text.ofNat r.val

/-- The name in listings, where the last two registers have names of their own. -/
def displayName (r : Register) : Text :=
  if r = 6 then ['S', 'P'] else if r = 7 then ['F', 'P'] else r.numberedName

theorem parse_displayName : (r : Register) → parse r.displayName = .ok r
  | 0 | 1 | 2 | 3 | 4 | 5 | 6 | 7 => rfl

end Register

/-! Instruction words: operation code in bits 31 to 24, first register in 23 to 21, mode in 20 and
19, index register in 18 to 16, address in 15 to 0. -/

/-- The fields of an instruction word; the address has a sign. -/
structure Fields where
  opcode : Int
  first : Register
  mode : Int
  index : Register
  address : Int
  deriving DecidableEq, Repr

namespace Fields

/-- The fields of a word. Words that agree modulo `2 ^ 32` have the same fields. -/
def ofWord (word : Int) : Fields where
  opcode := Bits.field word 31 24
  first := Register.ofNat (Bits.field word 23 21).toNat
  mode := Bits.field word 20 19
  index := Register.ofNat (Bits.field word 18 16).toNat
  address := Bits.signed 16 (Bits.field word 15 0)

/-- The word with the given fields, each cut to its width. -/
def pack (opcode first mode index address : Int) : Int :=
  Bits.signed 32 (Bits.unsigned 8 opcode * 0x1000000 + Bits.unsigned 3 first * 0x200000 +
    Bits.unsigned 2 mode * 0x80000 + Bits.unsigned 3 index * 0x10000 + Bits.unsigned 16 address)

def toWord (f : Fields) : Int := pack f.opcode f.first.val f.mode f.index.val f.address

end Fields

/-! The instruction set: names, operation codes, operand formats and default modes. -/

inductive Format
  | bare
  | first
  | second
  | both
  deriving DecidableEq, Repr

namespace Format

def operands : Format → Nat
  | .bare => 0
  | .first => 1
  | .second => 1
  | .both => 2

end Format

/-- An instruction. Its default mode is 0 where the second operand has to address memory. The
classic repertoire leaves out the extensions. -/
structure Instruction where
  name : Text
  opcode : Nat
  format : Format
  defaultMode : Int
  classic : Bool
  deriving DecidableEq, Repr

namespace Instruction

def all : List Instruction :=
  [⟨"NOP".toList, 0x00, .bare, 1, true⟩,
   ⟨"STORE".toList, 0x01, .both, 0, true⟩,
   ⟨"LOAD".toList, 0x02, .both, 1, true⟩,
   ⟨"IN".toList, 0x03, .both, 1, true⟩,
   ⟨"OUT".toList, 0x04, .both, 1, true⟩,
   ⟨"ADD".toList, 0x11, .both, 1, true⟩,
   ⟨"SUB".toList, 0x12, .both, 1, true⟩,
   ⟨"MUL".toList, 0x13, .both, 1, true⟩,
   ⟨"DIV".toList, 0x14, .both, 1, true⟩,
   ⟨"MOD".toList, 0x15, .both, 1, true⟩,
   ⟨"AND".toList, 0x16, .both, 1, true⟩,
   ⟨"OR".toList, 0x17, .both, 1, true⟩,
   ⟨"XOR".toList, 0x18, .both, 1, true⟩,
   ⟨"SHL".toList, 0x19, .both, 1, true⟩,
   ⟨"SHR".toList, 0x1A, .both, 1, true⟩,
   ⟨"NOT".toList, 0x1B, .first, 1, true⟩,
   ⟨"SHRA".toList, 0x1C, .both, 1, true⟩,
   ⟨"COMP".toList, 0x1F, .both, 1, true⟩,
   ⟨"JUMP".toList, 0x20, .second, 0, true⟩,
   ⟨"JNEG".toList, 0x21, .both, 0, true⟩,
   ⟨"JZER".toList, 0x22, .both, 0, true⟩,
   ⟨"JPOS".toList, 0x23, .both, 0, true⟩,
   ⟨"JNNEG".toList, 0x24, .both, 0, true⟩,
   ⟨"JNZER".toList, 0x25, .both, 0, true⟩,
   ⟨"JNPOS".toList, 0x26, .both, 0, true⟩,
   ⟨"JLES".toList, 0x27, .second, 0, true⟩,
   ⟨"JEQU".toList, 0x28, .second, 0, true⟩,
   ⟨"JGRE".toList, 0x29, .second, 0, true⟩,
   ⟨"JNLES".toList, 0x2A, .second, 0, true⟩,
   ⟨"JNEQU".toList, 0x2B, .second, 0, true⟩,
   ⟨"JNGRE".toList, 0x2C, .second, 0, true⟩,
   ⟨"CALL".toList, 0x31, .both, 0, true⟩,
   ⟨"EXIT".toList, 0x32, .both, 1, true⟩,
   ⟨"PUSH".toList, 0x33, .both, 1, true⟩,
   ⟨"POP".toList, 0x34, .both, 1, true⟩,
   ⟨"PUSHR".toList, 0x35, .first, 1, true⟩,
   ⟨"POPR".toList, 0x36, .first, 1, true⟩,
   ⟨"SVC".toList, 0x70, .both, 1, true⟩,
   ⟨"IEXIT".toList, 0x39, .both, 1, false⟩,
   ⟨"HLT".toList, 0x71, .bare, 1, false⟩,
   ⟨"HCF".toList, 0x72, .bare, 1, false⟩]

theorem names_nodup : (all.map name).Nodup := by decide +kernel

theorem opcodes_nodup : (all.map opcode).Nodup := by decide

def named? (token : Text) : Option Instruction :=
  all.find? fun i => i.name == Text.upper token

def ofOpcode? (code : Int) : Option Instruction :=
  all.find? fun i => (i.opcode : Int) == code

end Instruction

end Ttk91
