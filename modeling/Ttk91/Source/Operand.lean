import Ttk91.Machine

/-! The operands of statements: integer literals, the constants that every program knows, and second
operands with a mode sign, an address and a register. -/

namespace Ttk91

namespace Literal

inductive Error
  | malformed (token : Text)
  | tooManyDigits (count : Nat)
  | tooWide (token : Text)
  | notConstant (name : Text)
  deriving DecidableEq, Repr

def Error.message : Error → String
  | .malformed token => "Literal entero inválido: '" ++ String.ofList token ++ "'"
  | .tooManyDigits count =>
    "Exceeds the limit (4300 digits) for integer string conversion: value has " ++
      String.ofList (Text.ofNat count) ++
      " digits; use sys.set_int_max_str_digits() to increase the limit"
  | .tooWide token => "Literal fuera del rango de 32 bits: '" ++ String.ofList token ++ "'"
  | .notConstant name => String.ofList name ++ " no es una constante incorporada"

/-- Limits of the number formats, device ports, and numbers of system services. -/
def constants : List (Text × Int) :=
  [("SHRT_MAX".toList, 32767),
   ("SHRT_MIN".toList, -32768),
   ("USHRT_MAX".toList, 65535),
   ("INT_MAX".toList, 2147483647),
   ("INT_MIN".toList, -2147483648),
   ("UINT_MAX".toList, -1),
   ("CRT".toList, 0),
   ("KBD".toList, 1),
   ("RTC".toList, 2),
   ("HALT".toList, 11),
   ("READ".toList, 12),
   ("WRITE".toList, 13),
   ("TIME".toList, 14),
   ("DATE".toList, 15)]

def constant? (name : Text) : Option Int := constants.lookup name

def constant (name : Text) : Except Error Int :=
  match constant? name with
  | some value => .ok value
  | none => .error (.notConstant name)

/-- The value of an ASCII digit in a radix up to 16; letters of both cases count. -/
def digit? (radix : Nat) (c : Char) : Option Nat :=
  let n := c.toNat
  let value :=
    if 48 ≤ n ∧ n ≤ 57 then n - 48
    else if 97 ≤ n ∧ n ≤ 102 then n - 87
    else if 65 ≤ n ∧ n ≤ 70 then n - 55
    else 16
  if value < radix then some value else none

/-- The radix that a small letter after a leading zero announces, and the text after it. -/
def splitRadix : Text → Nat × Text
  | '0' :: 'b' :: t => (2, t)
  | '0' :: 'o' :: t => (8, t)
  | '0' :: 'x' :: t => (16, t)
  | t => (10, t)

/-- A plus sign may stand between the radix and the digits. -/
def dropPlus : Text → Text
  | '+' :: t => t
  | t => t

def value? (radix : Nat) (ds : Text) : Option Nat :=
  if ds.isEmpty then none
  else (ds.mapM (digit? radix)).map fun values => values.foldl (fun n d => radix * n + d) 0

/-- The unsigned value of `text`; `token` is the whole literal, for messages. Only decimal digits
are limited in number, and no value has more than 32 bits. -/
def magnitude (token text : Text) : Except Error Nat :=
  let (radix, rest) := splitRadix text
  let ds := dropPlus rest
  match value? radix ds with
  | none => .error (.malformed token)
  | some n =>
    if radix = 10 ∧ Text.maxDigits < ds.length then .error (.tooManyDigits ds.length)
    else if 0xFFFFFFFF < n then .error (.tooWide token)
    else .ok n

/-- Read an integer as a signed number of 32 bits. After a minus sign the radix has to be a small
letter; elsewhere letter case is free. No letter beyond ASCII has a small form that is a digit, a
sign or a radix, so ASCII letters are the only ones to lower. -/
def integer (token : Text) : Except Error Int :=
  match token with
  | '-' :: t => (magnitude token t).map fun n => Bits.signed 32 (-n)
  | t => (magnitude token (t.map Char.toLower)).map fun n => Bits.signed 32 n

def value (token : Text) : Except Error Int :=
  match constant? token with
  | some n => .ok n
  | none => integer token

end Literal

/-- A second operand. Its mode is the distance from the default mode of the instruction; the
address is still a text. -/
structure Operand where
  mode : Int
  register : Register
  address : Text
  deriving DecidableEq, Repr

namespace Operand

/-- Why a text is no second operand; the token is the whole operand. -/
inductive Error
  | negativeRegister (token : Text)
  | unclosed (token : Text)
  | register (cause : Register.Error)
  | bothSides (token : Text)
  deriving DecidableEq, Repr

def Error.message : Error → String
  | .negativeRegister token =>
    "Direccionamiento directo a registro negativo no permitido: '" ++ String.ofList token ++
      "'. El signo menos sólo afecta a la dirección."
  | .unclosed token => "Paréntesis sin cerrar: '" ++ String.ofList token ++ "'"
  | .register cause => cause.message
  | .bothSides token => "Texto a ambos lados del paréntesis: '" ++ String.ofList token ++ "'"

/-- The first character may lower (`=`) or raise (`@`) the mode by one. -/
def splitMode : Text → Int × Text
  | '=' :: t => (-1, t)
  | '@' :: t => (1, t)
  | t => (0, t)

/-- A minus sign in front belongs to the address. -/
def splitMinus : Text → Text × Text
  | '-' :: t => (['-'], t)
  | t => ([], t)

/-- An operand without its signs: a register, which lowers the mode once more, an address with a
register in parentheses before or after it, or a mere address. -/
def parseBody (token : Text) (mode : Int) (minus text : Text) : Except Error Operand :=
  match Register.parse text with
  | .ok r => if minus.isEmpty then .ok ⟨mode - 1, r, []⟩ else .error (.negativeRegister token)
  | .error _ =>
    match Text.cut '(' text with
    | (_, none) => .ok ⟨mode, Register.zero, minus ++ text⟩
    | (before, some inner) =>
      match Text.cut ')' inner with
      | (_, none) => .error (.unclosed token)
      | (name, some after) =>
        match Register.parse name with
        | .error cause => .error (.register cause)
        | .ok r =>
          if !before.isEmpty && !after.isEmpty then .error (.bothSides token)
          else .ok ⟨mode, r, minus ++ before ++ after⟩

def parse (token : Text) : Except Error Operand :=
  let (mode, unsigned) := splitMode token
  let (minus, text) := splitMinus unsigned
  parseBody token mode minus text

end Operand

end Ttk91
