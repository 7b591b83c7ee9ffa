import Ttk91.Diagnostic
import Ttk91.Source.Operand

/-! Why a program is refused. -/

namespace Ttk91

inductive Fault
  | labelAlone (label : Text)
  | unknownKeyword (keyword : Text)
  | registerAsKeyword (keyword : Text)
  | missingValue (keyword : Text)
  | extraWords (keyword : Text)
  | unreadableValue (cause : Literal.Error)
  | negativeReservation (keyword : Text)
  | emptyReservation (keyword : Text)
  | notData (keyword : Text)
  | notDirective (keyword : Text)
  | secondOrigin
  | labelledDirective (keyword : Text)
  | negativeOrigin (keyword : Text)
  | unnamedConstant
  | wideConstant
  | dataBeyondMemory (last : Int)
  | unknownInstruction (keyword : Text)
  | operandCount (instruction : Instruction) (given : Nat)
  | firstOperand (cause : Register.Error)
  | secondOperand (cause : Operand.Error)
  | unknownAddress (address : Text)
  | modeOutOfRange (mode : Int) (operand : Text)
  | addressOutOfRange (address : Int)
  deriving DecidableEq, Repr

namespace Fault

def category : Fault → Category
  | labelAlone _ | unknownKeyword _ | registerAsKeyword _ => .lexical
  | missingValue _ | extraWords _ | unreadableValue _ | notData _ | notDirective _ | secondOrigin
  | labelledDirective _ | unnamedConstant | unknownInstruction _ | operandCount _ _ => .structural
  | negativeReservation _ | emptyReservation _ | negativeOrigin _ | wideConstant
  | dataBeyondMemory _ | modeOutOfRange _ _ | addressOutOfRange _ => .range
  | firstOperand _ | secondOperand _ | unknownAddress _ => .addressing

private def inQuotes (t : Text) : String := "'" ++ String.ofList t ++ "'"

def message : Fault → String
  | labelAlone label => "Etiqueta " ++ inQuotes label ++ " sin sentencia"
  | unknownKeyword keyword => "Palabra clave desconocida " ++ inQuotes keyword
  | registerAsKeyword keyword =>
    "Registro inesperado " ++ inQuotes keyword ++ " usado como palabra clave"
  | missingValue keyword => "No se indicó valor para " ++ inQuotes keyword
  | extraWords keyword => "Demasiadas palabras para " ++ inQuotes keyword
  | unreadableValue cause => "No se pudo leer el valor: " ++ cause.message
  | negativeReservation keyword =>
    "Reserva de un número negativo de direcciones con " ++ inQuotes keyword
  | emptyReservation keyword => "Reserva de cero direcciones con " ++ inQuotes keyword
  | notData keyword => inQuotes keyword ++ " no es una palabra clave de datos"
  | notDirective keyword => inQuotes keyword ++ " no es una directiva"
  | secondOrigin => "'ORG' ya estaba definido"
  | labelledDirective keyword => "No se puede etiquetar una directiva: " ++ inQuotes keyword
  | negativeOrigin keyword =>
    inQuotes keyword ++ " desplaza el programa a una dirección negativa"
  | unnamedConstant => "Una constante necesita nombre"
  | wideConstant => "Valor fuera de rango"
  | dataBeyondMemory last =>
    "El segmento de datos llega a la dirección " ++ String.ofList (Text.ofInt last)
  | unknownInstruction keyword => "Instrucción desconocida: " ++ String.ofList keyword
  | operandCount instruction given =>
    "Número de operandos inválido para " ++ String.ofList instruction.name ++
      ". Se esperaban " ++ String.ofList (Text.ofNat instruction.format.operands) ++
      ", hay " ++ String.ofList (Text.ofNat given)
  | firstOperand cause => cause.message
  | secondOperand cause => "No se pudo analizar el segundo operando: " ++ cause.message
  | unknownAddress address => "Dirección inválida: " ++ String.ofList address
  | modeOutOfRange mode operand =>
    "Modo " ++ String.ofList (Text.ofInt mode) ++ " fuera de rango en " ++ inQuotes operand
  | addressOutOfRange address =>
    "Dirección " ++ String.ofList (Text.ofInt address) ++ " fuera de rango"

def hint : Fault → Option String
  | labelAlone _ => some "una etiqueta debe ir seguida de una instrucción o directiva"
  | wideConstant => some "las constantes son de 16 bits con signo"
  | dataBeyondMemory _ => some "la última dirección válida es 65535"
  | firstOperand _ => some "el primer operando debe ser un registro"
  | unknownAddress _ => some "no es constante incorporada, símbolo ni literal"
  | modeOutOfRange _ _ => some "revise los signos '=' y '@' para esta instrucción"
  | addressOutOfRange _ => some "el campo de dirección es de 16 bits"
  | _ => none

def numbers : Fault → List Int
  | dataBeyondMemory last => [last]
  | operandCount instruction given => [(instruction.format.operands : Int), (given : Int)]
  | modeOutOfRange mode _ => [mode]
  | addressOutOfRange address => [address]
  | _ => []

end Fault

structure Repeated where
  label : Text
  lines : List Int
  deriving DecidableEq, Repr

namespace Repeated

/-- The diagnostic stands at the second definition. -/
def diagnostic (r : Repeated) : Diagnostic :=
  .error .structural
    ("Definición múltiple de '" ++ String.ofList r.label ++ "' en las líneas: " ++
      String.ofList (Text.join [',', ' '] (r.lines.map Text.ofInt)))
    r.lines[1]? none

end Repeated

/-- Why a program is refused: a fault of one statement, or all its repeated labels together. -/
inductive Failure
  | faulty (line : Int) (fault : Fault)
  | repeated (labels : List Repeated)
  deriving DecidableEq, Repr

namespace Failure

def category : Failure → Category
  | .faulty _ fault => fault.category
  | .repeated _ => .structural

def report : Failure → Report
  | .faulty line fault => .single fault.category fault.message (some line) fault.hint
  | .repeated labels => ⟨none, labels.map Repeated.diagnostic⟩

def numbers : Failure → List Int
  | .faulty line fault => line :: fault.numbers
  | .repeated labels => labels.flatMap Repeated.lines

/-- The report, if all its numbers can be shown. -/
def checkedReport (failure : Failure) : Except Text.NumeralError Report :=
  if failure.numbers.all Text.isShowable then .ok failure.report else .error .tooManyDigits

def locate {α : Type} (line : Int) : Except Fault α → Except Failure α
  | .ok a => .ok a
  | .error fault => .error (.faulty line fault)

end Failure
end Ttk91
