import Ttk91.Table
import Ttk91.Source.Statement

/-! The layout of a program: the data segment, its labels and symbols, its origin, and the addresses
of the symbols. -/

namespace Ttk91

/-! Values of statements, and the data segment they make up. -/

namespace Statement

def value (st : Statement) : Except Fault Int :=
  match st.operands with
  | [] => .error (.missingValue st.keyword)
  | [word] =>
    match Literal.value word with
    | .ok n => .ok n
    | .error cause => .error (.unreadableValue cause)
  | _ :: _ :: _ => .error (.extraWords st.keyword)

/-- The positive number of words that a statement reserves. -/
def reservation (st : Statement) : Except Fault Int :=
  match st.value with
  | .error fault => .error fault
  | .ok n =>
    if n < 0 then .error (.negativeReservation st.keyword)
    else if n = 0 then .error (.emptyReservation st.keyword)
    else .ok n

/-- The number of words of a data statement: one for a value, else what it reserves. -/
def size (st : Statement) : Except Fault Int :=
  if st.keyword = WordKind.dc then .ok 1 else st.reservation

def dataWords (st : Statement) : Except Fault (List Int) :=
  if st.keyword = WordKind.dc then st.value.map fun n => [n]
  else if st.keyword = WordKind.ds then st.reservation.map fun n => List.replicate n.toNat 0
  else .error (.notData st.keyword)

end Statement

namespace Program

def dataSegment : Program → Except Failure (List Int)
  | [] => .ok []
  | st :: rest =>
    if st.kind = .data then
      match st.dataWords with
      | .error fault => .error (.faulty st.line fault)
      | .ok words => (dataSegment rest).map (words ++ ·)
    else dataSegment rest

def lastAddress : Int := 65535

/-- Whether the data statements stay in memory when `last` is the address before them; the words
themselves are not built. -/
def checkDataAfter (last : Int) : Program → Except Failure Unit
  | [] => .ok ()
  | st :: rest =>
    if st.kind = .data then
      match st.size with
      | .error fault => .error (.faulty st.line fault)
      | .ok n =>
        if lastAddress < last + n then .error (.faulty st.line (.dataBeyondMemory (last + n)))
        else checkDataAfter (last + n) rest
    else checkDataAfter last rest

def checkDataFits (program : Program) (start : Int) : Except Failure Unit :=
  checkDataAfter (start - 1) program

end Program

/-! Labels that are defined more than once. -/

namespace Program

/-- The lines on which each label is defined; labels in the order of their first definitions. -/
def definitions (program : Program) : Table Text (List Int) :=
  program.foldl (fun table st =>
    match st.label with
    | none => table
    | some label => table.insert label ((table.find? label).getD [] ++ [st.line])) []

def repeatedLabels (program : Program) : List Repeated :=
  program.definitions.filterMap fun (label, lines) =>
    if 1 < lines.length then some ⟨label, lines⟩ else none

/-- Refuse repeated labels, all of them at once. -/
def checkLabels (program : Program) : Except Failure Unit :=
  match program.repeatedLabels with
  | [] => .ok ()
  | labels => .error (.repeated labels)

end Program

/-! Symbols and their places in the code and data segments. -/

/-- What a symbol stands for. Only code and data symbols move with their segments. -/
inductive SymbolKind
  | constant
  | code
  | data
  | other (tag : String)
  deriving DecidableEq, Repr

/-- The offset counts from the start of the segment until the symbol is relocated; afterwards it
is an address. For a constant it is the value. -/
structure Symbol where
  kind : SymbolKind
  offset : Int
  deriving DecidableEq, Repr

def Symbol.relocate (codeStart dataStart : Int) (s : Symbol) : Symbol :=
  match s.kind with
  | .code => { s with offset := s.offset + codeStart }
  | .data => { s with offset := s.offset + dataStart }
  | _ => s

abbrev SymbolTable := Table Text Symbol

namespace SymbolTable

def define (table : SymbolTable) (label : Option Text) (s : Symbol) : SymbolTable :=
  match label with
  | none => table
  | some name => table.insert name s

def relocate (codeStart dataStart : Int) (table : SymbolTable) : SymbolTable :=
  table.map fun (name, s) => (name, s.relocate codeStart dataStart)

def addresses (table : SymbolTable) : Table Text Int :=
  table.map fun (name, s) => (name, s.offset)

end SymbolTable

namespace Statement

def constantValue (st : Statement) : Except Fault Int :=
  match st.value with
  | .error fault => .error fault
  | .ok n => if -32768 ≤ n ∧ n ≤ 32767 then .ok n else .error .wideConstant

/-- How far a data statement moves the next one: by what it reserves, else by one word. -/
def span (st : Statement) : Except Fault Int :=
  if st.keyword = WordKind.ds then st.reservation else .ok 1

end Statement

namespace Program

/-- Enter the labels of a program, when `code` and `data` are the next free offsets. -/
def symbolsFrom (code data : Int) (table : SymbolTable) : Program → Except Failure SymbolTable
  | [] => .ok table
  | st :: rest =>
    match st.kind with
    | .constant =>
      match st.label with
      | none => .error (.faulty st.line .unnamedConstant)
      | some name =>
        match st.constantValue with
        | .error fault => .error (.faulty st.line fault)
        | .ok n => symbolsFrom code data (table.insert name ⟨.constant, n⟩) rest
    | .code => symbolsFrom (code + 1) data (SymbolTable.define table st.label ⟨.code, code⟩) rest
    | .data =>
      match st.span with
      | .error fault => .error (.faulty st.line fault)
      | .ok n =>
        symbolsFrom code (data + n) (SymbolTable.define table st.label ⟨.data, data⟩) rest
    | _ => symbolsFrom code data table rest

def symbols (program : Program) : Except Failure SymbolTable := symbolsFrom 0 0 [] program

end Program

/-! The origin, and everything in its place. -/

namespace Statement

def originValue (st : Statement) : Except Fault Int :=
  if st.label.isSome then .error (.labelledDirective st.keyword)
  else match st.value with
    | .error fault => .error fault
    | .ok n => if n < 0 then .error (.negativeOrigin st.keyword) else .ok n

end Statement

namespace Program

def originAfter (found : Option Int) : Program → Except Failure Int
  | [] => .ok (found.getD 0)
  | st :: rest =>
    if st.kind = .directive then
      if st.keyword ≠ WordKind.org then .error (.faulty st.line (.notDirective st.keyword))
      else if found.isSome then .error (.faulty st.line .secondOrigin)
      else match st.originValue with
        | .error fault => .error (.faulty st.line fault)
        | .ok n => originAfter (some n) rest
    else originAfter found rest

/-- The address of the first instruction: that of the only origin directive, or 0. -/
def origin (program : Program) : Except Failure Int := originAfter none program

def codeSize (program : Program) : Nat := program.countP fun st => decide (st.kind = .code)

end Program

/-- Where everything stands: code from the origin on, data right after it. -/
structure Layout where
  symbols : SymbolTable
  origin : Int
  codeSize : Nat
  deriving DecidableEq, Repr

namespace Layout

def codeStart (layout : Layout) : Int := layout.origin

def dataStart (layout : Layout) : Int := layout.origin + layout.codeSize

end Layout

def Program.layout (program : Program) : Except Failure Layout := do
  program.checkLabels
  let origin ← program.origin
  let symbols ← program.symbols
  let dataStart := origin + program.codeSize
  program.checkDataFits dataStart
  return ⟨SymbolTable.relocate origin dataStart symbols, origin, program.codeSize⟩

end Ttk91
