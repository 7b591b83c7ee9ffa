import Ttk91.Diagnostic
import Ttk91.Image.Basic

/-! Reading memory images. The reader is a machine that takes one line after the other, so an
outcome never depends on lines behind the one that settled it. -/

namespace Ttk91.Image

inductive Part
  | code
  | data
  deriving DecidableEq, Repr

def Part.marker : Part → Text
  | .code => Marker.code
  | .data => Marker.data

inductive Problem
  | unexpectedEnd
  | wrongHeader
  | unreadableBounds (line : Text)
  | negativeSize (line : Text)
  | unreadableWord (line : Text)
  | repeatedSection (part : Part)
  | unknownSection (line : Text)
  | unreadableSymbol (line : Text)
  | repeatedSymbol (name : Text)
  | unreadableComment (line : Text)
  | repeatedComment (address : Int)
  | missingSection (part : Part)
  deriving DecidableEq, Repr

private def enclosed (t : Text) : String := "'" ++ String.ofList t ++ "'"

def Problem.message : Problem → String
  | .unexpectedEnd => "Fin inesperado del contenido"
  | .wrongHeader => "Identificador incorrecto. Se esperaba " ++ enclosed Marker.header
  | .unreadableBounds line => "No se pudieron leer los límites del segmento: " ++ enclosed line
  | .negativeSize line => "Tamaño de segmento negativo: " ++ enclosed line
  | .unreadableWord line => "Valor inválido en el segmento: " ++ enclosed line
  | .repeatedSection part => "Sección repetida: " ++ enclosed part.marker
  | .unknownSection line => "Sección desconocida: " ++ enclosed line
  | .unreadableSymbol line => "No se pudo leer el símbolo: " ++ enclosed line
  | .repeatedSymbol name => "Símbolo repetido: " ++ enclosed name
  | .unreadableComment line => "No se pudo leer el comentario: " ++ enclosed line
  | .repeatedComment address =>
    "Comentario repetido para la dirección " ++ String.ofList (Text.ofInt address)
  | .missingSection part => "Falta la sección " ++ enclosed part.marker

/-- A problem with the number of its line, if it has one. -/
structure ReadError where
  problem : Problem
  line : Option Nat
  deriving DecidableEq, Repr

namespace ReadError

def atEnd (count : Nat) : ReadError :=
  ⟨.unexpectedEnd, if count = 0 then none else some count⟩

/-- A problem met on a line. A missing section is on no line. -/
def onLine (line : Nat) (problem : Problem) : ReadError :=
  match problem with
  | .missingSection part => ⟨.missingSection part, none⟩
  | other => ⟨other, some line⟩

def report (e : ReadError) : Report :=
  .single .format e.problem.message (e.line.map fun n => (n : Int)) none

end ReadError

structure Draft where
  code : Option Segment
  data : Option Segment
  deriving DecidableEq, Repr

namespace Draft

def get (draft : Draft) : Part → Option Segment
  | .code => draft.code
  | .data => draft.data

def set (draft : Draft) (s : Segment) : Part → Draft
  | .code => { draft with code := some s }
  | .data => { draft with data := some s }

def complete (draft : Draft) (symbols : Table Text Int) (comments : Table Int Text) :
    Except Problem Image :=
  match draft.code, draft.data with
  | none, _ => .error (.missingSection .code)
  | _, none => .error (.missingSection .data)
  | some code, some data => .ok ⟨code, data, symbols, comments⟩

end Draft

/-- What the reader expects next. Words still to come are counted, those read are in reverse. -/
inductive State
  | header
  | sections (draft : Draft)
  | bounds (draft : Draft) (part : Part)
  | words (draft : Draft) (part : Part) (start last : Int) (missing : Nat) (read : List Int)
  | symbols (draft : Draft) (table : Table Text Int)
  | comments (draft : Draft) (names : Table Text Int) (table : Table Int Text)
  deriving DecidableEq, Repr

inductive Progress
  | more (state : State)
  | done (image : Image)
  deriving DecidableEq, Repr

/-- The state with `missing` words to come: a full segment goes into the draft. -/
def expectWords (draft : Draft) (part : Part) (start last : Int) (missing : Nat)
    (read : List Int) : State :=
  if missing = 0 then .sections (draft.set ⟨start, last, read.reverse⟩ part)
  else .words draft part start last missing read

/-- Two integers, the second at most one below the first. -/
def readBounds (line : Text) : Except Problem (Int × Int) :=
  match Text.words line with
  | [startText, lastText] =>
    match Text.toInt? startText, Text.toInt? lastText with
    | some start, some last =>
      if last + 1 < start then .error (.negativeSize line) else .ok (start, last)
    | _, _ => .error (.unreadableBounds line)
  | _ => .error (.unreadableBounds line)

def readSymbol (table : Table Text Int) (line : Text) : Except Problem (Text × Int) :=
  match Text.words line with
  | [name, valueText] =>
    match Text.toInt? valueText with
    | none => .error (.unreadableSymbol line)
    | some value =>
      if name ∈ table.keys then .error (.repeatedSymbol name) else .ok (name, value)
  | _ => .error (.unreadableSymbol line)

/-- An address that is not in the table yet, a space, and any text. -/
def readComment (table : Table Int Text) (line : Text) : Except Problem (Int × Text) :=
  match Text.cut ' ' line with
  | (_, none) => .error (.unreadableComment line)
  | (addressText, some text) =>
    match Text.toInt? addressText with
    | none => .error (.unreadableComment line)
    | some address =>
      if address ∈ table.keys then .error (.repeatedComment address) else .ok (address, text)

def openSection (draft : Draft) (part : Part) : Except Problem Progress :=
  if (draft.get part).isSome then .error (.repeatedSection part)
  else .ok (.more (.bounds draft part))

def step (state : State) (line : Text) : Except Problem Progress :=
  match state with
  | .header =>
    if line = Marker.header then .ok (.more (.sections ⟨none, none⟩)) else .error .wrongHeader
  | .sections draft =>
    if line.isEmpty then .ok (.more (.sections draft))
    else if line = Marker.code then openSection draft .code
    else if line = Marker.data then openSection draft .data
    else if line = Marker.symbols then .ok (.more (.symbols draft []))
    else .error (.unknownSection line)
  | .bounds draft part =>
    match readBounds line with
    | .error problem => .error problem
    | .ok (start, last) =>
      .ok (.more (expectWords draft part start last (last - start + 1).toNat []))
  | .words draft part start last missing read =>
    match Text.toInt? (Text.trim line) with
    | none => .error (.unreadableWord line)
    | some word => .ok (.more (expectWords draft part start last (missing - 1) (word :: read)))
  | .symbols draft table =>
    if line = Marker.finish then (draft.complete table []).map .done
    else if line = Marker.comments then .ok (.more (.comments draft table []))
    else match readSymbol table line with
      | .error problem => .error problem
      | .ok entry => .ok (.more (.symbols draft (table ++ [entry])))
  | .comments draft names table =>
    if line = Marker.finish then (draft.complete names table).map .done
    else match readComment table line with
      | .error problem => .error problem
      | .ok entry => .ok (.more (.comments draft names (table ++ [entry])))

/-- Take lines until the image is complete; `count` lines have been taken before. -/
def readFrom (state : State) (count : Nat) : List Text → Except ReadError Image
  | [] => .error (.atEnd count)
  | line :: rest =>
    match step state line with
    | .error problem => .error (.onLine (count + 1) problem)
    | .ok (.done image) => .ok image
    | .ok (.more next) => readFrom next (count + 1) rest

/-- Read an image; lines after the end marker are ignored. -/
def parse (text : Text) : Except ReadError Image := readFrom .header 0 (Text.lines text)

/-- The line with a given index, or the error of reading beyond the last line. -/
def lineAt (text : Text) (index : Nat) : Except ReadError Text :=
  match (Text.lines text)[index]? with
  | some line => .ok line
  | none => .error (.atEnd (Text.lines text).length)

end Ttk91.Image
