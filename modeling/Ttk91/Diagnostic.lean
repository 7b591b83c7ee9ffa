import Ttk91.Text.UpperCase
import Ttk91.Text.Decimal

/-! Diagnostics, and the reports that gather them. -/

namespace Ttk91

inductive Category
  | lexical
  | structural
  | range
  | addressing
  | format
  deriving DecidableEq, Repr

def Category.tag : Category → String
  | .lexical => "lexico"
  | .structural => "estructura"
  | .range => "rango"
  | .addressing => "direccionamiento"
  | .format => "formato"

/-- A problem with its place and, where one helps, a hint. -/
structure Diagnostic where
  severity : String
  message : String
  line : Option Int
  col : Option Int
  hint : Option String
  file : Option String
  kind : Option String
  deriving DecidableEq, Repr

namespace Diagnostic

def error (kind : Category) (message : String) (line : Option Int) (hint : Option String) :
    Diagnostic :=
  ⟨"error", message, line, none, hint, none, some kind.tag⟩

/-- Line and column. A column means nothing without a line. -/
def position (d : Diagnostic) : String :=
  match d.line, d.col with
  | none, _ => ""
  | some line, none => String.ofList (Text.ofInt line)
  | some line, some col => String.ofList (Text.ofInt line ++ ':' :: Text.ofInt col)

def location (d : Diagnostic) : String :=
  match d.file with
  | none => d.position
  | some file => file ++ ":" ++ d.position

/-- One line: location, severity in upper case, message, hint. An empty hint is not shown. -/
def text (d : Diagnostic) : String :=
  let place := if d.location.isEmpty then "" else d.location ++ ": "
  let label := String.ofList (Text.upper d.severity.toList)
  let hint :=
    match d.hint with
    | none => ""
    | some h => if h.isEmpty then "" else "  (pista: " ++ h ++ ")"
  place ++ label ++ ": " ++ d.message ++ hint

def inFile (d : Diagnostic) (file : String) : Diagnostic := { d with file := some file }

end Diagnostic

/-- What a failed operation has to say: its line, if it has one, and its diagnostics. -/
structure Report where
  line : Option Int
  diagnostics : List Diagnostic
  deriving DecidableEq, Repr

namespace Report

def single (kind : Category) (message : String) (line : Option Int) (hint : Option String) :
    Report :=
  ⟨line, [Diagnostic.error kind message line hint]⟩

def text (r : Report) : String := "\n".intercalate (r.diagnostics.map Diagnostic.text)

def inFile (r : Report) : Option String → Report
  | none => r
  | some file => { r with diagnostics := r.diagnostics.map (·.inFile file) }

end Report
end Ttk91
