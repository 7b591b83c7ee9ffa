import Ttk91.Failure

/-! Statements: the source lines that hold words, and how they are read. -/

namespace Ttk91

/-- What a word announces. A plain word can only be a label. -/
inductive WordKind
  | code
  | register
  | constant
  | data
  | directive
  | plain
  deriving DecidableEq, Repr

namespace WordKind

def equ : Text := "EQU".toList
def ds : Text := "DS".toList
def dc : Text := "DC".toList
def org : Text := "ORG".toList

def ofWord (word : Text) : WordKind :=
  let keyword := Text.upper word
  if (Instruction.named? keyword).isSome then .code
  else if Register.isName keyword then .register
  else if keyword = equ then .constant
  else if keyword = ds ∨ keyword = dc then .data
  else if keyword = org then .directive
  else .plain

end WordKind

/-- A source line with its words sorted out. The keyword is in upper case, the operands are as
written, and the comment is what follows the first semicolon. -/
structure Statement where
  kind : WordKind
  keyword : Text
  operands : List Text
  line : Int
  label : Option Text
  comment : Option Text
  deriving DecidableEq, Repr

abbrev Program := List Statement

/-! Reading. -/

namespace Statement

/-- Commas divide words just as white space does. -/
def isSeparator (c : Char) : Bool := c == ',' || Text.isBlank c

def words (code : Text) : List Text := Text.wordsBy isSeparator code

def ofKeyword (line : Int) (label comment : Option Text) (word : Text) (operands : List Text) :
    Except Fault Statement :=
  let keyword := Text.upper word
  match WordKind.ofWord keyword with
  | .plain => .error (.unknownKeyword keyword)
  | .register => .error (.registerAsKeyword keyword)
  | kind => .ok ⟨kind, keyword, operands, line, label, comment⟩

/-- The statement of a line; a line without words has none. A plain word in front is a label. -/
def ofLine (line : Int) (text : Text) : Except Fault (Option Statement) :=
  let (code, comment) := Text.cut ';' text
  match words code with
  | [] => .ok none
  | word :: rest =>
    if WordKind.ofWord word = .plain then
      match rest with
      | [] => .error (.labelAlone word)
      | keyword :: operands => (ofKeyword line (some word) comment keyword operands).map some
    else (ofKeyword line none comment word rest).map some

end Statement

namespace Program

def ofLines (line : Nat) : List Text → Except Failure Program
  | [] => .ok []
  | text :: rest =>
    match Statement.ofLine line text with
    | .error fault => .error (.faulty line fault)
    | .ok none => ofLines (line + 1) rest
    | .ok (some statement) => (ofLines (line + 1) rest).map (statement :: ·)

def parse (source : Text) : Except Failure Program := ofLines 1 (Text.lines source)

end Program

end Ttk91
