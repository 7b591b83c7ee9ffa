import Ttk91.Machine

/-! Words printed as instructions. -/

namespace Ttk91.Listing

/-- Shown in place of a word that is no instruction. -/
def unknown : Text := "N/A".toList

def modeShift (defaultMode mode : Int) : Int := mode - defaultMode

/-- The distance as it is written. Without an address, an index register other than 0 reads as a
register operand, which is written one mode higher. -/
def writtenMode (mode index address defaultMode : Int) : Int :=
  let shift := modeShift defaultMode mode
  if address = 0 ∧ index ≠ 0 then shift + 1 else shift

def isValidMode (written defaultMode : Int) : Bool :=
  decide (-1 ≤ written ∧ written ≤ 2 ∧ ¬(written = 2 ∧ defaultMode = 1))

def modeSign (written : Int) : Char :=
  if written = -1 then '='
  else if written = 0 then ' '
  else if written = 1 ∨ written = 2 then '@'
  else '?'

/-- A second operand. The highest mode always shows its register in parentheses. -/
def second (written : Int) (index : Register) (address : Int) : Text :=
  let indexed := '(' :: index.displayName ++ [')']
  modeSign written ::
    if written = 2 then (if address = 0 then indexed else Text.ofInt address ++ indexed)
    else if index = Register.zero then Text.ofInt address
    else if address = 0 then index.displayName
    else Text.ofInt address ++ indexed

def padded (name : Text) : Text := name ++ List.replicate (6 - name.length) ' '

def render (instruction : Instruction) (fields : Fields) : Text :=
  let operand :=
    second (writtenMode fields.mode fields.index.val fields.address instruction.defaultMode)
      fields.index fields.address
  match instruction.format with
  | .bare => instruction.name
  | .first => padded instruction.name ++ fields.first.displayName
  | .second => padded instruction.name ++ operand
  | .both => padded instruction.name ++ fields.first.displayName ++ ',' :: ' ' :: operand

/-- What a listing refuses: invalid modes, instructions outside the classic repertoire. -/
structure Rules where
  strict : Bool
  classicOnly : Bool
  deriving DecidableEq, Repr

def lenient : Rules := ⟨false, false⟩
def classic : Rules := ⟨true, true⟩

def instruction (rules : Rules) (word : Int) : Text :=
  let fields := Fields.ofWord word
  match Instruction.ofOpcode? fields.opcode with
  | none => unknown
  | some found =>
    let written := writtenMode fields.mode fields.index.val fields.address found.defaultMode
    if rules.classicOnly && !found.classic then unknown
    else if rules.strict && !isValidMode written found.defaultMode then unknown
    else render found fields

def lines (rules : Rules) (start : Int) : List Int → List Text
  | [] => []
  | word :: rest =>
    (Text.ofInt start ++ ':' :: ' ' :: instruction rules word) :: lines rules (start + 1) rest

/-- The same for any `start`: without a listing if one of the addresses cannot be shown. -/
def checkedLines (rules : Rules) (start : Int) (words : List Int) :
    Except Text.NumeralError (List Text) :=
  if (List.range words.length).all fun i => Text.isShowable (start + i) then
    .ok (lines rules start words)
  else .error .tooManyDigits

end Ttk91.Listing
