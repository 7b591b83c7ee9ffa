import Ttk91.Encoding
import Ttk91.Listing
import Ttk91.Image.Basic

/-! Assembling programs into memory images. -/

namespace Ttk91

namespace Program

/-- Enter the comments of instructions and data statements under their addresses, when `code` and
`data` are the addresses of the next ones. -/
def commentsFrom (code data : Int) (table : Table Int Text) :
    Program → Except Failure (Table Int Text)
  | [] => .ok table
  | st :: rest =>
    match st.kind with
    | .code => commentsFrom (code + 1) data (note table code st.comment) rest
    | .data =>
      match st.size with
      | .error fault => .error (.faulty st.line fault)
      | .ok n => commentsFrom code (data + n) (note table data st.comment) rest
    | _ => commentsFrom code data table rest
where
  /-- Enter a comment, if there is one. -/
  note (table : Table Int Text) (address : Int) : Option Text → Table Int Text
    | none => table
    | some text => table.insert address text

def assemble (program : Program) : Except Failure Image := do
  let layout ← program.layout
  let data ← program.dataSegment
  let code ← program.encode layout.symbols layout.origin
  let comments ← program.commentsFrom layout.codeStart layout.dataStart []
  return {
    code := .place layout.codeStart (code.map CodeWord.word)
    data := .place layout.dataStart data
    symbols := layout.symbols.addresses
    comments := comments }

end Program

def assemble (source : Text) : Except Failure Image := do
  let program ← Program.parse source
  program.assemble

/-- Assemble a source text, or say what is wrong with it. -/
def diagnose (source : Text) (file : Option String) : Except (List Diagnostic) Image :=
  match assemble source with
  | .ok image => .ok image
  | .error failure => .error (failure.report.inFile file).diagnostics

def Image.sourceText (image : Image) : Text :=
  Text.join ['\n'] (image.code.content.map (Listing.instruction Listing.lenient))

end Ttk91
