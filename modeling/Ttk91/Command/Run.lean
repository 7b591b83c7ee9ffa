import Ttk91.Assembly
import Ttk91.Image.Reader
import Ttk91.Command.Arguments
import Ttk91.Command.FileTree

/-! The command: assemble a source file into an image file, or list the code of an image file. -/

namespace Ttk91.Command

/-- What the command finds in place: a reader of arguments, and the characters that standard output
can encode. -/
structure Platform where
  release : Release
  charset : Char → Bool

structure Files (m : Type → Type) where
  read : Text → m (Except AccessError ByteArray)
  write : Text → ByteArray → m (Except AccessError Unit)

/-- How a run ends: with a usage message, with an exit status and what was printed, or broken off.
What breaks it off is input that is not UTF-8, a path with a NUL, a source without a name to derive
the target from, or a line that standard output cannot encode, after what was printed before it. -/
inductive Outcome
  | usage (status : Nat)
  | finished (status : Nat) (printed errors : String)
  | notUtf8
  | nulInPath
  | namelessSource
  | unencodable (printed : String)
  deriving DecidableEq, Repr

/-- Carriage returns, alone or before a line feed, become line feeds. -/
def unifyBreaks : Text → Text
  | [] => []
  | '\r' :: '\n' :: t => '\n' :: unifyBreaks t
  | c :: t => (if c = '\r' then '\n' else c) :: unifyBreaks t

def decode? (bytes : ByteArray) : Option Text :=
  (String.fromUTF8? bytes).map fun s => unifyBreaks s.toList

def hasNul (path : Text) : Bool := path.any fun c => c.toNat == 0

def encodable (charset : Char → Bool) (lines : List Text) : Bool :=
  lines.all fun line => line.all charset

/-- The end of a run that has only its lines left to print. -/
def printLines (charset : Char → Bool) (lines : List Text) : Outcome :=
  if encodable charset lines then .finished 0 (String.ofList (Text.unlines lines)) ""
  else
    let shown := lines.takeWhile fun line => line.all charset
    .unencodable (String.ofList (Text.unlines shown))

variable {m : Type → Type} [Monad m]

def withText (files : Files m) (path : Text) (next : Text → m Outcome) : m Outcome := do
  if hasNul path then return .nulInPath
  match ← files.read path with
  | .error e =>
    let shown := String.ofList path
    return .finished 2 "" ("ERROR: no pude leer " ++ shown ++ ": " ++ e.message path ++ "\n")
  | .ok bytes =>
    match decode? bytes with
    | none => return .notUtf8
    | some text => next text

/-- The lines of the code. Its addresses lie between two that were read, so all are shown. -/
def listing (image : Image) : List Text :=
  Listing.lines Listing.lenient image.code.start image.code.content

def list (charset : Char → Bool) (text : Text) : Outcome :=
  match Image.parse text with
  | .error e => .finished 1 "" (e.report.text ++ "\n")
  | .ok image => printLines charset (listing image)

/-- The file that takes the image: the one asked for, or the source with another suffix. -/
def Options.target? (options : Options) : Option Text :=
  match options.output with
  | some path => if path.isEmpty then usualTarget? else some path
  | none => usualTarget?
where
  usualTarget? : Option Text := Path.withSuffix? options.source ".b91".toList

def summary (image : Image) (path : Text) : Text :=
  "OK: ".toList ++ Text.ofNat image.code.content.length ++ " instrucciones → ".toList ++ path

/-- Assemble a source text and write its image. Nothing takes the file back if the summary cannot be
printed. -/
def assembleTo (files : Files m) (charset : Char → Bool) (options : Options) (source : Text) :
    m Outcome := do
  match diagnose source (some (String.ofList options.source)) with
  | .error diagnostics =>
    return .finished 1 "" (String.join (diagnostics.map fun d => d.text ++ "\n"))
  | .ok image =>
    match options.target? with
    | none => return .namelessSource
    | some path =>
      if hasNul path then return .nulInPath
      match ← files.write path (String.ofList image.render).toUTF8 with
      | .error e =>
        return .finished 3 "" ("ERROR al escribir salidas: " ++ e.message path ++ "\n")
      | .ok () => return printLines charset [summary image path]

def run (files : Files m) (platform : Platform) (arguments : List Text) : m Outcome :=
  match Request.ofArguments platform.release arguments with
  | .usage status => return .usage status
  | .run options =>
    withText files options.source fun text =>
      if options.listing then return list platform.charset text
      else assembleTo files platform.charset options text

end Ttk91.Command

namespace Ttk91.FileTree

def files : Command.Files (StateM FileTree) where
  read path := do return (← get).read path
  write path bytes := do
    match (← get).write path bytes with
    | .error e => return .error e
    | .ok tree =>
      set tree
      return .ok ()

/-- Run the command on a tree: the outcome, and the tree afterwards. -/
def runCommand (tree : FileTree) (platform : Command.Platform) (arguments : List Text) :
    Command.Outcome × FileTree :=
  (Command.run files platform arguments).run tree

end Ttk91.FileTree
