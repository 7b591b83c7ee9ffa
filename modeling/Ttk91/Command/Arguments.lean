import Ttk91.Text.Decimal

/-! The arguments of the command: one source file, an optional output file, and a choice between
assembling and listing. Options may stand anywhere before a lone `--`. The rules are those of
argparse, in the two releases that differ on text attached to an option. -/

namespace Ttk91.Command

/-- `early` is argparse of the first 3.11 releases, `late` that of 3.11.10 and 3.12.3. -/
inductive Release
  | early
  | late
  deriving DecidableEq, Repr

inductive Flag
  | help
  | output
  | listing
  deriving DecidableEq, Repr

/-- Any part of a long name from its start that fits no other will do. -/
def longNames : List (Text × Flag) :=
  [("--help".toList, .help), ("--output".toList, .output), ("--disasm".toList, .listing)]

/-- An argument by its form. A cluster is what follows `-h` directly. -/
inductive Argument
  | operand (text : Text)
  | separator
  | flag (flag : Flag) (value : Option Text)
  | cluster (tail : Text)
  | unknown
  deriving DecidableEq, Repr

def isDecimalRun (t : Text) : Bool := t.all fun c => (Text.decimalValue? c).isSome

/-- Whether the text after a minus sign makes a negative number, with or without a point; a line
feed may follow. -/
def isNumber (t : Text) : Bool :=
  let digits := if t.getLast? = some '\n' then t.dropLast else t
  match Text.cut '.' digits with
  | (whole, none) => !whole.isEmpty && isDecimalRun whole
  | (whole, some fraction) => isDecimalRun whole && !fraction.isEmpty && isDecimalRun fraction

/-- The form of an argument other than `--`; a long name that fits several options has none. -/
def classify? (argument : Text) : Option Argument :=
  match argument with
  | '-' :: '-' :: _ =>
    let (name, value) := Text.cut '=' argument
    match longNames.filter fun entry => name.isPrefixOf entry.1 with
    | [] => some (if ' ' ∈ argument then .operand argument else .unknown)
    | [entry] => some (.flag entry.2 value)
    | _ => none
  | ['-', 'h'] => some (.flag .help none)
  | '-' :: 'h' :: tail => some (.cluster tail)
  | ['-', 'o'] => some (.flag .output none)
  | '-' :: 'o' :: '=' :: value => some (.flag .output (some value))
  | '-' :: 'o' :: value => some (.flag .output (some value))
  | '-' :: c :: rest =>
    some (if isNumber (c :: rest) || ' ' ∈ argument then .operand argument else .unknown)
  | _ => some (.operand argument)

def classifyAll? : List Text → Option (List Argument)
  | [] => some []
  | argument :: rest =>
    if argument = ['-', '-'] then some (.separator :: rest.map .operand)
    else match classify? argument, classifyAll? rest with
      | some first, some others => some (first :: others)
      | _, _ => none

/-- What a cluster comes to: help, a refusal, or help if an operand follows. -/
inductive ClusterEnd
  | help
  | refused
  | wantsOperand
  deriving DecidableEq, Repr

/-- What follows an `h`. Each letter is an option again, and a value may follow `o`. -/
def clusterEnd (release : Release) : Text → ClusterEnd
  | [] => .help
  | 'h' :: rest => clusterEnd release rest
  | ['o'] => .wantsOperand
  | 'o' :: _ => .help
  | c :: _ =>
    match release with
    | .early => .refused
    | .late => if c = '=' ∨ c = '-' then .refused else .help

namespace Release

/-- The early release passes over an equals sign before the letters. -/
def clusterOf : Release → Text → ClusterEnd
  | .early, ['='] => .refused
  | .early, '=' :: tail => clusterEnd .early tail
  | release, tail => clusterEnd release tail

/-- The value in a text attached to an option. The early release takes two dashes for the end of the
options, which leaves an empty value. -/
def value : Release → Text → Text
  | .early, ['-', '-'] => []
  | _, text => text

end Release

structure Options where
  source : Text
  output : Option Text
  listing : Bool
  deriving DecidableEq, Repr

/-- The options of a run, or the exit status after a usage message. -/
inductive Request
  | run (options : Options)
  | usage (status : Nat)
  deriving DecidableEq, Repr

def misuse : Request := .usage 2

structure Settled where
  source : Option Text
  output : Option Text
  listing : Bool
  surplus : Bool
  deriving DecidableEq, Repr

namespace Settled

def initial : Settled := ⟨none, none, false, false⟩

def operand (s : Settled) (text : Text) : Settled :=
  match s.source with
  | none => { s with source := some text }
  | some _ => { s with surplus := true }

def request (s : Settled) : Request :=
  match s.source with
  | none => misuse
  | some source => if s.surplus then misuse else .run ⟨source, s.output, s.listing⟩

end Settled

/-- Take the arguments in order. A `--` is fine next to the source, before or after it; help is
given as soon as it is asked for. -/
def settle (release : Release) (s : Settled) : List Argument → Request
  | [] => s.request
  | .operand text :: .separator :: rest =>
    if s.source.isSome then misuse else settle release (s.operand text) rest
  | .operand text :: rest => settle release (s.operand text) rest
  | .separator :: .operand text :: rest =>
    if s.source.isSome then misuse else settle release (s.operand text) rest
  | .separator :: _ => misuse
  | .flag .help none :: _ => .usage 0
  | .flag .help (some _) :: _ => misuse
  | .flag .listing none :: rest => settle release { s with listing := true } rest
  | .flag .listing (some _) :: _ => misuse
  | .flag .output (some text) :: rest =>
    settle release { s with output := some (release.value text) } rest
  | .flag .output none :: .operand value :: rest =>
    settle release { s with output := some value } rest
  | .flag .output none :: _ => misuse
  | .cluster tail :: rest =>
    match release.clusterOf tail, rest with
    | .help, _ => .usage 0
    | .wantsOperand, .operand _ :: _ => .usage 0
    | _, _ => misuse
  | .unknown :: rest => settle release { s with surplus := true } rest

def Request.ofArguments (release : Release) (arguments : List Text) : Request :=
  match classifyAll? arguments with
  | none => misuse
  | some forms => settle release .initial forms

end Ttk91.Command
