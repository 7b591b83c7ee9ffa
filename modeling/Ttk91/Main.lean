import Ttk91.Command.Run

/-! The command line program. -/

namespace Ttk91.Command

def usageText : String :=
  "usage: ttk91 [-h] [-o OUTPUT] [--disasm] source\n"

/-- The causes that the command reports; any other one is passed on. -/
def accessError? : IO.Error → Option AccessError
  | .noFileOrDirectory .. => some .notFound
  | .inappropriateType _ code _ => ofCode code
  | .invalidArgument _ code _ => ofCode code
  | _ => none
where
  /-- Some operations give the negated code. -/
  ofCode (code : UInt32) : Option AccessError :=
    if code = 20 ∨ -code = 20 then some .notDirectory
    else if code = 21 ∨ -code = 21 then some .isDirectory
    else if code = 36 ∨ -code = 36 then some .nameTooLong
    else none

def attempt {α : Type} (action : IO α) : IO (Except AccessError α) := do
  try
    return .ok (← action)
  catch e =>
    match accessError? e with
    | some cause => return .error cause
    | none => throw e

def machineFiles : Files IO where
  read path := attempt (IO.FS.readBinFile (String.ofList path))
  write path bytes := attempt (IO.FS.writeBinFile (String.ofList path) bytes)

/-- Standard output is UTF-8, which encodes every character. -/
def machinePlatform : Platform := ⟨.late, fun _ => true⟩

end Ttk91.Command

open Ttk91.Command in
def main (arguments : List String) : IO UInt32 := do
  match ← run machineFiles machinePlatform (arguments.map String.toList) with
  | .usage status =>
    IO.eprint usageText
    return status.toUInt32
  | .finished status printed errors =>
    IO.print printed
    IO.eprint errors
    return status.toUInt32
  | .notUtf8 =>
    IO.eprintln "ERROR: la entrada no es UTF-8"
    return 1
  | .nulInPath =>
    IO.eprintln "ERROR: la ruta contiene un carácter nulo"
    return 1
  | .namelessSource =>
    IO.eprintln "ERROR: la ruta no tiene nombre"
    return 1
  | .unencodable printed =>
    IO.print printed
    IO.eprintln "ERROR: la salida no se puede codificar"
    return 1
