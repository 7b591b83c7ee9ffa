import Ttk91.Table
import Ttk91.Text.Quoted

/-! Paths, files in directories, and what it means to read and write them by path. -/

namespace Ttk91

/-! Paths: names divided by slashes. -/

namespace Path

def isSlash (c : Char) : Bool := c == '/'

def names (path : Text) : List Text := Text.wordsBy isSlash path

/-- The slashes that an absolute path keeps in front: two if there are just two, else one. -/
def root : Text → Text
  | '/' :: '/' :: '/' :: _ => ['/']
  | '/' :: '/' :: _ => ['/', '/']
  | '/' :: _ => ['/']
  | _ => []

/-- Replace the last dot of a name and what follows it. A dot at either end starts no suffix, and
a name without a suffix gets one. -/
def renamed (name suffix : Text) : Text :=
  match Text.cut '.' name.reverse with
  | (_, none) => name ++ suffix
  | (extension, some stem) =>
    if extension.isEmpty || stem.isEmpty then name ++ suffix else stem.reverse ++ suffix

/-- Rename the last name on a path, leaving out single dots and superfluous slashes. There has to
be a name. -/
def withSuffix? (path suffix : Text) : Option Text :=
  match ((names path).filter (· != ['.'])).reverse with
  | [] => none
  | name :: before =>
    some (root path ++ Text.join ['/'] (before.reverse ++ [renamed name suffix]))

end Path

inductive AccessError
  | notFound
  | notDirectory
  | isDirectory
  | nameTooLong
  deriving DecidableEq, Repr

def AccessError.message (e : AccessError) (path : Text) : String :=
  let reason :=
    match e with
    | .notFound => "[Errno 2] No such file or directory: "
    | .notDirectory => "[Errno 20] Not a directory: "
    | .isDirectory => "[Errno 21] Is a directory: "
    | .nameTooLong => "[Errno 36] File name too long: "
  reason ++ String.ofList (Text.quoted path)

inductive Entry
  | directory
  | file (bytes : ByteArray)

/-- Entries by the names that lead to them from the top, and the working directory, where relative
paths start. -/
structure FileTree where
  entries : Table (List Text) Entry
  current : List Text

namespace FileTree

/-- The top is always a directory. -/
def entry? (tree : FileTree) (place : List Text) : Option Entry :=
  if place.isEmpty then some .directory else tree.entries.find? place

def byteLength (t : Text) : Nat := (String.ofList t).utf8ByteSize

def maxNameBytes : Nat := 255

def maxPathBytes : Nat := 4095

def lookup (tree : FileTree) (place : List Text) (name : Text) :
    Except AccessError (Option Entry) :=
  if maxNameBytes < byteLength name then .error .nameTooLong
  else .ok (tree.entry? (place ++ [name]))

/-- Go from one directory to the next. The top is its own parent. -/
def enter (tree : FileTree) (place : List Text) (name : Text) :
    Except AccessError (List Text) :=
  if name = ['.'] then .ok place
  else if name = ['.', '.'] then .ok place.dropLast
  else match tree.lookup place name with
    | .error e => .error e
    | .ok none => .error .notFound
    | .ok (some (.file _)) => .error .notDirectory
    | .ok (some .directory) => .ok (place ++ [name])

def enterAll (tree : FileTree) (place : List Text) : List Text → Except AccessError (List Text)
  | [] => .ok place
  | name :: rest =>
    match tree.enter place name with
    | .error e => .error e
    | .ok next => tree.enterAll next rest

/-- What a path stands for: surely a directory, or a name in a directory. A slash at the end says
that the name has to be a directory. -/
inductive Target
  | directory
  | named (place : List Text) (name : Text) (slash : Bool)
  deriving DecidableEq, Repr

def target (tree : FileTree) (path : Text) : Except AccessError Target :=
  if path.isEmpty then .error .notFound
  else if maxPathBytes < byteLength path then .error .nameTooLong
  else match (Path.names path).reverse with
    | [] => .ok .directory
    | name :: before =>
      let start := if (Path.root path).isEmpty then tree.current else []
      match tree.enterAll start before.reverse with
      | .error e => .error e
      | .ok place =>
        if name = ['.'] ∨ name = ['.', '.'] then .ok .directory
        else .ok (.named place name (path.getLast? == some '/'))

def read (tree : FileTree) (path : Text) : Except AccessError ByteArray :=
  match tree.target path with
  | .error e => .error e
  | .ok .directory => .error .isDirectory
  | .ok (.named place name slash) =>
    match tree.lookup place name with
    | .error e => .error e
    | .ok none => .error .notFound
    | .ok (some .directory) => .error .isDirectory
    | .ok (some (.file bytes)) => if slash then .error .notDirectory else .ok bytes

/-- Write a file, creating it if need be. Directories are never created. -/
def write (tree : FileTree) (path : Text) (bytes : ByteArray) : Except AccessError FileTree :=
  match tree.target path with
  | .error e => .error e
  | .ok .directory => .error .isDirectory
  | .ok (.named place name slash) =>
    if slash then .error .isDirectory
    else match tree.lookup place name with
      | .error e => .error e
      | .ok (some .directory) => .error .isDirectory
      | .ok _ => .ok { tree with entries := tree.entries.insert (place ++ [name]) (.file bytes) }

/-- The place of a path below the working directory, by its names alone. -/
def placeOf (tree : FileTree) (path : Text) : List Text :=
  (Path.names path).foldl (fun place name =>
    if name = ['.'] then place
    else if name = ['.', '.'] then place.dropLast
    else place ++ [name]) tree.current

def makeDirectories (tree : FileTree) (place : List Text) : FileTree :=
  (List.range place.length).foldl (fun tree n =>
    match tree.entry? (place.take (n + 1)) with
    | some _ => tree
    | none => { tree with entries := tree.entries.insert (place.take (n + 1)) .directory }) tree

def ofFiles (current : List Text) (directories : List Text) (files : List (Text × ByteArray)) :
    FileTree :=
  let bare := (FileTree.mk [] current).makeDirectories current
  let withDirectories :=
    directories.foldl (fun tree path => tree.makeDirectories (tree.placeOf path)) bare
  files.foldl (fun tree (path, bytes) =>
    let place := tree.placeOf path
    let parents := tree.makeDirectories place.dropLast
    { parents with entries := parents.entries.insert place (.file bytes) }) withDirectories

def holds (tree : FileTree) (place : List Text) (bytes : ByteArray) : Bool :=
  match tree.entry? place with
  | some (.file content) => content.data == bytes.data
  | _ => false

/-- The files below the working directory that `before` does not have in the same form, with their
paths from there. -/
def changesSince (tree before : FileTree) : List (Text × ByteArray) :=
  tree.entries.filterMap fun (place, entry) =>
    match entry with
    | .directory => none
    | .file bytes =>
      if tree.current.isPrefixOf place && !before.holds place bytes then
        some (Text.join ['/'] (place.drop tree.current.length), bytes)
      else none

end FileTree
end Ttk91
