import Ttk91.Table
import Ttk91.Text.Decimal

/-! Memory images: what an assembled program puts into memory, what is known about it, and the text
form of it all. -/

namespace Ttk91

/-- Consecutive words from the address `start` to the address `last`. -/
structure Segment where
  start : Int
  last : Int
  content : List Int
  deriving DecidableEq, Repr

namespace Segment

/-- Place words from an address on. Without words the last address is the one before it. -/
def place (start : Int) (content : List Int) : Segment :=
  ⟨start, start + content.length - 1, content⟩

def append (s : Segment) (words : List Int) : Segment := place s.start (s.content ++ words)

def move (s : Segment) (start : Int) : Segment := place start s.content

end Segment

/-- Code, data, the values of the symbols, and comments by address. -/
structure Image where
  code : Segment
  data : Segment
  symbols : Table Text Int
  comments : Table Int Text
  deriving DecidableEq, Repr

namespace Image

def empty : Image := ⟨.place 0 [], .place 0 [], [], []⟩

def origin (image : Image) : Int := image.code.start

def framePointer (image : Image) : Int := image.code.last

def stackPointer (image : Image) : Int := image.data.last

def setSymbol (image : Image) (name : Text) (value : Int) : Image :=
  { image with symbols := image.symbols.insert name value }

def setComment (image : Image) (address : Int) (text : Text) : Image :=
  { image with comments := image.comments.insert address text }

def appendCode (image : Image) (words : List Int) : Image :=
  { image with code := image.code.append words }

def appendData (image : Image) (words : List Int) : Image :=
  { image with data := image.data.append words }

def move (image : Image) (codeStart dataStart : Int) : Image :=
  { image with code := image.code.move codeStart, data := image.data.move dataStart }

end Image

/-! The text form, line by line. -/

namespace Marker

def header : Text := "___b91___".toList
def code : Text := "___code___".toList
def data : Text := "___data___".toList
def symbols : Text := "___symboltable___".toList
def comments : Text := "___comments___".toList
def finish : Text := "___end___".toList

end Marker

namespace Segment

def lines (s : Segment) : List Text :=
  (Text.ofInt s.start ++ ' ' :: Text.ofInt s.last) :: s.content.map Text.ofInt

end Segment

namespace Image

def symbolLine (entry : Text × Int) : Text := entry.1 ++ ' ' :: Text.ofInt entry.2

def commentLine (entry : Int × Text) : Text := Text.ofInt entry.1 ++ ' ' :: entry.2

def sortedComments (image : Image) : Table Int Text :=
  image.comments.mergeSort fun a b => decide (a.1 ≤ b.1)

/-- The comment section; there is none without comments. -/
def commentLines (image : Image) : List Text :=
  if image.comments.isEmpty then []
  else Marker.comments :: image.sortedComments.map commentLine

def lines (image : Image) : List Text :=
  Marker.header :: Marker.code :: image.code.lines ++
    Marker.data :: image.data.lines ++
    Marker.symbols :: image.symbols.map symbolLine ++
    image.commentLines ++ [Marker.finish]

def render (image : Image) : Text := Text.unlines image.lines

end Image

end Ttk91
