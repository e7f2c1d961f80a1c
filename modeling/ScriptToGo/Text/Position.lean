/-! Lines and columns of byte offsets. -/
namespace ScriptToGo.Text

/-- The number of bytes that characters take in a file. -/
def byteLength : List Char → Nat
  | [] => 0
  | c :: rest => c.utf8Size + byteLength rest

/-- A place in a file as people count it: lines and columns from one, columns in characters. -/
structure Position where
  line : Nat
  column : Nat
deriving DecidableEq

/-- The position after reading one more character. -/
def Position.after (p : Position) (c : Char) : Position :=
  if c = '\n' then ⟨p.line + 1, 1⟩ else ⟨p.line, p.column + 1⟩

/-- Walks `offset` bytes into the text, stopping early at its end. An offset inside a character
is no position. -/
def positionFrom (here : Position) (offset : Nat) : List Char → Option Position
  | [] => some here
  | c :: rest =>
    if offset = 0 then some here
    else if offset < c.utf8Size then none
    else positionFrom (here.after c) (offset - c.utf8Size) rest

/-- The line and column of a byte offset; offsets past the end count as the end. -/
def position? (source : String) (offset : Nat) : Option Position :=
  positionFrom ⟨1, 1⟩ offset source.toList

end ScriptToGo.Text
