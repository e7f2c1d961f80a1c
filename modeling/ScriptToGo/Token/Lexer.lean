import ScriptToGo.Token.Literal
import ScriptToGo.Token.Number

/-! Cutting source text into tokens. -/
namespace ScriptToGo

def symbol? (spelling : String) : Option TokenKind :=
  ((Operator.ofSpelling? spelling).map .operator).or
    ((Punctuation.ofSpelling? spelling).map .punctuation)

/-- The longest symbol at the front of the text and its length. No symbol takes more than three
characters. -/
def symbolAt? (cs : List Char) : Option (TokenKind × Nat) :=
  [3, 2, 1].findSome? fun size =>
    let front := cs.take size
    (symbol? (String.ofList front)).map (·, front.length)

def wordKind (name : String) : TokenKind :=
  match Keyword.ofSpelling? name with
  | some word => .keyword word
  | none => .ident name

/-- The text after a block comment whose opening is already read, and the offset there. -/
def skipComment (pos : Nat) : List Char → Option (Nat × List Char)
  | [] => none
  | c :: rest =>
    if c = '*' ∧ rest.head? = some '/' then some (pos + 2, rest.drop 1)
    else skipComment (pos + c.utf8Size) rest

/-- What stands at the front of a text. -/
inductive Lexeme
  | skipped
  | token (kind : TokenKind)
  /-- A template whose interpolations are still text. -/
  | template (head : LiteralText) (holes : List HoleText)
  | faulty (errors : List SyntaxError)

/-- A lexeme together with the text that is left after it. -/
structure Scan where
  lexeme : Lexeme
  pos : Nat
  rest : List Char

namespace Scan

/-- Skips a line comment, up to but not over the line end. -/
def lineComment (pos : Nat) (rest : List Char) : Scan :=
  let comment := rest.takeWhile (· ≠ '\n')
  ⟨.skipped, pos + 1 + Text.byteLength comment, rest.dropWhile (· ≠ '\n')⟩

/-- Skips a block comment, given the text after its two opening characters. -/
def blockComment (pos : Nat) (inside : List Char) : Scan :=
  match skipComment (pos + 2) inside with
  | some (next, after) => ⟨.skipped, next, after⟩
  | none =>
    let stop := pos + 2 + Text.byteLength inside
    ⟨.faulty [⟨.unterminatedComment, ⟨pos, stop⟩⟩], stop, []⟩

/-- Reads a string literal after its opening quote. -/
def string (pos : Nat) (quote : Char) (rest : List Char) : Scan :=
  let s := scanString pos quote (pos + 1) rest
  ⟨if s.text.faults.isEmpty then .token (.string (String.ofList s.text.chars))
    else .faulty s.text.faults, s.pos, s.rest⟩

/-- Reads a template literal after its opening backtick. -/
def template (pos : Nat) (rest : List Char) : Scan :=
  let t := scanTemplate pos (pos + 1) rest
  ⟨.template t.head t.holes, t.pos, t.rest⟩

def number (pos : Nat) (c : Char) (rest : List Char) : Scan :=
  let n := NumberScan.read c rest
  let stop := pos + Text.byteLength n.chars
  match n.fault? with
  | none => ⟨.token (.number (String.ofList n.chars)), stop, n.rest⟩
  | some fault => ⟨.faulty [⟨fault, ⟨pos, stop⟩⟩], stop, n.rest⟩

def word (pos : Nat) (c : Char) (rest : List Char) : Scan :=
  let tail := rest.takeWhile isWordPart
  ⟨.token (wordKind (String.ofList (c :: tail))), pos + 1 + tail.length, rest.dropWhile isWordPart⟩

def symbol (pos : Nat) (c : Char) (rest : List Char) : Scan :=
  match symbolAt? (c :: rest) with
  | some (kind, length) => ⟨.token kind, pos + length, (c :: rest).drop length⟩
  | none =>
    let stop := pos + c.utf8Size
    ⟨.faulty [⟨.unexpectedCharacter c, ⟨pos, stop⟩⟩], stop, rest⟩

/-- Reads the lexeme that starts with the character `c` at offset `pos`. -/
def next (pos : Nat) (c : Char) (rest : List Char) : Scan :=
  if c = ' ' ∨ c = '\t' ∨ c = '\r' ∨ c = '\n' then ⟨.skipped, pos + 1, rest⟩
  else if c = '/' ∧ rest.head? = some '/' then lineComment pos rest
  else if c = '/' ∧ rest.head? = some '*' then blockComment pos (rest.drop 1)
  else if c = '"' ∨ c = '\'' then string pos c rest
  else if c = '\x60' then template pos rest
  else if Text.isDigit c ∨ (c = '.' ∧ rest.head?.any Text.isDigit) then number pos c rest
  else if isWordStart c then word pos c rest
  else symbol pos c rest

end Scan

end ScriptToGo
