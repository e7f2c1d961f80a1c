/-! The punctuation marks of the source language. -/
namespace ScriptToGo

/-- A punctuation mark that is no operator. -/
inductive Punctuation
  | ellipsis | comma | colon | semicolon | question | dot
  | leftParen | rightParen | leftBracket | rightBracket | leftBrace | rightBrace
deriving DecidableEq

/-- What a punctuation mark is used for. -/
inductive Punctuation.Category
  | delimiter | separator | access | marker
deriving DecidableEq

namespace Punctuation

/-- Every punctuation mark, the longest first. -/
def all : List Punctuation :=
  [ellipsis, comma, colon, semicolon, question, dot,
   leftParen, rightParen, leftBracket, rightBracket, leftBrace, rightBrace]

/-- The source spelling of a punctuation mark. -/
def spelling : Punctuation → String
  | ellipsis => "..."
  | comma => ","
  | colon => ":"
  | semicolon => ";"
  | question => "?"
  | dot => "."
  | leftParen => "("
  | rightParen => ")"
  | leftBracket => "["
  | rightBracket => "]"
  | leftBrace => "\x7b"
  | rightBrace => "\x7d"

/-- The category under which a punctuation mark is listed. -/
def category : Punctuation → Category
  | ellipsis | question => .marker
  | comma | colon | semicolon => .separator
  | dot => .access
  | leftParen | rightParen | leftBracket | rightBracket | leftBrace | rightBrace => .delimiter

def ofSpelling? (text : String) : Option Punctuation :=
  all.find? (·.spelling == text)

end Punctuation

end ScriptToGo
