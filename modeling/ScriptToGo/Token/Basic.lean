import ScriptToGo.Text.Span
import ScriptToGo.Vocabulary.Keyword
import ScriptToGo.Vocabulary.Operator
import ScriptToGo.Vocabulary.Punctuation

/-! The tokens that source text is cut into. -/
namespace ScriptToGo

mutual

/-- What a token is, with the text it carries. -/
inductive TokenKind
  | keyword (word : Keyword)
  | operator (op : Operator)
  | punctuation (mark : Punctuation)
  | ident (name : String)
  | number (text : String)
  /-- A string, written as the inside of a Go string literal. -/
  | string (body : String)
  /-- A template: its leading text and its holes. Texts are written as string bodies are. -/
  | template (head : String) (holes : List Hole)
  | eof

/-- A token and the bytes it takes. -/
inductive Token
  | mk (kind : TokenKind) (span : Span)

/-- An interpolation with its tokens, the bytes between its braces, and the static text after it. -/
inductive Hole
  | mk (tokens : List Token) (span : Span) (after : String)

end

namespace Token

def kind : Token → TokenKind
  | mk kind _ => kind

def span : Token → Span
  | mk _ span => span

end Token

namespace Hole

def tokens : Hole → List Token
  | mk tokens _ _ => tokens

def span : Hole → Span
  | mk _ span _ => span

/-- The static text up to the next hole or the end of the template. -/
def after : Hole → String
  | mk _ _ after => after

end Hole

/-- How a message names a token that it did not expect. -/
def TokenKind.describe : TokenKind → String
  | keyword word => s!"'{word.spelling}'"
  | operator op => s!"'{op.spelling}'"
  | punctuation mark => s!"'{mark.spelling}'"
  | ident name => s!"identifier '{name}'"
  | number text => s!"number '{text}'"
  | string _ => "string literal"
  | template _ _ => "template literal"
  | eof => "end of file"

end ScriptToGo
