import ScriptToGo.Diagnostic
import ScriptToGo.Token.Basic

/-! The ways in which a text can fail to be a program. -/
namespace ScriptToGo

/-- A way to break the rules of tokens or of grammar. -/
inductive SyntaxFault
  | unterminatedComment
  | unterminatedString
  | unterminatedTemplate
  | unexpectedCharacter (c : Char)
  | octalEscape
  | badHexEscape
  | badUnicodeEscape
  | exponentWithoutDigits
  | wordAfterNumber
  /-- The grammar wants something else than the token that is there. -/
  | expected (wanted : String) (found : TokenKind)
  | emptyInterpolation

/-- A fault and the bytes it is about. -/
structure SyntaxError where
  fault : SyntaxFault
  span : Span

def SyntaxFault.message : SyntaxFault → String
  | unterminatedComment => "Unterminated block comment"
  | unterminatedString => "Unterminated string literal"
  | unterminatedTemplate => "Unterminated template literal"
  | unexpectedCharacter c => s!"Unexpected character '{c}'"
  | octalEscape => "Octal escape sequences are not allowed"
  | badHexEscape => "Invalid hexadecimal escape sequence"
  | badUnicodeEscape => "Invalid Unicode escape sequence"
  | exponentWithoutDigits => "Exponent requires at least one digit"
  | wordAfterNumber => "An identifier or keyword cannot immediately follow a numeric literal"
  | expected wanted found => s!"Expected {wanted}, found {found.describe}"
  | emptyInterpolation => "Invalid template expression"

/-- A syntax error as it is shown to the user. -/
def SyntaxError.diagnostic (e : SyntaxError) : Diagnostic :=
  ⟨.syntactic, e.fault.message, e.span, [], []⟩

end ScriptToGo
