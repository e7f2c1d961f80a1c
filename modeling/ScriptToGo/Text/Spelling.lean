/-! Simple questions about how a text is written, and the characters that count as blank in it. -/
namespace ScriptToGo.Text

def isDigit (c : Char) : Bool := '0' ≤ c && c ≤ '9'

/-- Whether a text begins with an ASCII digit. -/
def startsWithDigit (text : String) : Bool :=
  match text.toList with
  | [] => false
  | c :: _ => isDigit c

/-- Whether a text stands between two double or two single quotes. -/
def isQuoted (text : String) : Bool :=
  match text.toList with
  | c :: rest => (c == '"' || c == '\'') && rest.getLast? == some c
  | [] => false

/-- White space of any script: tabs and line ends, spaces of every width, and the line and
paragraph separators. -/
def isBlank (c : Char) : Bool :=
  let code := c.toNat
  (0x9 ≤ code && code ≤ 0xD) || code == 0x20 || code == 0x85 || code == 0xA0 || code == 0x1680
    || (0x2000 ≤ code && code ≤ 0x200A) || code == 0x2028 || code == 0x2029 || code == 0x202F
    || code == 0x205F || code == 0x3000

def trimBlanks (cs : List Char) : List Char :=
  ((cs.dropWhile isBlank).reverse.dropWhile isBlank).reverse

end ScriptToGo.Text
