import ScriptToGo.Text.Spelling
import ScriptToGo.Token.Fault

/-! Escape sequences, rewritten into those that Go string literals know. -/
namespace ScriptToGo.Escape

/-- The value of a hexadecimal digit of either case. -/
def hexValue? (c : Char) : Option Nat :=
  if '0' ≤ c ∧ c ≤ '9' then some (c.toNat - '0'.toNat)
  else if 'a' ≤ c ∧ c ≤ 'f' then some (c.toNat - 'a'.toNat + 10)
  else if 'A' ≤ c ∧ c ≤ 'F' then some (c.toNat - 'A'.toNat + 10)
  else none

/-- Whether a character is a hexadecimal digit. -/
def isHexDigit (c : Char) : Bool := (hexValue? c).isSome

def hexNumber (digits : List Char) : Nat :=
  digits.foldl (fun value c => value * 16 + (hexValue? c).getD 0) 0

/-- The lower-case hexadecimal digit of a value below sixteen. -/
def hexDigit (value : Nat) : Char :=
  if value < 10 then Char.ofNat ('0'.toNat + value) else Char.ofNat ('a'.toNat + (value - 10))

/-- The last `width` hexadecimal digits of a number. -/
def hexDigits : Nat → Nat → List Char
  | 0, _ => []
  | width + 1, value => hexDigits width (value / 16) ++ [hexDigit (value % 16)]

def byteEscape (code : Nat) : List Char := '\\' :: 'x' :: hexDigits 2 code

/-- A code point as a Go escape, the short form if four digits suffice. -/
def codeEscape (code : Nat) : List Char :=
  if code ≤ 0xFFFF then '\\' :: 'u' :: hexDigits 4 code else '\\' :: 'U' :: hexDigits 8 code

/-- What an escape sequence stands for, and how many characters it takes after the one that
names it. Those are all ASCII. -/
structure Reading where
  /-- The text for a Go literal, or what is wrong. -/
  outcome : Except SyntaxFault (List Char)
  /-- The number of characters after the naming one. -/
  extra : Nat

/-- The leading hexadecimal digits, at most `limit` of them. -/
def leadingHex (limit : Nat) (cs : List Char) : List Char :=
  (cs.take limit).takeWhile isHexDigit

def readByte (cs : List Char) : Reading :=
  let digits := leadingHex 2 cs
  if digits.length = 2 then
    let code := hexNumber digits
    ⟨.ok (if code < 0x80 then byteEscape code else codeEscape code), 2⟩
  else ⟨.error .badHexEscape, digits.length⟩

/-- The leading digits of a braced escape, up to and including the one that takes its value past
32 bits. -/
def boundedHex (value : Nat) : List Char → List Char
  | [] => []
  | c :: rest =>
    match hexValue? c with
    | none => []
    | some digit =>
      let value := value * 16 + digit
      if value < 0x100000000 then c :: boundedHex value rest else [c]

/-- Reads the code point of a braced escape after its opening brace. -/
def readBraced (cs : List Char) : Reading :=
  let digits := boundedHex 0 cs
  let code := hexNumber digits
  if digits ≠ [] ∧ code < 0x100000000 ∧ (cs.drop digits.length).head? = some '\x7d' then
    ⟨if code.isValidChar then .ok (codeEscape code) else .error .badUnicodeEscape, digits.length + 2⟩
  else ⟨.error .badUnicodeEscape, digits.length + 1⟩

/-- The low surrogate that an escape at the front of the text writes, if one does. -/
def lowSurrogate? : List Char → Option Nat
  | '\\' :: 'u' :: rest =>
    let digits := leadingHex 4 rest
    let unit := hexNumber digits
    if digits.length = 4 ∧ 0xDC00 ≤ unit ∧ unit < 0xE000 then some unit else none
  | _ => none

/-- Reads four hexadecimal digits. A high surrogate joins the low one that an escape right after
it writes. -/
def readUnit (cs : List Char) : Reading :=
  let digits := leadingHex 4 cs
  if digits.length = 4 then
    let unit := hexNumber digits
    match if 0xD800 ≤ unit ∧ unit < 0xDC00 then lowSurrogate? (cs.drop 4) else none with
    | some low => ⟨.ok (codeEscape (0x10000 + (unit - 0xD800) * 1024 + (low - 0xDC00))), 10⟩
    | none => ⟨if unit.isValidChar then .ok (codeEscape unit) else .error .badUnicodeEscape, 4⟩
  else ⟨.error .badUnicodeEscape, digits.length⟩

/-- Reads an escape sequence from the character after its backslash and what follows that. -/
def read (c : Char) (rest : List Char) : Reading :=
  if c = '\n' ∨ c = '\u2028' ∨ c = '\u2029' then ⟨.ok [], 0⟩
  else if c = '\r' then ⟨.ok [], if rest.head? = some '\n' then 1 else 0⟩
  else if c = '\'' ∨ c = '\x60' ∨ c = '$' then ⟨.ok [c], 0⟩
  else if c ∈ ['\\', '"', 'n', 'r', 't', 'b', 'f', 'v'] then ⟨.ok ['\\', c], 0⟩
  else if c = '0' ∧ rest.head?.any Text.isDigit = false then ⟨.ok (byteEscape 0), 0⟩
  else if Text.isDigit c then ⟨.error .octalEscape, 0⟩
  else if c = 'x' then readByte rest
  else if c = 'u' then
    if rest.head? = some '\x7b' then readBraced (rest.drop 1) else readUnit rest
  else ⟨.ok [c], 0⟩

end ScriptToGo.Escape
