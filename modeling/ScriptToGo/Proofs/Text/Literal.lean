import Mathlib.Algebra.Group.Nat.Defs
import ScriptToGo.Proofs.Token.EscapeForms

/-! The text that a literal of the source language stands for, and the insides of interpreted Go string
literals, read one character or hexadecimal code at a time. -/
namespace ScriptToGo.Text

def digit? (c : Char) : Option Nat :=
  (List.range 16).find? fun value => value.digitChar == c.toLower

/-- The number that hexadecimal digits of either case write. -/
def code? (digits : List Char) : Option Nat :=
  digits.foldlM (fun code c => (digit? c).map (16 * code + ·)) 0

/-- The number that the first `width` characters write, if they are so many digits. -/
def leadingCode? (width : Nat) (cs : List Char) : Option Nat :=
  let digits := cs.take width
  if digits.length = width then code? digits else none

/-- The character with this code point. Surrogates are no characters. -/
def scalar? (code : Nat) : Option Char :=
  if code.isValidChar then some (Char.ofNat code) else none

theorem scalar?_of_valid {code : Nat} (valid : code.isValidChar) :
    scalar? code = some (Char.ofNat code) := if_pos valid

theorem leadingCode?_append (digits more : List Char) :
    leadingCode? digits.length (digits ++ more) = code? digits := by
  rw [leadingCode?, List.take_left]
  exact if_pos rfl

theorem exists_of_leadingCode? {width code : Nat} {cs : List Char}
    (h : leadingCode? width cs = some code) :
    ∃ digits more, cs = digits ++ more ∧ digits.length = width ∧ code? digits = some code := by
  rw [leadingCode?] at h
  split at h
  next full => exact ⟨cs.take width, cs.drop width, (List.take_append_drop width cs).symm, full, h⟩
  · cases h

theorem hexValue?_of_not_ascii {c : Char} (h : ¬c.toNat < 128) : Escape.hexValue? c = none := by
  cases found : Escape.hexValue? c with
  | none => rfl
  | some value =>
    have ascii := Escape.utf8Size_of_isHexDigit (Escape.isHexDigit_iff.2 ⟨value, found⟩)
    rw [Char.utf8Size_eq_one_iff, UInt32.le_iff_toNat_le] at ascii
    exact absurd (Nat.lt_succ_of_le ascii) h

theorem digit?_of_not_ascii {c : Char} (h : ¬c.toNat < 128) : digit? c = none := by
  have lower : c.toLower = c := by
    refine dif_neg fun range => ?_
    have below := UInt32.le_iff_toNat_le.1 range.2
    exact h (Nat.lt_of_le_of_lt below (by decide))
  have ascii : ∀ value ∈ List.range 16, value.digitChar.toNat < 128 := by decide
  rw [digit?, List.find?_eq_none, lower]
  intro value mem same
  exact h (eq_of_beq same ▸ ascii value mem)

theorem digit?_eq_hexValue? (c : Char) : digit? c = Escape.hexValue? c := by
  have ascii : ∀ code < 128, digit? (Char.ofNat code) = Escape.hexValue? (Char.ofNat code) := by
    decide +kernel
  by_cases below : c.toNat < 128
  · have same := ascii c.toNat below
    rwa [Char.ofNat_toNat] at same
  · rw [digit?_of_not_ascii below, hexValue?_of_not_ascii below]

theorem code?_append (front back : List Char) :
    code? (front ++ back) = (code? front).bind fun code =>
      back.foldlM (fun code c => (digit? c).map (16 * code + ·)) code := by
  rw [code?, List.foldlM_append]
  rfl

theorem code?_eq_hexNumber {digits : List Char} (hex : Escape.AllHex digits) :
    code? digits = some (Escape.hexNumber digits) := by
  have onwards : ∀ code, digits.foldlM (fun code c => (digit? c).map (16 * code + ·)) code
      = some (digits.foldl (fun value c => value * 16 + (Escape.hexValue? c).getD 0) code) := by
    induction digits with
    | nil => intro code; rfl
    | cons c rest ih =>
      intro code
      obtain ⟨first, others⟩ := List.forall_mem_cons.1 hex
      obtain ⟨value, found⟩ := Escape.isHexDigit_iff.1 first
      rw [List.foldlM_cons, List.foldl_cons, digit?_eq_hexValue?, found, Option.map_some,
        Option.getD_some, Nat.mul_comm 16]
      exact ih others _
  exact onwards 0

theorem digit?_hexDigit {value : Nat} (h : value < 16) :
    digit? (Escape.hexDigit value) = some value := by
  have all : ∀ value < 16, digit? (Escape.hexDigit value) = some value := by decide +kernel
  exact all value h

/-- The digits that are written for a number are those of the number. -/
theorem code?_hexDigits {width code : Nat} (fits : code < 16 ^ width) :
    code? (Escape.hexDigits width code) = some code := by
  induction width generalizing code with
  | zero =>
    obtain rfl : code = 0 := by simpa using fits
    rfl
  | succ width ih =>
    have higher : code / 16 < 16 ^ width := by
      rw [Nat.pow_succ] at fits
      omega
    rw [Escape.hexDigits, code?_append, ih higher, Option.bind_some, List.foldlM_cons,
      digit?_hexDigit (Nat.mod_lt code (by decide)), Option.map_some, Nat.div_add_mod]
    rfl

theorem digit?_lt {c : Char} {value : Nat} (h : digit? c = some value) : value < 16 :=
  List.mem_range.1 (List.mem_of_find?_eq_some h)

theorem exists_digit_of_code? {digits : List Char} {code : Nat} (h : code? digits = some code) :
    ∀ c ∈ digits, ∃ value, digit? c = some value := by
  have onwards : ∀ first, digits.foldlM (fun code c => (digit? c).map (16 * code + ·)) first
      = some code → ∀ c ∈ digits, ∃ value, digit? c = some value := by
    clear h
    induction digits with
    | nil => exact fun _ _ => List.forall_mem_nil _
    | cons c rest ih =>
      intro first h
      rw [List.foldlM_cons] at h
      obtain ⟨next, found, h⟩ := Option.bind_eq_some_iff.1 h
      obtain ⟨value, read, -⟩ := Option.map_eq_some_iff.1 found
      exact List.forall_mem_cons.2 ⟨⟨value, read⟩, ih next h⟩
  exact onwards 0 h

theorem code?_lt {digits : List Char} {code : Nat} (h : code? digits = some code) :
    code < 16 ^ digits.length := by
  have onwards : ∀ first, digits.foldlM (fun code c => (digit? c).map (16 * code + ·)) first
      = some code → code < (first + 1) * 16 ^ digits.length := by
    clear h
    induction digits with
    | nil =>
      intro first h
      cases h
      simp
    | cons c rest ih =>
      intro first h
      rw [List.foldlM_cons] at h
      obtain ⟨next, found, h⟩ := Option.bind_eq_some_iff.1 h
      obtain ⟨value, read, rfl⟩ := Option.map_eq_some_iff.1 found
      have small := digit?_lt read
      calc
        code < (16 * first + value + 1) * 16 ^ rest.length := ih _ h
        _ ≤ ((first + 1) * 16) * 16 ^ rest.length := Nat.mul_le_mul_right _ (by omega)
        _ = (first + 1) * 16 ^ (rest.length + 1) := by rw [Nat.pow_succ', Nat.mul_assoc]
  have below := onwards 0 h
  rwa [Nat.zero_add, Nat.one_mul] at below

theorem length_hexDigits (width code : Nat) : (Escape.hexDigits width code).length = width := by
  induction width generalizing code with
  | zero => rfl
  | succ width ih => rw [Escape.hexDigits, List.length_append, ih, List.length_singleton]

end ScriptToGo.Text

namespace ScriptToGo

/-- The character that a letter stands for after a backslash. -/
def Text.letterValue? (c : Char) : Option Char :=
  [('n', '\n'), ('r', '\r'), ('t', '\t'), ('b', '\x08'), ('f', '\x0c'), ('v', '\x0b')].lookup c

namespace GoLiteral
open Text

/-- A character of a literal, and the way in which it is written. -/
structure Piece where
  written : List Char
  value : Char

/-- Reads an escape with a fixed number of hexadecimal digits, given what follows its mark. Its
code has to stay below the limit. -/
def codePiece? (mark : Char) (width limit : Nat) (cs : List Char) : Option (Piece × List Char) :=
  ((leadingCode? width cs).filter (· < limit)).bind fun code =>
    (scalar? code).map fun value => (⟨'\\' :: mark :: cs.take width, value⟩, cs.drop width)

/-- Reads an escape sequence, given what follows its backslash. -/
def escapePiece? : List Char → Option (Piece × List Char)
  | [] => none
  | mark :: rest =>
    if mark = 'x' then codePiece? mark 2 0x80 rest
    else if mark = 'u' then codePiece? mark 4 0x110000 rest
    else if mark = 'U' then codePiece? mark 8 0x110000 rest
    else if mark = '\\' ∨ mark = '"' then some (⟨['\\', mark], mark⟩, rest)
    else (letterValue? mark).map fun value => (⟨['\\', mark], value⟩, rest)

/-- Reads the character at the front. A quote ends the literal, and no line end stands in one. -/
def piece? : List Char → Option (Piece × List Char)
  | [] => none
  | c :: rest =>
    if c = '"' ∨ c = '\n' then none
    else if c = '\\' then escapePiece? rest
    else some (⟨[c], c⟩, rest)

/-- A way to write a character that is read in the same way whatever follows it. -/
def Piece.Valid (p : Piece) : Prop := ∀ more, piece? (p.written ++ more) = some (p, more)

variable {cs rest : List Char} {p : Piece}

theorem codePiece?_eq_some {mark : Char} {width limit : Nat}
    (h : codePiece? mark width limit cs = some (p, rest)) :
    ∃ digits code, cs = digits ++ rest ∧ digits.length = width ∧ code? digits = some code ∧
      code < limit ∧ code.isValidChar ∧ p = ⟨'\\' :: mark :: digits, Char.ofNat code⟩ := by
  obtain ⟨code, filtered, found⟩ := Option.bind_eq_some_iff.1 h
  obtain ⟨leading, below⟩ := Option.filter_eq_some_iff.1 filtered
  obtain ⟨digits, more, rfl, rfl, read⟩ := exists_of_leadingCode? leading
  obtain ⟨value, scalar, same⟩ := Option.map_eq_some_iff.1 found
  rw [List.take_left, List.drop_left] at same
  obtain ⟨rfl, rfl⟩ := Prod.mk.inj same
  rw [scalar?] at scalar
  split at scalar
  next valid =>
    cases scalar
    exact ⟨digits, code, rfl, rfl, read, of_decide_eq_true below, valid, rfl⟩
  · cases scalar

theorem codePiece?_append {mark : Char} {limit code : Nat} {digits : List Char}
    (read : code? digits = some code) (below : code < limit) (valid : code.isValidChar)
    (more : List Char) :
    codePiece? mark digits.length limit (digits ++ more)
      = some (⟨'\\' :: mark :: digits, Char.ofNat code⟩, more) := by
  rw [codePiece?, leadingCode?_append, read, Option.filter_some, if_pos (decide_eq_true below),
    Option.bind_some, scalar?_of_valid valid, List.take_left, List.drop_left]
  rfl

theorem piece?_escape (cs : List Char) : piece? ('\\' :: cs) = escapePiece? cs := by
  simp [piece?]

/-- The marks of escapes with digits, with the number of digits and the limit of each. -/
def codeMarks : List (Char × Nat × Nat) := [('x', 2, 0x80), ('u', 4, 0x110000), ('U', 8, 0x110000)]

theorem escapePiece?_code {mark : Char} {width limit : Nat} (marks : (mark, width, limit) ∈ codeMarks)
    (cs : List Char) : escapePiece? (mark :: cs) = codePiece? mark width limit cs := by
  simp only [codeMarks, List.mem_cons, Prod.mk.injEq, List.not_mem_nil, or_false] at marks
  rcases marks with ⟨rfl, rfl, rfl⟩ | ⟨rfl, rfl, rfl⟩ | ⟨rfl, rfl, rfl⟩ <;> simp [escapePiece?]

theorem escapePiece?_eq {mark : Char} (uncoded : mark ≠ 'x' ∧ mark ≠ 'u' ∧ mark ≠ 'U')
    (cs : List Char) :
    escapePiece? (mark :: cs) =
      (if mark = '\\' ∨ mark = '"' then some mark else letterValue? mark).map fun value =>
        (⟨['\\', mark], value⟩, cs) := by
  rw [escapePiece?, if_neg uncoded.1, if_neg uncoded.2.1, if_neg uncoded.2.2]
  split <;> rfl

namespace Piece

/-- A character that stands for itself. -/
def plain (c : Char) : Piece := ⟨[c], c⟩

/-- A character written by another one after a backslash. -/
def named (mark value : Char) : Piece := ⟨['\\', mark], value⟩

/-- A character written by the digits of its code. -/
def coded (mark : Char) (digits : List Char) (code : Nat) : Piece :=
  ⟨'\\' :: mark :: digits, Char.ofNat code⟩

theorem plain_valid {c : Char} (inside : c ≠ '"' ∧ c ≠ '\n') (bare : c ≠ '\\') :
    (plain c).Valid := by
  intro more
  simp [plain, piece?, inside, bare]

theorem named_valid {mark value : Char} (uncoded : mark ≠ 'x' ∧ mark ≠ 'u' ∧ mark ≠ 'U')
    (names : (if mark = '\\' ∨ mark = '"' then some mark else letterValue? mark) = some value) :
    (named mark value).Valid := by
  intro more
  rw [named, List.cons_append, List.singleton_append, piece?_escape, escapePiece?_eq uncoded, names]
  rfl

theorem coded_valid {mark : Char} {limit code : Nat} {digits : List Char}
    (marks : (mark, digits.length, limit) ∈ codeMarks) (read : code? digits = some code)
    (below : code < limit) (valid : code.isValidChar) : (coded mark digits code).Valid := by
  intro more
  rw [coded, List.cons_append, List.cons_append, piece?_escape, escapePiece?_code marks,
    codePiece?_append read below valid]

/-- The ways in which a character can be written. -/
inductive Form : Piece → Prop
  | plain {c} : c ≠ '"' ∧ c ≠ '\n' → c ≠ '\\' → Form (plain c)
  | named {mark value} : mark ≠ 'x' ∧ mark ≠ 'u' ∧ mark ≠ 'U' →
      (if mark = '\\' ∨ mark = '"' then some mark else letterValue? mark) = some value →
      Form (named mark value)
  | coded {mark limit code digits} : (mark, digits.length, limit) ∈ codeMarks →
      code? digits = some code → code < limit → code.isValidChar → Form (coded mark digits code)

theorem Form.valid (h : p.Form) : p.Valid := by
  cases h with
  | plain inside bare => exact plain_valid inside bare
  | named uncoded names => exact named_valid uncoded names
  | coded marks read below valid => exact coded_valid marks read below valid

theorem Form.written_ne_nil (h : p.Form) : p.written ≠ [] := by
  cases h <;> exact List.cons_ne_nil _ _

end Piece

theorem codePiece?_form {mark : Char} {width limit : Nat} (marks : (mark, width, limit) ∈ codeMarks)
    (h : codePiece? mark width limit cs = some (p, rest)) :
    '\\' :: mark :: cs = p.written ++ rest ∧ p.Form := by
  obtain ⟨digits, code, rfl, rfl, read, below, valid, rfl⟩ := codePiece?_eq_some h
  exact ⟨rfl, .coded marks read below valid⟩

/-- What is read is taken off the front, in one of the forms. -/
theorem piece?_eq_some (h : piece? cs = some (p, rest)) : cs = p.written ++ rest ∧ p.Form := by
  cases cs with
  | nil => cases h
  | cons c more =>
    rw [piece?] at h
    split at h
    · cases h
    next inside =>
    split at h
    next backslash =>
      subst backslash
      cases more with
      | nil => cases h
      | cons mark left =>
        by_cases coded : ∃ width limit, (mark, width, limit) ∈ codeMarks
        · obtain ⟨width, limit, marks⟩ := coded
          rw [escapePiece?_code marks] at h
          exact codePiece?_form marks h
        · have uncoded : mark ≠ 'x' ∧ mark ≠ 'u' ∧ mark ≠ 'U' := by
            refine ⟨?_, ?_, ?_⟩ <;> rintro rfl
            · exact coded ⟨2, 0x80, by decide⟩
            · exact coded ⟨4, 0x110000, by decide⟩
            · exact coded ⟨8, 0x110000, by decide⟩
          rw [escapePiece?_eq uncoded] at h
          obtain ⟨value, names, same⟩ := Option.map_eq_some_iff.1 h
          obtain ⟨rfl, rfl⟩ := Prod.mk.inj same
          exact ⟨rfl, .named uncoded names⟩
    next bare =>
      cases h
      exact ⟨rfl, .plain (not_or.1 inside) bare⟩

theorem Piece.Valid.form (h : p.Valid) : p.Form := (piece?_eq_some (h [])).2

theorem piece?_length (h : piece? cs = some (p, rest)) : rest.length < cs.length := by
  obtain ⟨rfl, form⟩ := piece?_eq_some h
  have := List.length_pos_iff.2 form.written_ne_nil
  rw [List.length_append]
  omega

/-- The characters of a literal, each with the way in which it is written. -/
def pieces (cs : List Char) : Option (List Piece) :=
  match cs with
  | [] => some []
  | c :: rest =>
    match _h : piece? (c :: rest) with
    | none => none
    | some (p, left) => (pieces left).map (p :: ·)
termination_by cs.length
decreasing_by exact piece?_length _h

/-- The text that a literal stands for, if it is the inside of a literal. -/
def decode (cs : List Char) : Option (List Char) := (pieces cs).map (·.map Piece.value)

theorem pieces_nil : pieces [] = some [] := by rw [pieces]

theorem pieces_of_piece? (h : piece? cs = some (p, rest)) :
    pieces cs = (pieces rest).map (p :: ·) := by
  cases cs with
  | nil => cases h
  | cons c more =>
    rw [pieces]
    split
    next none => rw [none] at h; cases h
    next some => rw [some] at h; cases h; rfl

theorem pieces_append (valid : p.Valid) (more : List Char) :
    pieces (p.written ++ more) = (pieces more).map (p :: ·) :=
  pieces_of_piece? (valid more)

/-- A text is the inside of a literal in one way only: piece after piece. -/
theorem pieces_eq_some_iff {ps : List Piece} :
    pieces cs = some ps ↔ cs = ps.flatMap Piece.written ∧ ∀ p ∈ ps, p.Valid := by
  constructor
  · intro h
    induction cs using pieces.induct generalizing ps with
    | case1 =>
      rw [pieces_nil] at h
      cases h
      exact ⟨rfl, List.forall_mem_nil _⟩
    | case2 c rest none =>
      rw [pieces] at h
      split at h
      · cases h
      next some => rw [some] at none; cases none
    | case3 c rest p left found ih =>
      obtain ⟨whole, form⟩ := piece?_eq_some found
      rw [pieces_of_piece? found] at h
      obtain ⟨others, read, rfl⟩ := Option.map_eq_some_iff.1 h
      obtain ⟨rfl, valids⟩ := ih read
      exact ⟨whole, List.forall_mem_cons.2 ⟨form.valid, valids⟩⟩
  · rintro ⟨rfl, valid⟩
    induction ps with
    | nil => exact pieces_nil
    | cons p others ih =>
      obtain ⟨first, later⟩ := List.forall_mem_cons.1 valid
      rw [List.flatMap_cons, pieces_append first, ih later]
      rfl

theorem decode_eq_some_iff {text : List Char} :
    decode cs = some text ↔ ∃ ps, pieces cs = some ps ∧ ps.map Piece.value = text := by
  rw [decode, Option.map_eq_some_iff]

theorem decode_nil : decode [] = some [] := by
  rw [decode, pieces_nil]
  rfl

theorem decode_append {ps : List Piece} (valid : ∀ p ∈ ps, p.Valid) (more : List Char) :
    decode (ps.flatMap Piece.written ++ more)
      = (decode more).map (ps.map Piece.value ++ ·) := by
  induction ps with
  | nil => simp
  | cons p others ih =>
    obtain ⟨first, later⟩ := List.forall_mem_cons.1 valid
    have onwards := ih later
    rw [decode, decode, Option.map_map] at onwards ⊢
    rw [List.flatMap_cons, List.append_assoc, pieces_append first, Option.map_map]
    have := congrArg (Option.map (p.value :: ·)) onwards
    rwa [Option.map_map, Option.map_map] at this

theorem decode_written {ps : List Piece} (form : ∀ p ∈ ps, p.Form) :
    decode (ps.flatMap Piece.written) = some (ps.map Piece.value) :=
  decode_eq_some_iff.2 ⟨ps, pieces_eq_some_iff.2 ⟨rfl, fun p mem => (form p mem).valid⟩, rfl⟩

/-- What has a value as the inside of a literal is made of pieces. -/
theorem exists_form {text : List Char} (h : decode cs = some text) :
    ∃ ps : List Piece, cs = ps.flatMap Piece.written ∧ ∀ p ∈ ps, p.Form := by
  obtain ⟨ps, read, -⟩ := decode_eq_some_iff.1 h
  obtain ⟨whole, valid⟩ := pieces_eq_some_iff.1 read
  exact ⟨ps, whole, fun p mem => (valid p mem).form⟩

end GoLiteral

end ScriptToGo

namespace ScriptToGo.SourceLiteral
open Text

/-- The low surrogate that an escape sequence at the front of the text writes. -/
def low? (cs : List Char) : Option Nat :=
  if ['\\', 'u'].isPrefixOf cs then
    (leadingCode? 4 (cs.drop 2)).filter fun unit => 0xDC00 ≤ unit && unit < 0xE000
  else none

/-- The code point that two surrogates write together. -/
def join (high low : Nat) : Nat := 0x10000 + (high - 0xD800) * 1024 + (low - 0xDC00)

/-- The code point that is written between braces, given what follows the opening one, and the
number of characters this takes. -/
def braced? (cs : List Char) : Option (Nat × Nat) :=
  let digits := cs.takeWhile (· ≠ '\x7d')
  if digits ≠ [] ∧ digits.length < cs.length then (code? digits).map (·, digits.length + 1) else none

/-- The code point that four digits write, or twice four digits that are a pair of surrogates. -/
def unicode? (cs : List Char) : Option (Nat × Nat) :=
  (leadingCode? 4 cs).bind fun unit =>
    if 0xD800 ≤ unit ∧ unit < 0xDC00 then (low? (cs.drop 4)).map fun low => (join unit low, 10)
    else some (unit, 4)

/-- The code point that is written by hexadecimal digits, given the mark in front of them. -/
def codePoint? (mark : Char) (cs : List Char) : Option (Nat × Nat) :=
  if mark = 'x' then (leadingCode? 2 cs).map (·, 2)
  else if cs.head? = some '\x7b' then (braced? (cs.drop 1)).map fun (code, n) => (code, n + 1)
  else unicode? cs

/-- What an escape sequence stands for, given what follows its backslash, and how many characters
it takes from there. -/
def sequence? : List Char → Option (List Char × Nat)
  | [] => none
  | c :: rest =>
    if c = '\r' then some ([], if rest.head? = some '\n' then 2 else 1)
    else if c = '\n' ∨ c = '\u2028' ∨ c = '\u2029' then some ([], 1)
    else if c = 'x' ∨ c = 'u' then
      (codePoint? c rest).bind fun (code, n) => (scalar? code).map fun value => ([value], n + 1)
    else if isDigit c then
      if c = '0' ∧ rest.head?.any isDigit = false then some (['\x00'], 1) else none
    else some ([(letterValue? c).getD c], 1)

/-- The text that a literal stands for. A literal goes on up to one of the stops, so that none of
these is in it unless a backslash takes it in. -/
def value (stops : List (List Char)) (cs : List Char) : Option (List Char) :=
  match cs with
  | [] => some []
  | c :: rest =>
    if stops.any (·.isPrefixOf (c :: rest)) then none
    else if c = '\\' then
      (sequence? rest).bind fun (text, n) => (value stops (rest.drop n)).map (text ++ ·)
    else (value stops rest).map (c :: ·)
termination_by cs.length
decreasing_by all_goals simp only [List.length_cons, List.length_drop]; omega

section

variable {stops : List (List Char)} {c : Char} {rest : List Char}

theorem value_nil : value stops [] = some [] := by rw [value]

theorem value_char (goesOn : stops.any (·.isPrefixOf (c :: rest)) = false) (plain : c ≠ '\\') :
    value stops (c :: rest) = (value stops rest).map (c :: ·) := by
  rw [value, goesOn, if_neg Bool.false_ne_true, if_neg plain]

theorem value_escape {text : List Char} {n : Nat}
    (goesOn : stops.any (·.isPrefixOf ('\\' :: rest)) = false)
    (read : sequence? rest = some (text, n)) :
    value stops ('\\' :: rest) = (value stops (rest.drop n)).map (text ++ ·) := by
  rw [value, goesOn, if_neg Bool.false_ne_true, if_pos rfl, read]
  rfl

end

/-- Where a string between these quotes stops. -/
def stringStops (quote : Char) : List (List Char) := [[quote], ['\n']]

/-- Where the static text of a template stops. -/
def templateStops : List (List Char) := [['\x60'], ['$', '\x7b']]

theorem string_goesOn {quote c : Char} (other : c ≠ quote) (inLine : c ≠ '\n') (rest : List Char) :
    (stringStops quote).any (·.isPrefixOf (c :: rest)) = false := by
  simp [stringStops, List.isPrefixOf_cons_cons, other.symm, inLine.symm]

theorem template_goesOn {c : Char} {rest : List Char} (other : c ≠ '\x60')
    (closed : ¬(c = '$' ∧ rest.head? = some '\x7b')) :
    templateStops.any (·.isPrefixOf (c :: rest)) = false := by
  have backtick : ['\x60'].isPrefixOf (c :: rest) = false := by
    simp [List.isPrefixOf_cons_cons, other.symm]
  have opening : ['$', '\x7b'].isPrefixOf (c :: rest) = false := by
    rw [List.isPrefixOf_cons_cons, Bool.and_eq_false_iff, beq_eq_false_iff_ne]
    by_cases dollar : '$' = c
    · refine .inr ?_
      cases rest with
      | nil => rfl
      | cons next more =>
        have noBrace : '\x7b' ≠ next := fun same => closed ⟨dollar.symm, same ▸ rfl⟩
        simp [List.isPrefixOf_cons_cons, noBrace]
    · exact .inl dollar
  rw [templateStops, List.any_cons, List.any_cons, backtick, opening]
  rfl

end ScriptToGo.SourceLiteral
