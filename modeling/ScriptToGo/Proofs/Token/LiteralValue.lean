import ScriptToGo.Proofs.Text.Literal
import ScriptToGo.Proofs.Token.LiteralSteps

/-! The text of a literal is the same in the source and in the Go literal made from it. -/
namespace ScriptToGo
open Text

namespace GoLiteral

variable {code : Nat}

theorem exists_piece_of_byteEscape (ascii : code < 0x80) :
    ∃ p : Piece, p.Valid ∧ Escape.byteEscape code = p.written ∧ p.value = Char.ofNat code := by
  have read : code? (Escape.hexDigits 2 code) = some code :=
    code?_hexDigits (Nat.lt_trans ascii (by decide))
  have marks : ('x', (Escape.hexDigits 2 code).length, 0x80) ∈ codeMarks := by
    rw [length_hexDigits]
    decide
  have valid : code.isValidChar := .inl (Nat.lt_trans ascii (by decide))
  exact ⟨.coded 'x' (Escape.hexDigits 2 code) code, Piece.coded_valid marks read ascii valid, rfl, rfl⟩

theorem exists_piece_of_codeEscape (valid : code.isValidChar) :
    ∃ p : Piece, p.Valid ∧ Escape.codeEscape code = p.written ∧ p.value = Char.ofNat code := by
  have below := Escape.lt_of_isValidChar valid
  by_cases short : code ≤ 0xFFFF
  · have read : code? (Escape.hexDigits 4 code) = some code :=
      code?_hexDigits (Nat.lt_of_le_of_lt short (by decide))
    have marks : ('u', (Escape.hexDigits 4 code).length, 0x110000) ∈ codeMarks := by
      rw [length_hexDigits]
      decide
    refine ⟨.coded 'u' (Escape.hexDigits 4 code) code, Piece.coded_valid marks read below valid, ?_,
      rfl⟩
    rw [Escape.codeEscape, if_pos short]
    rfl
  · have read : code? (Escape.hexDigits 8 code) = some code :=
      code?_hexDigits (Nat.lt_trans below (by decide))
    have marks : ('U', (Escape.hexDigits 8 code).length, 0x110000) ∈ codeMarks := by
      rw [length_hexDigits]
      decide
    refine ⟨.coded 'U' (Escape.hexDigits 8 code) code, Piece.coded_valid marks read below valid, ?_,
      rfl⟩
    rw [Escape.codeEscape, if_neg short]
    rfl

end GoLiteral

open GoLiteral (Piece)

namespace SourceLiteral

/-- A code point that is written with digits gives the character that has it. -/
theorem sequence?_code {mark : Char} {cs : List Char} {code n : Nat} (marks : mark = 'x' ∨ mark = 'u')
    (found : codePoint? mark cs = some (code, n)) (valid : code.isValidChar) :
    sequence? (mark :: cs) = some ([Char.ofNat code], n + 1) := by
  have noReturn : mark ≠ '\r' := by rintro rfl; rcases marks with h | h <;> cases h
  have noEnd : ¬(mark = '\n' ∨ mark = '\u2028' ∨ mark = '\u2029') := by
    rcases marks with rfl | rfl <;> decide
  rw [sequence?, if_neg noReturn, if_neg noEnd, if_pos marks, found, Option.bind_some]
  dsimp only
  rw [scalar?_of_valid valid, Option.map_some]

theorem leadingCode?_hex {width : Nat} {digits : List Char} (full : digits.length = width)
    (hex : Escape.AllHex digits) (after : List Char) :
    leadingCode? width (digits ++ after) = some (Escape.hexNumber digits) := by
  rw [← code?_eq_hexNumber hex, ← leadingCode?_append digits after, full]

theorem codePoint?_byte {digits : List Char} (two : digits.length = 2) (hex : Escape.AllHex digits)
    (after : List Char) :
    codePoint? 'x' (digits ++ after) = some (Escape.hexNumber digits, 2) := by
  rw [codePoint?, if_pos rfl, leadingCode?_hex two hex, Option.map_some]

theorem codePoint?_braced {digits : List Char} (some : digits ≠ []) (hex : Escape.AllHex digits)
    (after : List Char) :
    codePoint? 'u' ('\x7b' :: digits ++ '\x7d' :: after)
      = .some (Escape.hexNumber digits, digits.length + 2) := by
  have noBrace : ∀ c ∈ digits, c ≠ '\x7d' := by
    intro c mem same
    have is := hex c mem
    rw [same] at is
    exact absurd is (by decide)
  have inside : (digits ++ '\x7d' :: after).takeWhile (· ≠ '\x7d') = digits := by
    rw [List.takeWhile_append_of_pos (by simpa using noBrace)]
    simp
  have closed : braced? (digits ++ '\x7d' :: after)
      = .some (Escape.hexNumber digits, digits.length + 1) := by
    rw [braced?, inside, code?_eq_hexNumber hex]
    simp [some]
  simp [codePoint?, closed]

theorem codePoint?_unicode {digits : List Char} (some : digits ≠ []) (hex : Escape.AllHex digits)
    (after : List Char) : codePoint? 'u' (digits ++ after) = unicode? (digits ++ after) := by
  have noBrace := hex.head?_ne some (by decide : Escape.isHexDigit '\x7b' = false) after
  rw [codePoint?, if_neg (by decide), if_neg noBrace]

theorem codePoint?_unit {digits : List Char} (four : digits.length = 4) (hex : Escape.AllHex digits)
    (valid : (Escape.hexNumber digits).isValidChar) (after : List Char) :
    codePoint? 'u' (digits ++ after) = some (Escape.hexNumber digits, 4) := by
  have single : ¬(0xD800 ≤ Escape.hexNumber digits ∧ Escape.hexNumber digits < 0xDC00) := by
    rcases valid with below | ⟨above, -⟩ <;> omega
  rw [codePoint?_unicode (List.ne_nil_of_length_eq_add_one four) hex, unicode?,
    leadingCode?_hex four hex, Option.bind_some, if_neg single]

theorem codePoint?_pair {high low : List Char} (four : high.length = 4) (hex : Escape.AllHex high)
    (isHigh : Escape.IsHighSurrogate (Escape.hexNumber high)) (lowFour : low.length = 4)
    (lowHex : Escape.AllHex low) (isLow : Escape.IsLowSurrogate (Escape.hexNumber low))
    (after : List Char) :
    codePoint? 'u' (high ++ ('\\' :: 'u' :: low ++ after))
      = some (join (Escape.hexNumber high) (Escape.hexNumber low), 10) := by
  have second : low? ('\\' :: 'u' :: low ++ after) = some (Escape.hexNumber low) := by
    simp only [low?, List.cons_append, List.isPrefixOf_cons_cons, beq_self_eq_true, Bool.true_and,
      List.isPrefixOf_nil_left, ↓reduceIte, List.drop_succ_cons, List.drop_zero]
    rw [leadingCode?_hex lowFour lowHex, Option.filter_some, if_pos]
    rw [Bool.and_eq_true, decide_eq_true_eq, decide_eq_true_eq]
    exact isLow
  have left : (high ++ ('\\' :: 'u' :: low ++ after)).drop 4 = '\\' :: 'u' :: low ++ after :=
    four ▸ List.drop_left
  have range : 0xD800 ≤ Escape.hexNumber high ∧ Escape.hexNumber high < 0xDC00 := isHigh
  rw [codePoint?_unicode (List.ne_nil_of_length_eq_add_one four) hex, unicode?,
    leadingCode?_hex four hex, Option.bind_some, if_pos range, left, second, Option.map_some]

/-- A single character after a backslash is the name of a character, or passes for itself. -/
theorem sequence?_single {c : Char} (other : c ∉ ['\n', '\u2028', '\u2029', '\r', 'x', 'u'])
    (noDigit : isDigit c = false) (after : List Char) :
    sequence? (c :: after) = some ([(letterValue? c).getD c], 1) := by
  simp only [List.mem_cons, List.not_mem_nil, or_false, not_or] at other
  simp [sequence?, other, noDigit]

theorem letterValue?_eq_none {c : Char} (other : c ∉ ['n', 'r', 't', 'b', 'f', 'v']) :
    letterValue? c = none := by
  rw [letterValue?, List.lookup_eq_none_iff]
  intro entry mem
  simp only [List.mem_cons, List.not_mem_nil, or_false, not_or] at other mem
  rcases mem with rfl | rfl | rfl | rfl | rfl | rfl <;> simp [other]

end SourceLiteral

namespace Escape

theorem isValidChar_byte {digits : List Char} (two : digits.length = 2) (hex : AllHex digits) :
    (hexNumber digits).isValidChar := by
  have small := code?_lt (code?_eq_hexNumber hex)
  rw [two] at small
  have below : hexNumber digits < 0xD800 := by omega
  exact .inl below

theorem isValidChar_join {high low : Nat} (isHigh : IsHighSurrogate high) (isLow : IsLowSurrogate low) :
    (SourceLiteral.join high low).isValidChar := by
  have above : high < 0xDC00 := isHigh.2
  have below : low < 0xE000 := isLow.2
  have code : SourceLiteral.join high low = 0x10000 + (high - 0xD800) * 1024 + (low - 0xDC00) := rfl
  have least : 0xDFFF < SourceLiteral.join high low := by omega
  have most : SourceLiteral.join high low < 0x110000 := by omega
  exact .inr ⟨least, most⟩

/-- An escape sequence, given what follows its backslash, takes `n` characters of it and stands for
what a Go literal has in its place. -/
def StandsFor (cs : List Char) (n : Nat) (out : List Char) : Prop :=
  ∃ ps : List Piece, (∀ p ∈ ps, p.Valid) ∧ out = ps.flatMap Piece.written ∧
    SourceLiteral.sequence? cs = some (ps.map Piece.value, n)

namespace StandsFor

variable {cs : List Char} {n : Nat}

theorem nothing (read : SourceLiteral.sequence? cs = some ([], n)) : StandsFor cs n [] :=
  ⟨[], List.forall_mem_nil _, rfl, read⟩

theorem piece {p : Piece} (valid : p.Valid)
    (read : SourceLiteral.sequence? cs = some ([p.value], n)) : StandsFor cs n p.written :=
  ⟨[p], by simpa using valid, by simp, read⟩

theorem code {mark : Char} {code : Nat} (valid : code.isValidChar) (marks : mark = 'x' ∨ mark = 'u')
    (read : SourceLiteral.codePoint? mark cs = some (code, n)) :
    StandsFor (mark :: cs) (n + 1) (codeEscape code) := by
  obtain ⟨p, ok, same, value⟩ := GoLiteral.exists_piece_of_codeEscape valid
  have read := SourceLiteral.sequence?_code marks read valid
  rw [← value] at read
  rw [same]
  exact piece ok read

theorem itself {c : Char} (other : c ∉ ['\n', '\u2028', '\u2029', '\r', 'x', 'u', 'n', 'r', 't', 'b',
    'f', 'v', '"', '\\']) (noDigit : isDigit c = false) (after : List Char) :
    StandsFor (c :: after) 1 [c] := by
  simp only [List.mem_cons, List.not_mem_nil, or_false, not_or] at other
  have noLetter : letterValue? c = none := SourceLiteral.letterValue?_eq_none (by simp [other])
  have read := SourceLiteral.sequence?_single (by simp [other]) noDigit after
  rw [noLetter, Option.getD_none] at read
  exact piece (p := .plain c) (Piece.plain_valid (by simp [other]) (by simp [other])) read

end StandsFor

/-- The letters and marks that mean the same after a backslash in both languages. -/
theorem kept_names : ∀ c ∈ ['\\', '"', 'n', 'r', 't', 'b', 'f', 'v'],
    (c ≠ 'x' ∧ c ≠ 'u' ∧ c ≠ 'U') ∧
      (if c = '\\' ∨ c = '"' then some c else letterValue? c) = some ((letterValue? c).getD c) ∧
        c ∉ ['\n', '\u2028', '\u2029', '\r', 'x', 'u'] ∧ isDigit c = false := by
  intro c mem
  simp only [List.mem_cons, List.not_mem_nil, or_false] at mem
  rcases mem with rfl | rfl | rfl | rfl | rfl | rfl | rfl | rfl <;> decide

variable {c : Char} {taken after out : List Char}

/-- What a Go literal has for an escape sequence is read as what the sequence stands for. -/
theorem Rewrites.standsFor (h : Rewrites c taken after out) :
    StandsFor (c :: (taken ++ after)) (taken.length + 1) out := by
  cases h with
  | lineEnd is =>
    apply StandsFor.nothing
    rcases is with rfl | rfl | rfl <;> simp [SourceLiteral.sequence?]
  | carriageReturn other =>
    apply StandsFor.nothing
    simp [SourceLiteral.sequence?, other]
  | lineEndPair =>
    apply StandsFor.nothing
    simp [SourceLiteral.sequence?]
  | bare is =>
    refine .itself (by rcases is with rfl | rfl | rfl <;> decide) ?_ after
    rcases is with rfl | rfl | rfl <;> decide
  | kept is =>
    obtain ⟨uncoded, names, other, noDigit⟩ := kept_names c is
    refine .piece (Piece.named_valid uncoded names) ?_
    exact SourceLiteral.sequence?_single other noDigit after
  | zero noDigit =>
    obtain ⟨p, ok, same, value⟩ := GoLiteral.exists_piece_of_byteEscape (by decide : 0 < 0x80)
    rw [same]
    refine .piece ok ?_
    rw [value]
    simp [SourceLiteral.sequence?, noDigit, isDigit]
  | byte two hex =>
    have valid := isValidChar_byte two hex
    have read := SourceLiteral.codePoint?_byte two hex after
    split
    next ascii =>
      obtain ⟨p, ok, same, value⟩ := GoLiteral.exists_piece_of_byteEscape ascii
      rw [same]
      refine .piece ok ?_
      rw [value, two, SourceLiteral.sequence?_code (.inl rfl) read valid]
    next =>
      rw [two]
      exact .code valid (.inl rfl) read
  | unit four hex valid =>
    rw [four]
    exact .code valid (.inr rfl) (SourceLiteral.codePoint?_unit four hex valid after)
  | pair four hex isHigh lowFour lowHex isLow =>
    have read := SourceLiteral.codePoint?_pair four hex isHigh lowFour lowHex isLow after
    rw [List.append_assoc, List.length_append, List.length_cons, List.length_cons, four, lowFour]
    exact .code (isValidChar_join isHigh isLow) (.inr rfl) read
  | braced some hex valid =>
    have read := SourceLiteral.codePoint?_braced some hex after
    rw [List.append_assoc, List.length_append, List.length_cons, List.length_singleton]
    exact .code valid (.inr rfl) read
  | other is noDigit =>
    refine .itself ?_ noDigit after
    simp only [List.mem_cons, List.not_mem_nil, or_false, not_or] at is ⊢
    simp [is]

end Escape

/-- A literal that is written as `raw` in the source has `body` as its Go literal, and both stand
for the same text. -/
def SameValue (stops : List (List Char)) (raw body : List Char) : Prop :=
  ∃ text, GoLiteral.decode body = some text ∧ SourceLiteral.value stops raw = some text

namespace SameValue

variable {stops : List (List Char)} {raw body : List Char}

theorem nil : SameValue stops [] [] :=
  ⟨[], GoLiteral.decode_nil, SourceLiteral.value_nil⟩

theorem cons {p : Piece} (valid : p.Valid) (plain : p.value ≠ '\\')
    (goesOn : stops.any (·.isPrefixOf (p.value :: raw)) = false) (h : SameValue stops raw body) :
    SameValue stops (p.value :: raw) (p.written ++ body) := by
  obtain ⟨text, inGo, inSource⟩ := h
  have written := GoLiteral.decode_append (List.forall_mem_singleton.2 valid) body
  refine ⟨p.value :: text, ?_, ?_⟩
  · simpa [inGo] using written
  · rw [SourceLiteral.value_char goesOn plain, inSource]
    rfl

theorem escape {c : Char} {taken out : List Char} (h : Escape.Rewrites c taken raw out)
    (goesOn : stops.any (·.isPrefixOf ('\\' :: c :: (taken ++ raw))) = false)
    (later : SameValue stops raw body) :
    SameValue stops ('\\' :: c :: (taken ++ raw)) (out ++ body) := by
  obtain ⟨text, inGo, inSource⟩ := later
  obtain ⟨ps, valid, rfl, read⟩ := h.standsFor
  refine ⟨ps.map Piece.value ++ text, ?_, ?_⟩
  · rw [GoLiteral.decode_append valid, inGo]
    rfl
  · rw [SourceLiteral.value_escape goesOn read, List.drop_succ_cons, List.drop_left, inSource]
    rfl

end SameValue

end ScriptToGo
