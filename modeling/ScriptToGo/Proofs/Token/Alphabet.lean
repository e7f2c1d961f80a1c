import ScriptToGo.Proofs.Text.Lines
import ScriptToGo.Proofs.Token.Coverage
import ScriptToGo.Proofs.Token.Numerals

/-! The characters of which tokens keep their texts. -/
namespace ScriptToGo
open Text (OneLine isDigit)

/-- A character that a numeric literal may hold. -/
def isNumberPart (c : Char) : Bool := isWordPart c || c == '.' || c == '+' || c == '-'

theorem isNumberPart_of_isWordPart {c : Char} (h : isWordPart c = true) :
    isNumberPart c = true := by
  rw [isNumberPart, h]
  rfl

namespace NumberScan

/-- All characters of a text may stand in a number. -/
def Numeric (cs : List Char) : Prop := ∀ c ∈ cs, isNumberPart c = true

variable {cs ds : List Char}

theorem Numeric.append {more : List Char} (h : Numeric cs) (others : Numeric more) :
    Numeric (cs ++ more) := List.forall_mem_append.2 ⟨h, others⟩

theorem Numeric.cons {c : Char} (h : isNumberPart c = true) (others : Numeric cs) :
    Numeric (c :: cs) := List.forall_mem_cons.2 ⟨h, others⟩

theorem IsRun.numeric {p : Char → Bool} (h : IsRun p ds)
    (word : ∀ c, p c = true → isWordPart c = true) : Numeric ds := by
  intro c mem
  rcases h c mem with digit | rfl
  · exact isNumberPart_of_isWordPart (word c digit)
  · decide

theorem IsDigitRun.numeric (h : IsDigitRun ds) : Numeric ds :=
  h.2.numeric fun _ => isWordPart_of_isDigit

theorem Mantissa.numeric (h : Mantissa IsDigitRun cs) : Numeric cs := by
  cases h with
  | whole run => exact run.numeric
  | fraction whole behind => exact whole.numeric.append (behind.numeric.cons (by decide))
  | point behind => exact behind.numeric.cons (by decide)

theorem Exponent.numeric (h : Exponent IsDigitRun cs) : Numeric cs := by
  have letter {mark : Char} (is : mark = 'e' ∨ mark = 'E') : isNumberPart mark = true := by
    rcases is with rfl | rfl <;> decide
  cases h with
  | none => exact List.forall_mem_nil _
  | plain mark run => exact run.numeric.cons (letter mark)
  | signed mark sign run =>
    refine (run.numeric.cons ?_).cons (letter mark)
    rcases sign with rfl | rfl <;> decide

theorem IsScanned.numeric (h : IsScanned cs) : Numeric cs := by
  cases h with
  | radix mem run =>
    have letter := isWordPart_radixMark (List.contains_iff_mem.2 mem)
    have digits := run.numeric fun _ => isWordPart_of_isHexDigit
    exact (digits.cons (isNumberPart_of_isWordPart letter)).cons (by decide)
  | decimal front behind => exact front.numeric.append behind.numeric

end NumberScan

/-- An identifier starts with a letter or a mark that may stand for one, and goes on with those and
digits. A number holds what numbers are written with. -/
def TokenKind.IsSpeltRight : TokenKind → Prop
  | .ident name => ∃ c tail, name.toList = c :: tail ∧ isWordStart c = true ∧
      ∀ d ∈ tail, isWordPart d = true
  | .number text => NumberScan.Numeric text.toList
  | _ => True

theorem Scan.token_isSpeltRight {pos : Nat} {c : Char} {rest : List Char} {kind : TokenKind}
    (h : (next pos c rest).lexeme = .token kind) : kind.IsSpeltRight := by
  refine next_cases (motive := fun scan => (scan pos).lexeme = .token kind → kind.IsSpeltRight)
    ?blank ?lineComment ?blockComment ?string ?template ?number ?word ?symbol h
  case blank | lineComment | template => rintro - ⟨⟩
  case blockComment =>
    intro _ h
    simp only [blockComment] at h
    split at h <;> cases h
  case string =>
    intro _ h
    simp only [string] at h
    split at h <;> cases h
    trivial
  case number =>
    intro start h
    simp only [number] at h
    split at h <;> cases h
    next clean =>
      rw [TokenKind.IsSpeltRight, String.toList_ofList]
      exact (NumberScan.isScanned_read start clean).numeric
  case word =>
    intro start h
    obtain rfl := Lexeme.token.inj h
    rw [wordKind]
    split
    · trivial
    · exact ⟨c, rest.takeWhile isWordPart, String.toList_ofList, start,
        fun d mem => List.mem_takeWhile_imp mem⟩
  case symbol =>
    intro h
    simp only [symbol] at h
    split at h
    next found =>
      obtain rfl := Lexeme.token.inj h
      obtain ⟨_, _, _, _, spelled⟩ := exists_of_symbolAt? found
      rcases exists_of_symbol? spelled with ⟨op, -, rfl⟩ | ⟨mark, -, rfl⟩ <;> trivial
    · cases h

/-- What holds of each kind of token that is read at the front of a text holds of all kinds of tokens
of a text, also inside of templates. -/
theorem lexFrom_kinds {P : TokenKind → Prop} (eof : P .eof)
    (template : ∀ head holes, P (.template head holes))
    (plain : ∀ pos c rest kind, (Scan.next pos c rest).lexeme = .token kind → P kind)
    (pos : Nat) (cs : List Char) : ∀ token ∈ allTokens (lexFrom pos cs).tokens, P token.kind := by
  induction pos, cs using lexFrom_induction with
  | nil pos =>
    rw [lexFrom_nil]
    intro token mem
    obtain rfl := List.mem_singleton.1 mem
    exact eof
  | cons pos c rest tail inside =>
    rw [lexFrom_cons]
    dsimp only
    cases is : (Scan.next pos c rest).lexeme with
    | skipped => exact tail
    | faulty errors => exact tail
    | token kind =>
      rw [Lexeme.tokens, List.singleton_append, allTokens, Token.all,
        TokenKind.inner_of_plain (Scan.next_token is)]
      exact List.forall_mem_cons.2 ⟨plain pos c rest kind is, tail⟩
    | template head holes =>
      rw [Lexeme.tokens, List.singleton_append, allTokens, Token.all, List.cons_append]
      refine List.forall_mem_cons.2 ⟨template _ _, List.forall_mem_append.2 ⟨?_, tail⟩⟩
      intro token mem
      obtain ⟨_, isHole, mem⟩ := mem_innerTokens.1 mem
      obtain ⟨hole, among, rfl⟩ := List.mem_map.1 isHole
      exact inside head holes is hole among token mem

theorem lexFrom_isSpeltRight (pos : Nat) (cs : List Char) :
    ∀ token ∈ allTokens (lexFrom pos cs).tokens, token.kind.IsSpeltRight :=
  lexFrom_kinds trivial (fun _ _ => trivial) (fun _ _ _ _ => Scan.token_isSpeltRight) pos cs

open GoLiteral in
/-- No piece of a literal is written with a line end. -/
theorem GoLiteral.Piece.Form.inLine {p : GoLiteral.Piece} (h : p.Form) : '\n' ∉ p.written := by
  cases h with
  | plain inside bare =>
    rw [Piece.plain, List.mem_singleton]
    exact fun is => inside.2 is.symm
  | named uncoded names =>
    rw [Piece.named, List.mem_cons, List.mem_singleton]
    rintro (is | rfl)
    · exact absurd is (by decide)
    · cases names
  | @coded mark limit code digits marks read below valid =>
    have letters : ∀ entry ∈ codeMarks, entry.1 ≠ '\n' := by decide
    rw [Piece.coded, List.mem_cons, List.mem_cons]
    rintro (is | is | mem)
    · exact absurd is (by decide)
    · exact letters _ marks is.symm
    · obtain ⟨value, digit⟩ := Text.exists_digit_of_code? read _ mem
      have none : Text.digit? '\n' = none := by decide
      rw [none] at digit
      cases digit

theorem SameValue.inLine {stops : List (List Char)} {raw body : List Char}
    (h : SameValue stops raw body) : '\n' ∉ body := by
  obtain ⟨text, decoded, -⟩ := h
  obtain ⟨ps, rfl, form⟩ := GoLiteral.exists_form decoded
  intro mem
  obtain ⟨p, among, mem⟩ := List.mem_flatMap.1 mem
  exact (form p among).inLine mem

/-- No static text of a template that is read has a line end. -/
theorem Interleaved.inLine {pos : Nat} {text head : List Char} {parts : List (List Char × Hole)}
    (h : Interleaved pos text head parts) :
    '\n' ∉ head ∧ ∀ part ∈ parts, OneLine part.2.after := by
  induction h with
  | close same => exact ⟨same.inLine, List.forall_mem_nil _⟩
  | hole same later ih => exact ⟨same.inLine, List.forall_mem_cons.2 ih⟩

namespace TokenKind

/-- All texts that a token keeps, and the name that it may give to a property, are good. -/
def AllTexts (Good : String → Prop) : TokenKind → Prop
  | .keyword word => Good word.spelling
  | .ident text | .number text | .string text => Good text
  | .template head holes => Good head ∧ ∀ hole ∈ holes, Good hole.after
  | .operator _ | .punctuation _ | .eof => True

theorem IsSpeltRight.oneLine_ident {name : String} (h : (ident name).IsSpeltRight) :
    OneLine name := by
  obtain ⟨c, tail, spelled, start, parts⟩ := h
  rw [OneLine, spelled, List.mem_cons]
  rintro (rfl | mem)
  · exact absurd start (by decide)
  · exact absurd (parts _ mem) (by decide)

theorem IsSpeltRight.oneLine_number {text : String} (h : (number text).IsSpeltRight) :
    OneLine text := fun mem => absurd (h _ mem) (by decide)

end TokenKind

/-- The texts of tokens are good, also inside of templates. -/
def TextsOf (Good : String → Prop) (tokens : List Token) : Prop :=
  ∀ token ∈ allTokens tokens, token.kind.AllTexts Good

theorem textsOf_of_tokenize {source : String} {base : Nat} {tokens : List Token}
    (h : tokenize source base = .ok tokens) : TextsOf OneLine tokens := by
  obtain ⟨clean, rfl⟩ := tokenize_eq_ok_iff.1 h
  intro token mem
  have spelt := lexFrom_isSpeltRight base source.toList token mem
  obtain ⟨_, _, _, _, _, ⟨eof, -⟩ | ⟨-, parts, written⟩⟩ := (tiles_of_tokenize h).2 token mem
  · rw [eof]
    trivial
  obtain ⟨kind, span⟩ := token
  change Writes _ _ _ kind parts at written
  cases written with
  | string quotes whole same => exact same.inLine
  | template whole interleaved =>
    exact ⟨interleaved.inLine.1, List.forall_mem_map.2 interleaved.inLine.2⟩
  | spelled spelled =>
    cases kind with
    | ident name => exact spelt.oneLine_ident
    | number text => exact spelt.oneLine_number
    | keyword word =>
      change OneLine word.spelling
      cases word <;> decide
    | operator | punctuation | eof => trivial
    | string | template => cases spelled.spelling

end ScriptToGo
