import Mathlib.Data.List.Chain
import ScriptToGo.Proofs.Token.Alphabet
import ScriptToGo.Proofs.Token.Lexical

/-! Tokens that are written one after the other are cut apart again where none of them goes on with
the next. -/
namespace ScriptToGo
open Text (byteLength byteLength_append)

/-- The text of a token from a source text is cut as a token of this kind again. -/
def TokenKind.IsReadable : TokenKind → Prop
  | .ident name => (TokenKind.ident name).IsSpeltRight ∧ Keyword.ofSpelling? name = none
  | .number text => NumberScan.IsNumeral text.toList
  | _ => True

/-- No symbol begins with this spelling and then the character. -/
def EndsBefore (spelling : List Char) (c : Char) : Prop :=
  ∀ symbol, IsSymbol symbol → ¬ spelling ++ [c] <+: symbol

/-- The characters with which symbols go on that begin with a spelling. -/
def continuations (spelling : List Char) : List Char :=
  (Operator.all.map (·.spelling.toList) ++ Punctuation.all.map (·.spelling.toList)).filterMap
    fun symbol => if spelling <+: symbol then symbol[spelling.length]? else none

theorem endsBefore_of_not_mem {spelling : List Char} {c : Char} (h : c ∉ continuations spelling) :
    EndsBefore spelling c := by
  rintro symbol isSymbol ⟨rest, rfl⟩
  refine h (List.mem_filterMap.2 ⟨spelling ++ [c] ++ rest, ?_, ?_⟩)
  · rcases isSymbol with ⟨op, same⟩ | ⟨mark, same⟩
    · have listed : op ∈ Operator.all := by cases op <;> decide
      exact List.mem_append_left _ (List.mem_map.2 ⟨op, listed, same⟩)
    · have listed : mark ∈ Punctuation.all := by cases mark <;> decide
      exact List.mem_append_right _ (List.mem_map.2 ⟨mark, listed, same⟩)
  · rw [List.append_assoc, if_pos (List.prefix_append _ _),
      List.getElem?_append_right (Nat.le_refl _), Nat.sub_self]
    rfl

/-- A token of this kind is at its end when the character comes next. -/
def TokenKind.StopsBefore (c : Char) : TokenKind → Prop
  | .keyword _ | .ident _ | .number _ => isWordPart c = false ∧ c ≠ '.'
  | .operator op => EndsBefore op.spelling.toList c ∧ (op = .slash → c ≠ '/' ∧ c ≠ '*')
  | .punctuation mark =>
    EndsBefore mark.spelling.toList c ∧ (mark = .dot → Text.isDigit c = false)
  | .string _ | .template .. | .eof => False

/-- How a token is written, if it is written as it is kept. -/
def TokenKind.written (kind : TokenKind) : List Char := (kind.spelling?.getD "").toList

theorem symbol?_operator (op : Operator) : symbol? op.spelling = some (.operator op) := by
  cases op <;> rfl

theorem symbol?_punctuation (mark : Punctuation) :
    symbol? mark.spelling = some (.punctuation mark) := by
  cases mark <;> rfl

namespace Scan

variable {pos : Nat} {c : Char} {rest lexeme after : List Char} {kind : TokenKind}

/-- No digit starts a word. -/
theorem isDigit_of_isWordStart (start : isWordStart c = true) : Text.isDigit c = false := by
  rw [Bool.eq_false_iff]
  intro digit
  rw [Text.isDigit, Bool.and_eq_true, decide_eq_true_eq, decide_eq_true_eq] at digit
  simp only [isWordStart, Bool.or_eq_true, Bool.and_eq_true, decide_eq_true_eq, beq_iff_eq] at start
  rcases start with ((lower | upper) | rfl) | rfl
  · exact absurd (Char.le_trans lower.1 digit.2) (by decide)
  · exact absurd (Char.le_trans upper.1 digit.2) (by decide)
  · exact absurd digit.2 (by decide)
  · exact absurd digit.1 (by decide)

/-- A symbol is read from its first character on, unless that opens a comment or a fraction. -/
theorem next_eq_symbol (isSymbol : c ∈ symbolChars)
    (noComment : c = '/' → rest.head? ≠ some '/' ∧ rest.head? ≠ some '*')
    (noFraction : c = '.' → rest.head?.any Text.isDigit = false) :
    next pos c rest = symbol pos c rest := by
  have other {d : Char} (absent : d ∉ symbolChars) : c ≠ d := fun is => absent (is ▸ isSymbol)
  have noPart : isWordPart c = false := by
    have noParts : symbolChars.any isWordPart = false := by decide
    exact Bool.eq_false_iff.2 (List.any_eq_false.1 noParts c isSymbol)
  obtain ⟨noStart, noDigit⟩ := Bool.or_eq_false_iff.1 noPart
  have noBlank : ¬(c = ' ' ∨ c = '\t' ∨ c = '\r' ∨ c = '\n') := by
    rintro (is | is | is | is) <;> exact other (by decide) is
  have noQuote : ¬(c = '"' ∨ c = '\'') := by
    rintro (is | is) <;> exact other (by decide) is
  have noNumber : ¬(Text.isDigit c = true ∨ (c = '.' ∧ rest.head?.any Text.isDigit = true)) := by
    rintro (digit | ⟨is, digit⟩)
    · exact Bool.false_ne_true (noDigit.symm.trans digit)
    · exact Bool.false_ne_true ((noFraction is).symm.trans digit)
  rw [next, if_neg noBlank, if_neg fun is => (noComment is.1).1 is.2,
    if_neg fun is => (noComment is.1).2 is.2, if_neg noQuote, if_neg (other (by decide)),
    if_neg noNumber, noStart, if_neg Bool.false_ne_true]

theorem next_eq_number
    (start : Text.isDigit c = true ∨ (c = '.' ∧ rest.head?.any Text.isDigit = true)) :
    next pos c rest = number pos c rest := by
  have other {d : Char} (noDigit : Text.isDigit d = false) (noPoint : d ≠ '.') : c ≠ d := by
    rintro rfl
    rcases start with digit | ⟨is, -⟩
    · exact Bool.false_ne_true (noDigit.symm.trans digit)
    · exact noPoint is
  have noBlank : ¬(c = ' ' ∨ c = '\t' ∨ c = '\r' ∨ c = '\n') := by
    rintro (is | is | is | is) <;> exact other (by decide) (by decide) is
  have noQuote : ¬(c = '"' ∨ c = '\'') := by
    rintro (is | is) <;> exact other (by decide) (by decide) is
  rw [next, if_neg noBlank, if_neg fun is => other (by decide) (by decide) is.1,
    if_neg fun is => other (by decide) (by decide) is.1, if_neg noQuote,
    if_neg (other (by decide) (by decide)), if_pos start]

theorem next_eq_word (start : isWordStart c = true) : next pos c rest = word pos c rest := by
  have other {d : Char} (noStart : isWordStart d = false) : c ≠ d := by
    rintro rfl
    exact Bool.false_ne_true (noStart.symm.trans start)
  have noBlank : ¬(c = ' ' ∨ c = '\t' ∨ c = '\r' ∨ c = '\n') := by
    rintro (is | is | is | is) <;> exact other (by decide) is
  have noQuote : ¬(c = '"' ∨ c = '\'') := by
    rintro (is | is) <;> exact other (by decide) is
  have noNumber : ¬(Text.isDigit c = true ∨ (c = '.' ∧ rest.head?.any Text.isDigit = true)) := by
    rintro (digit | ⟨is, -⟩)
    · exact Bool.false_ne_true ((isDigit_of_isWordStart start).symm.trans digit)
    · exact other (by decide) is
  rw [next, if_neg noBlank, if_neg fun is => other (by decide) is.1,
    if_neg fun is => other (by decide) is.1, if_neg noQuote, if_neg (other (by decide)),
    if_neg noNumber, if_pos start]

/-- A symbol is the longest one where no symbol goes on with what comes next. -/
theorem longestSymbol_of_endsBefore (spelled : symbol? (String.ofList lexeme) = some kind)
    (ends : ∀ c ∈ after.head?, EndsBefore lexeme c) :
    LongestSymbol (lexeme ++ after) kind lexeme.length := by
  refine ⟨⟨lexeme, after, rfl, rfl, spelled⟩, fun front symbol inFront => ?_⟩
  by_contra longer
  have begins := List.prefix_of_prefix_length_le (List.prefix_append lexeme after) inFront
    (Nat.le_of_lt (Nat.lt_of_not_le longer))
  obtain ⟨more, rfl⟩ := begins
  cases more with
  | nil => simp at longer
  | cons c more =>
    obtain ⟨tail, whole⟩ := inFront
    have next : after = c :: (more ++ tail) := by
      rw [List.append_assoc] at whole
      exact (List.append_cancel_left whole).symm
    have first : c ∈ after.head? := by rw [next]; rfl
    exact ends c first _ symbol ⟨more, by simp⟩

/-- A word that ends where it stands is read as it is spelled. -/
theorem next_of_word (start : isWordStart c = true) (parts : ∀ d ∈ rest, isWordPart d = true)
    (ends : after.head?.any isWordPart = false) : next pos c (rest ++ after) =
      ⟨.token (wordKind (String.ofList (c :: rest))), pos + byteLength (c :: rest), after⟩ := by
  obtain ⟨taken, left⟩ := takeWhile_dropWhile_append parts ends
  have ascii : ∀ d ∈ c :: rest, d.utf8Size = 1 :=
    List.forall_mem_cons.2 ⟨utf8Size_of_isWordStart start,
      fun d mem => utf8Size_of_isWordPart (parts d mem)⟩
  rw [next_eq_word start, word, taken, left, Text.byteLength_of_ascii ascii, List.length_cons,
    Nat.add_comm rest.length, ← Nat.add_assoc]

/-- A symbol with which no longer one begins is read as it is spelled. -/
theorem next_of_symbol (isSymbol : IsSymbol (c :: rest))
    (spelled : symbol? (String.ofList (c :: rest)) = some kind)
    (ends : ∀ d ∈ after.head?, EndsBefore (c :: rest) d)
    (noComment : c = '/' → (rest ++ after).head? ≠ some '/' ∧ (rest ++ after).head? ≠ some '*')
    (noFraction : c = '.' → (rest ++ after).head?.any Text.isDigit = false) :
    next pos c (rest ++ after) = ⟨.token kind, pos + byteLength (c :: rest), after⟩ := by
  have longest := symbolAt?_eq_some_iff.2 (longestSymbol_of_endsBefore spelled ends)
  have ascii := symbol?_ascii spelled
  rw [String.toList_ofList] at ascii
  rw [List.cons_append] at longest
  rw [next_eq_symbol (isSymbol.mem_symbolChars c List.mem_cons_self) noComment noFraction, symbol,
    longest, Text.byteLength_of_ascii ascii]
  dsimp only
  rw [← List.cons_append, List.drop_left]

end Scan

/-- The text of a number that was read can be read again. -/
theorem Scan.number_isNumeral {pos : Nat} {c : Char} {rest : List Char} {kind : TokenKind}
    (h : (next pos c rest).lexeme = .token kind) :
    ∀ text, kind = .number text → NumberScan.IsNumeral text.toList := by
  refine next_cases (motive := fun scan => (scan pos).lexeme = .token kind →
      ∀ text, kind = .number text → NumberScan.IsNumeral text.toList)
    ?blank ?lineComment ?blockComment ?string ?template ?number ?word ?symbol h
  case blank | lineComment | template => rintro - ⟨⟩
  case blockComment =>
    intro _ h
    simp only [blockComment] at h
    split at h <;> cases h
  case string =>
    rintro - h _ rfl
    simp only [string] at h
    split at h <;> cases h
  case number =>
    rintro start h _ rfl
    simp only [number] at h
    split at h <;> cases h
    next clean =>
      rw [String.toList_ofList]
      exact (NumberScan.isScanned_read start clean).isNumeral
  case word =>
    rintro - h _ rfl
    have is : wordKind (String.ofList (c :: rest.takeWhile isWordPart)) = .number _ :=
      Lexeme.token.inj h
    rw [wordKind] at is
    split at is <;> cases is
  case symbol =>
    rintro h _ rfl
    simp only [symbol] at h
    split at h <;> cases h
    next found =>
      obtain ⟨_, _, _, _, spelled⟩ := exists_of_symbolAt? found
      rcases exists_of_symbol? spelled with ⟨_, -, is⟩ | ⟨_, -, is⟩ <;> cases is

/-- The text of each token of a source text can be read again. -/
theorem isReadable_of_tokenize {source : String} {base : Nat} {tokens : List Token}
    (h : tokenize source base = .ok tokens) :
    ∀ token ∈ allTokens tokens, token.kind.IsReadable := by
  obtain ⟨lexical, -⟩ := lexical_of_tokenize h
  obtain ⟨-, rfl⟩ := tokenize_eq_ok_iff.1 h
  intro token mem
  have spelt := lexFrom_isSpeltRight base source.toList token mem
  have numeral := lexFrom_kinds
    (P := fun kind => ∀ text, kind = .number text → NumberScan.IsNumeral text.toList)
    (fun _ is => by cases is) (fun _ _ _ is => by cases is) (fun _ _ _ _ => Scan.number_isNumeral)
    base source.toList token mem
  have unreserved := lexical token mem
  cases is : token.kind with
  | ident name =>
    rw [is] at spelt unreserved
    exact ⟨spelt, unreserved⟩
  | number text => exact numeral text is
  | _ => trivial

namespace TokenKind

variable {kind : TokenKind} {after : List Char}

/-- The text of a token in front of a rest is read as that token, and the rest is left. -/
def ReadBefore (after : List Char) (kind : TokenKind) : Prop :=
  ∃ c rest, kind.written = c :: rest ∧ ∀ pos, Scan.next pos c (rest ++ after) =
    ⟨.token kind, pos + byteLength kind.written, after⟩

theorem readBefore_number {text : String} (numeral : NumberScan.IsNumeral text.toList)
    (ends : NumberScan.Ends after) : (number text).ReadBefore after := by
  obtain ⟨first, tail, spelled, start, again⟩ := numeral
  have written : (number text).written = first :: tail := spelled
  refine ⟨first, tail, written, fun pos => ?_⟩
  have begins : Text.isDigit first = true ∨
      (first = '.' ∧ (tail ++ after).head?.any Text.isDigit = true) := by
    refine start.imp_right fun fraction => ⟨fraction.1, ?_⟩
    cases tail with
    | nil => cases fraction.2
    | cons c rest => exact fraction.2
  rw [Scan.next_eq_number begins, Scan.number, again after ends]
  dsimp only
  rw [String.ofList_toList]
  rfl

/-- The text of a name or a reserved word is read again where the word ends. -/
theorem readBefore_word {c : Char} {tail : List Char} (written : kind.written = c :: tail)
    (start : isWordStart c = true) (parts : ∀ d ∈ tail, isWordPart d = true)
    (same : wordKind (String.ofList (c :: tail)) = kind)
    (ends : after.head?.any isWordPart = false) : kind.ReadBefore after := by
  refine ⟨c, tail, written, fun pos => ?_⟩
  rw [Scan.next_of_word start parts ends, same, written]

theorem readBefore_operator {op : Operator}
    (stops : ∀ c ∈ after.head?, (operator op).StopsBefore c) : (operator op).ReadBefore after := by
  obtain ⟨c, tail, spelled, noPoint, slash⟩ : ∃ c tail, op.spelling.toList = c :: tail ∧ c ≠ '.' ∧
      (c = '/' → (op = .slash ∧ tail = []) ∨ tail.head? = some '=') := by
    cases op <;> exact ⟨_, _, rfl, by decide, by decide⟩
  have written : (operator op).written = c :: tail := spelled
  refine ⟨c, tail, written, fun pos => ?_⟩
  rw [written]
  refine Scan.next_of_symbol (.inl ⟨op, spelled⟩) ?_ ?_ ?_ fun is => absurd is noPoint
  · rw [← spelled, String.ofList_toList]
    exact symbol?_operator op
  · intro d first
    rw [← spelled]
    exact (stops d first).1
  · intro is
    rcases slash is with ⟨same, rfl⟩ | equals
    · exact ⟨fun first => ((stops _ first).2 same).1 rfl,
        fun first => ((stops _ first).2 same).2 rfl⟩
    · obtain ⟨more, rfl⟩ := List.head?_eq_some_iff.1 equals
      simp

theorem readBefore_mark {mark : Punctuation}
    (stops : ∀ c ∈ after.head?, (punctuation mark).StopsBefore c) :
    (punctuation mark).ReadBefore after := by
  obtain ⟨c, tail, spelled, noSlash, point⟩ : ∃ c tail, mark.spelling.toList = c :: tail ∧
      c ≠ '/' ∧ (c = '.' → (mark = .dot ∧ tail = []) ∨ tail.head? = some '.') := by
    cases mark <;> exact ⟨_, _, rfl, by decide, by decide⟩
  have written : (punctuation mark).written = c :: tail := spelled
  refine ⟨c, tail, written, fun pos => ?_⟩
  rw [written]
  refine Scan.next_of_symbol (.inr ⟨mark, spelled⟩) ?_ ?_ (fun is => absurd is noSlash) ?_
  · rw [← spelled, String.ofList_toList]
    exact symbol?_punctuation mark
  · intro d first
    rw [← spelled]
    exact (stops d first).1
  · intro is
    rcases point is with ⟨same, rfl⟩ | dots
    · cases after with
      | nil => rfl
      | cons d rest => exact (stops d rfl).2 same
    · obtain ⟨more, rfl⟩ := List.head?_eq_some_iff.1 dots
      rfl

/-- The text of a token, in front of something that does not go on with it, is read as that
token. -/
theorem IsReadable.readBefore (h : kind.IsReadable) (spelled : kind.spelling?.isSome)
    (stops : ∀ c ∈ after.head?, kind.StopsBefore c) : kind.ReadBefore after := by
  have noWord (word : ∀ c, kind.StopsBefore c → isWordPart c = false) :
      after.head?.any isWordPart = false := by
    cases after with
    | nil => rfl
    | cons c rest => exact word c (stops c rfl)
  cases kind with
  | string | template | eof => cases spelled
  | operator op => exact readBefore_operator stops
  | punctuation mark => exact readBefore_mark stops
  | number text =>
    refine readBefore_number h ⟨noWord fun c stop => stop.1, fun point => ?_⟩
    exact (stops '.' point).2 rfl
  | ident name =>
    obtain ⟨⟨c, tail, written, start, parts⟩, unreserved⟩ := h
    refine readBefore_word written start parts ?_ (noWord fun c stop => stop.1)
    rw [← written, String.ofList_toList, wordKind, unreserved]
  | keyword word =>
    obtain ⟨c, tail, written, start, parts⟩ : ∃ c tail, word.spelling.toList = c :: tail ∧
        isWordStart c = true ∧ tail.all isWordPart = true := by
      cases word <;> exact ⟨_, _, rfl, by decide, by decide⟩
    refine readBefore_word written start (List.all_eq_true.1 parts) ?_
      (noWord fun c stop => stop.1)
    rw [← written, String.ofList_toList]
    cases word <;> rfl

end TokenKind

/-- A token to be written, or a blank in front of one. -/
inductive CodePiece
  | blank
  | token (kind : TokenKind)

namespace CodePiece

def chars : CodePiece → List Char
  | blank => [' ']
  | token kind => kind.written

/-- The text of pieces that are written one after the other. -/
def allChars (pieces : List CodePiece) : List Char := pieces.flatMap chars

def kind? : CodePiece → Option TokenKind
  | blank => none
  | token kind => some kind

/-- The tokens among the pieces. -/
def kinds (pieces : List CodePiece) : List TokenKind := pieces.filterMap kind?

def IsReadable : CodePiece → Prop
  | blank => True
  | token kind => kind.IsReadable ∧ kind.spelling?.isSome

def StopsBefore (c : Char) : CodePiece → Prop
  | blank => True
  | token kind => kind.StopsBefore c

/-- What is written next does not go on with a piece. -/
def Joins (piece next : CodePiece) : Prop := ∀ c ∈ next.chars.head?, piece.StopsBefore c

theorem kinds_append (first second : List CodePiece) :
    kinds (first ++ second) = kinds first ++ kinds second := List.filterMap_append

theorem allChars_cons (piece : CodePiece) (rest : List CodePiece) :
    allChars (piece :: rest) = piece.chars ++ allChars rest := List.flatMap_cons

theorem allChars_append (first second : List CodePiece) :
    allChars (first ++ second) = allChars first ++ allChars second := List.flatMap_append

theorem IsReadable.chars_ne_nil {piece : CodePiece} (h : piece.IsReadable) : piece.chars ≠ [] := by
  cases piece with
  | blank => exact List.cons_ne_nil _ _
  | token kind =>
    have stops : ∀ c ∈ ([] : List Char).head?, kind.StopsBefore c := fun c none => by cases none
    obtain ⟨c, rest, written, -⟩ := h.1.readBefore h.2 stops
    exact fun none => List.cons_ne_nil c rest (written.symm.trans none)

/-- Pieces of which none goes on with the one before are cut apart into their tokens, whatever comes
after the last of them that does not go on with it. -/
theorem lexFrom_allChars {pieces : List CodePiece} {after : List Char}
    (readable : ∀ piece ∈ pieces, piece.IsReadable) (joined : pieces.IsChain Joins)
    (stops : ∀ piece ∈ pieces.getLast?, ∀ c ∈ after.head?, piece.StopsBefore c) (pos : Nat) :
    ∃ tokens next, tokens.map Token.kind = kinds pieces ∧
      lexFrom pos (allChars pieces ++ after) =
        ⟨tokens ++ (lexFrom next after).tokens, (lexFrom next after).errors⟩ := by
  induction pieces generalizing pos with
  | nil => exact ⟨[], pos, rfl, rfl⟩
  | cons piece rest ih =>
    obtain ⟨here, others⟩ := List.forall_mem_cons.1 readable
    have ends : ∀ c ∈ (allChars rest ++ after).head?, piece.StopsBefore c := by
      cases rest with
      | nil => exact stops piece rfl
      | cons second rest =>
        have some := (List.forall_mem_cons.1 others).1.chars_ne_nil
        rw [allChars_cons, List.append_assoc, List.head?_append_of_ne_nil _ some]
        exact (List.isChain_cons_cons.1 joined).1
    have stops : ∀ piece ∈ rest.getLast?, ∀ c ∈ after.head?, piece.StopsBefore c := by
      intro last is
      apply stops
      cases rest with
      | nil => cases is
      | cons second rest => exact is
    have later := ih others joined.tail stops
    rw [allChars_cons, List.append_assoc]
    cases piece with
    | blank =>
      obtain ⟨tokens, next, same, cut⟩ := later (pos + 1)
      exact ⟨tokens, next, same, (lexFrom_cons pos ' ' _).trans cut⟩
    | token kind =>
      obtain ⟨c, tail, written, read⟩ := here.1.readBefore here.2 ends
      obtain ⟨tokens, next, same, cut⟩ := later (pos + byteLength kind.written)
      refine ⟨.mk kind ⟨pos, pos + byteLength kind.written⟩ :: tokens, next, ?_, ?_⟩
      · rw [List.map_cons, same]
        rfl
      · have whole : chars (token kind) ++ (allChars rest ++ after) =
            c :: (tail ++ (allChars rest ++ after)) := by
          rw [chars, written, List.cons_append]
        rw [whole, lexFrom_cons, read]
        dsimp only
        rw [cut]
        rfl

end CodePiece

end ScriptToGo
