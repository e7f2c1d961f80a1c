import ScriptToGo.Proofs.Token.LiteralSteps
import ScriptToGo.Proofs.Token.LiteralValue
import ScriptToGo.Proofs.Token.Steps
import ScriptToGo.Proofs.Token.Symbols

/-! Tokens and the gaps between them make up the whole of a source text. Literals that are read without
fault keep their value. -/
namespace ScriptToGo
open Escape (Rewrites)
open GoLiteral (Piece)
open SourceLiteral (stringStops templateStops)
open Text (byteLength byteLength_append)

/-- A template after its opening backtick, which ends with the closing one: static text and
interpolations in turn, where a static text begins and another one ends. Each interpolation comes
with the characters between its braces. -/
inductive Interleaved : Nat → List Char → List Char → List (List Char × Hole) → Prop
  | close {pos raw head} : SameValue templateStops raw head →
      Interleaved pos (raw ++ ['\x60']) head []
  | hole {pos raw head chars tokens after text parts} : SameValue templateStops raw head →
      Interleaved (pos + byteLength raw + 2 + byteLength chars + 1) text after.toList parts →
      Interleaved pos (raw ++ '$' :: '\x7b' :: chars ++ '\x7d' :: text) head
        ((chars, .mk tokens
          ⟨pos + byteLength raw + 2, pos + byteLength raw + 2 + byteLength chars⟩ after) :: parts)

/-- The static text at the front of a template may be made longer. -/
theorem Interleaved.longer {pos : Nat} {front out text head : List Char}
    {parts : List (List Char × Hole)} (h : Interleaved (pos + byteLength front) text head parts)
    (same : ∀ raw tail, text = raw ++ tail → SameValue templateStops raw head →
      SameValue templateStops (front ++ raw) (out ++ head)) :
    Interleaved pos (front ++ text) (out ++ head) parts := by
  generalize is : pos + byteLength front = start at h
  cases h with
  | @close _ raw _ value =>
    rw [← List.append_assoc]
    exact .close (same raw _ rfl value)
  | @hole _ raw _ chars tokens after text parts value later =>
    have moved : start + byteLength raw = pos + byteLength (front ++ raw) := by
      rw [byteLength_append, ← is, Nat.add_assoc]
    have longer := same raw _ (List.append_assoc ..) value
    rw [moved] at later ⊢
    rw [← List.append_assoc, ← List.append_assoc]
    exact .hole longer later

namespace StringScan

/-- A string takes the text up to its closing quote, and has the value of what it takes. -/
def Takes (quote : Char) (pos : Nat) (cs : List Char) (s : StringScan) : Prop :=
  ∃ raw, cs = raw ++ quote :: s.rest ∧ s.pos = pos + byteLength raw + 1 ∧
    SameValue (stringStops quote) raw s.text.chars

theorem Takes.write (front : List Char) {quote : Char} {pos : Nat} {cs out : List Char}
    {s : StringScan}
    (h : s.Takes quote (pos + byteLength front) cs)
    (longer : ∀ raw, cs = raw ++ quote :: s.rest → SameValue (stringStops quote) raw s.text.chars →
      SameValue (stringStops quote) (front ++ raw) (out ++ s.text.chars)) :
    (s.write out).Takes quote pos (front ++ cs) := by
  obtain ⟨raw, whole, ends, same⟩ := h
  refine ⟨front ++ raw, ?_, ?_, longer raw whole same⟩
  · rw [whole, List.append_assoc]
    rfl
  · rw [byteLength_append, ← Nat.add_assoc]
    exact ends

end StringScan

namespace TemplateScan

/-- A template takes the text up to its closing backtick, and has the values of its texts. -/
def Takes (pos : Nat) (cs : List Char) (t : TemplateScan) : Prop :=
  ∃ text, cs = text ++ t.rest ∧ t.pos = pos + byteLength text ∧
    Interleaved pos text t.head.chars (t.holes.map fun hole => (hole.chars, hole.lexed))

theorem Takes.write (front : List Char) {pos : Nat} {cs out : List Char} {t : TemplateScan}
    (h : t.Takes (pos + byteLength front) cs)
    (longer : ∀ raw tail, cs = raw ++ tail → SameValue templateStops raw t.head.chars →
      SameValue templateStops (front ++ raw) (out ++ t.head.chars)) :
    (t.write out).Takes pos (front ++ cs) := by
  obtain ⟨text, whole, ends, parts⟩ := h
  refine ⟨front ++ text, ?_, ?_, parts.longer fun raw tail is value => ?_⟩
  · rw [whole, List.append_assoc]
    rfl
  · rw [byteLength_append, ← Nat.add_assoc]
    exact ends
  · refine longer raw (tail ++ t.rest) ?_ value
    rw [whole, is, List.append_assoc]

theorem Takes.openHole {pos : Nat} {inner after : List Char} {t : TemplateScan}
    (h : t.Takes (pos + 2 + byteLength inner + 1) after) :
    (t.openHole (pos + 2) inner).Takes pos ('$' :: '\x7b' :: (inner ++ '\x7d' :: after)) := by
  obtain ⟨text, rfl, ends, parts⟩ := h
  refine ⟨[] ++ '$' :: '\x7b' :: inner ++ '\x7d' :: text, by simp [TemplateScan.openHole], ?_, ?_⟩
  · have braces : byteLength ([] ++ '$' :: '\x7b' :: inner ++ '\x7d' :: text)
        = 2 + byteLength inner + 1 + byteLength text := by
      rw [List.nil_append, byteLength_append, byteLength, byteLength, byteLength]
      have sizes : ('$').utf8Size = 1 ∧ ('\x7b').utf8Size = 1 ∧ ('\x7d').utf8Size = 1 := by decide
      omega
    rw [braces]
    simp only [TemplateScan.openHole]
    omega
  · refine .hole .nil ?_
    rw [String.toList_ofList]
    exact parts

end TemplateScan

/-- The bytes of an escape sequence: its backslash, the character that names it, and ASCII. -/
theorem byteLength_escape {c : Char} {taken after out : List Char} (h : Rewrites c taken after out) :
    byteLength ('\\' :: c :: taken) = 1 + c.utf8Size + taken.length := by
  rw [byteLength, byteLength, h.byteLength_taken, ← Nat.add_assoc]
  rfl

theorem byteLength_singleton (c : Char) : byteLength [c] = c.utf8Size := rfl

/-- A string that is read without fault ends at its closing quote, and keeps its value. -/
theorem scanString_takes {start : Nat} {quote : Char} {pos : Nat} {cs : List Char}
    (clean : (scanString start quote pos cs).Clean) :
    (scanString start quote pos cs).Takes quote pos cs := by
  refine scanString_clean_induction
    (motive := fun pos cs => (scanString start quote pos cs).Takes quote pos cs)
    ?close ?escape ?mark ?char clean
  case close =>
    intro pos rest
    rw [scanString_close]
    exact ⟨[], rfl, rfl, .nil⟩
  case escape =>
    intro pos e taken after out other rewrites _ ih
    have length := byteLength_escape rewrites
    rw [scanString_rewrites other rewrites, ← List.cons_append, ← List.cons_append]
    rw [Nat.add_assoc pos, Nat.add_assoc pos, ← length] at ih ⊢
    refine ih.write _ fun raw whole same => ?_
    rw [whole] at rewrites
    exact same.escape rewrites.shorten (SourceLiteral.string_goesOn other (by decide) _)
  case mark =>
    intro pos rest other ih
    rw [scanString_mark _ _ _ other]
    refine ih.write ['"'] fun raw whole same => ?_
    exact same.cons (p := .named '"' '"') (Piece.named_valid (by decide) rfl) (by decide)
      (SourceLiteral.string_goesOn other (by decide) raw)
  case char =>
    intro pos c rest other plain unmarked inLine ih
    rw [scanString_char _ _ _ other plain unmarked inLine]
    refine ih.write [c] fun raw whole same => ?_
    exact same.cons (p := .plain c) (Piece.plain_valid ⟨unmarked, inLine⟩ plain) plain
      (SourceLiteral.string_goesOn other inLine raw)

/-- A template that is read without fault ends at its closing backtick, and its texts keep their
values. -/
theorem scanTemplate_takes {start pos : Nat} {cs : List Char}
    (clean : (scanTemplate start pos cs).Clean) : (scanTemplate start pos cs).Takes pos cs := by
  refine scanTemplate_clean_induction
    (motive := fun pos cs => (scanTemplate start pos cs).Takes pos cs)
    ?close ?escape ?hole ?mark ?lineEnd ?char clean
  case close =>
    intro pos rest
    rw [scanTemplate_close]
    exact ⟨['\x60'], rfl, rfl, .close .nil⟩
  case escape =>
    intro pos e taken after out rewrites _ ih
    have length := byteLength_escape rewrites
    rw [scanTemplate_rewrites rewrites, ← List.cons_append, ← List.cons_append]
    rw [Nat.add_assoc pos, Nat.add_assoc pos, ← length] at ih ⊢
    refine ih.write _ fun raw tail whole same => ?_
    rw [whole] at rewrites
    exact same.escape rewrites.shorten
      (SourceLiteral.template_goesOn (by decide) fun opening => absurd opening.1 (by decide))
  case hole =>
    intro pos rest inner after closed ih
    rw [scanTemplate_hole _ _ _ closed, splitHole_eq closed]
    exact ih.openHole
  case mark =>
    intro pos rest ih
    rw [scanTemplate_mark]
    refine ih.write ['"'] fun raw tail whole same => ?_
    exact same.cons (p := .named '"' '"') (Piece.named_valid (by decide) rfl) (by decide)
      (SourceLiteral.template_goesOn (by decide) fun opening => absurd opening.1 (by decide))
  case lineEnd =>
    intro pos rest ih
    rw [scanTemplate_lineEnd]
    refine ih.write ['\n'] fun raw tail whole same => ?_
    exact same.cons (p := .named 'n' '\n') (Piece.named_valid (by decide) rfl) (by decide)
      (SourceLiteral.template_goesOn (by decide) fun opening => absurd opening.1 (by decide))
  case char =>
    intro pos c rest other plain closed unmarked inLine _ ih
    rw [scanTemplate_char _ _ _ other plain closed unmarked inLine]
    refine ih.write [c] fun raw tail whole same => ?_
    refine same.cons (p := .plain c) (Piece.plain_valid ⟨unmarked, inLine⟩ plain) plain
      (SourceLiteral.template_goesOn other fun opening => closed ⟨opening.1, ?_⟩)
    have brace : raw.head? = some '\x7b' := opening.2
    rw [whole, List.head?_append, brace]
    rfl

/-- What may stand between two tokens, in front of `after`: blanks and closed comments. -/
inductive Gap (after : List Char) : List Char → Prop
  | nil : Gap after []
  | blank {c cs} : c = ' ' ∨ c = '\t' ∨ c = '\r' ∨ c = '\n' → Gap after cs → Gap after (c :: cs)
  | lineComment {text cs} : '\n' ∉ text → (∀ c, (cs ++ after).head? = some c → c = '\n') →
      Gap after cs → Gap after ('/' :: '/' :: (text ++ cs))
  | blockComment {text cs} : ¬['*', '/'] <:+: text → Gap after cs →
      Gap after ('/' :: '*' :: (text ++ '*' :: '/' :: cs))

/-- How a token is spelled, for the kinds that are written as they are kept. -/
def TokenKind.spelling? : TokenKind → Option String
  | keyword word => some word.spelling
  | operator op => some op.spelling
  | punctuation mark => some mark.spelling
  | ident name => some name
  | number text => some text
  | string _ | template _ _ | eof => none

/-- Whether a token is made up of the characters that words are made up of. -/
def TokenKind.isWord : TokenKind → Bool
  | keyword _ | ident _ | number _ => true
  | _ => false

/-- A token is spelled by `lexeme` in front of `after`, and does not end too early. -/
structure Spelled (kind : TokenKind) (lexeme after : List Char) : Prop where
  spelling : kind.spelling? = some (String.ofList lexeme)
  longest : ∀ symbol, IsSymbol symbol → symbol <+: lexeme ++ after → symbol.length ≤ lexeme.length
  ends : kind.isWord = true → after.head?.any isWordPart = false

/-- A token of this kind is written as `lexeme`, which begins at `pos` in front of `after`. The
interpolations of a template come with the characters between their braces. -/
inductive Writes (pos : Nat) (lexeme after : List Char) :
    TokenKind → List (List Char × Hole) → Prop
  | spelled {kind} : Spelled kind lexeme after → Writes pos lexeme after kind []
  | string {quote raw body} : quote = '"' ∨ quote = '\'' → lexeme = quote :: (raw ++ [quote]) →
      SameValue (stringStops quote) raw body.toList → Writes pos lexeme after (.string body) []
  | template {head text parts} : lexeme = '\x60' :: text →
      Interleaved (pos + 1) text head.toList parts →
      Writes pos lexeme after (.template head (parts.map Prod.snd)) parts

/-- A text from offset `pos` on is made up of these tokens and of gaps, of which one is in front of
each token. So is the text in every interpolation of its templates. -/
inductive Tiles : Nat → List Char → List Token → Prop
  | eof {pos gap} : Gap [] gap →
      Tiles pos gap [.mk .eof ⟨pos + byteLength gap, pos + byteLength gap⟩]
  | token {pos gap lexeme after kind parts tokens} : Gap (lexeme ++ after) gap → lexeme ≠ [] →
      Writes (pos + byteLength gap) lexeme after kind parts →
      (∀ part ∈ parts, Tiles part.2.span.start part.1 part.2.tokens) →
      Tiles (pos + byteLength gap + byteLength lexeme) after tokens →
      Tiles pos (gap ++ (lexeme ++ after))
        (.mk kind ⟨pos + byteLength gap, pos + byteLength gap + byteLength lexeme⟩ :: tokens)

/-- A lexeme at offset `pos` is `taken` off a text that goes on with `after`. -/
inductive Lexeme.Takes (pos : Nat) (taken after : List Char) : Lexeme → Prop
  | skipped : (∀ gap more, after = gap ++ more → Gap more gap → Gap more (taken ++ gap)) →
      Takes pos taken after .skipped
  | token {kind} : Writes pos taken after kind [] → Takes pos taken after (.token kind)
  | template {head holes} :
      Writes pos taken after (.template (String.ofList head.chars) (holes.map HoleText.lexed))
        (holes.map fun hole => (hole.chars, hole.lexed)) →
      Takes pos taken after (.template head holes)

/-- A lexeme takes at least one character, and what it leaves is the rest of the text. -/
def Scan.Takes (pos : Nat) (cs : List Char) (s : Scan) : Prop :=
  ∃ taken, taken ≠ [] ∧ cs = taken ++ s.rest ∧ s.pos = pos + byteLength taken ∧
    s.lexeme.Takes pos taken s.rest

theorem skipComment_eq_some {pos next : Nat} {cs after : List Char}
    (h : skipComment pos cs = some (next, after)) :
    ∃ text, cs = text ++ '*' :: '/' :: after ∧ next = pos + byteLength text + 2 ∧
      ¬['*', '/'] <:+: text := by
  induction cs generalizing pos with
  | nil => cases h
  | cons c rest ih =>
    rw [skipComment] at h
    split at h
    next close =>
      obtain ⟨rfl, slash⟩ := close
      obtain ⟨left, rfl⟩ := List.head?_eq_some_iff.1 slash
      obtain ⟨rfl, rfl⟩ := Prod.mk.inj (Option.some.inj h)
      exact ⟨[], rfl, rfl, by simp⟩
    next noClose =>
      obtain ⟨text, rfl, rfl, noEnd⟩ := ih h
      refine ⟨c :: text, rfl, ?_, ?_⟩
      · rw [byteLength, Nat.add_assoc pos]
      · rw [List.infix_cons_iff]
        rintro (front | inside)
        · obtain ⟨star, slash⟩ := List.cons_prefix_cons.1 front
          obtain ⟨left, rfl⟩ := slash
          exact noClose ⟨star.symm, rfl⟩
        · exact noEnd inside

/-- Nothing longer than a lexeme with a word character in it is a symbol. -/
theorem longest_of_isWordPart {lexeme after : List Char} {c : Char} (mem : c ∈ lexeme)
    (part : isWordPart c = true) :
    ∀ symbol, IsSymbol symbol → symbol <+: lexeme ++ after → symbol.length ≤ lexeme.length := by
  intro symbol is inFront
  by_contra longer
  have whole := List.prefix_of_prefix_length_le (List.prefix_append lexeme after) inFront
    (Nat.le_of_lt (Nat.lt_of_not_le longer))
  have noParts : symbolChars.any isWordPart = false := by decide
  exact List.any_eq_false.1 noParts c (is.mem_symbolChars c (whole.subset mem)) part

namespace Scan

variable {pos : Nat} {c : Char} {rest : List Char}

theorem lineComment_takes (slash : rest.head? = some '/') :
    (lineComment pos rest).Takes pos ('/' :: rest) := by
  obtain ⟨more, rfl⟩ := List.head?_eq_some_iff.1 slash
  have inLine : ('/' :: more).takeWhile (· ≠ '\n') = '/' :: more.takeWhile (· ≠ '\n') := by simp
  have left : ('/' :: more).dropWhile (· ≠ '\n') = more.dropWhile (· ≠ '\n') := by simp
  rw [lineComment, inLine, left]
  refine ⟨'/' :: '/' :: more.takeWhile (· ≠ '\n'), List.cons_ne_nil _ _, ?_, ?_, .skipped ?_⟩
  · simp
  · rw [byteLength, Nat.add_assoc]
    rfl
  · intro gap after whole later
    refine .lineComment (fun mem => ?_) (fun c first => ?_) later
    · exact absurd (List.mem_takeWhile_imp mem) (by decide)
    · have stop := List.head?_dropWhile_not (· ≠ '\n') more
      dsimp only at whole
      rw [whole, first] at stop
      simpa using stop

theorem blockComment_takes (star : rest.head? = some '*')
    (clean : (blockComment pos (rest.drop 1)).lexeme.Clean) :
    (blockComment pos (rest.drop 1)).Takes pos ('/' :: rest) := by
  obtain ⟨inside, rfl⟩ := List.head?_eq_some_iff.1 star
  rw [List.drop_succ_cons, List.drop_zero] at clean ⊢
  rw [blockComment] at clean ⊢
  split at clean
  next next after found =>
    obtain ⟨text, rfl, rfl, noEnd⟩ := skipComment_eq_some found
    refine ⟨'/' :: '*' :: (text ++ ['*', '/']), List.cons_ne_nil _ _, by simp, ?_, .skipped ?_⟩
    · have marks : ('/').utf8Size = 1 ∧ ('*').utf8Size = 1 ∧ byteLength ['*', '/'] = 2 := by decide
      rw [byteLength, byteLength, byteLength_append]
      dsimp only
      omega
    · intro gap after _ later
      rw [List.cons_append, List.cons_append, List.append_assoc]
      exact .blockComment noEnd later
  · cases clean

theorem string_takes (quote : c = '"' ∨ c = '\'') (clean : (string pos c rest).lexeme.Clean) :
    (string pos c rest).Takes pos (c :: rest) := by
  rw [string] at clean ⊢
  dsimp only at clean ⊢
  split at clean
  next noFaults =>
    rw [if_pos noFaults]
    obtain ⟨raw, whole, ends, same⟩ := scanString_takes (List.isEmpty_iff.1 noFaults)
    have size : c.utf8Size = 1 := by rcases quote with rfl | rfl <;> decide
    refine ⟨c :: (raw ++ [c]), List.cons_ne_nil _ _, ?_, ?_, .token (.string quote rfl ?_)⟩
    · rw [List.cons_append, List.append_assoc]
      exact congrArg (c :: ·) whole
    · rw [ends, byteLength, byteLength_append, byteLength_singleton, size]
      dsimp only
      omega
    · rwa [String.toList_ofList]
  · cases clean

theorem template_takes (clean : (template pos rest).lexeme.Clean) :
    (template pos rest).Takes pos ('\x60' :: rest) := by
  have clean : (scanTemplate pos (pos + 1) rest).Clean := clean
  obtain ⟨text, whole, ends, parts⟩ := scanTemplate_takes clean
  refine ⟨'\x60' :: text, List.cons_ne_nil _ _, congrArg ('\x60' :: ·) whole, ?_, .template ?_⟩
  · rw [byteLength, ← Nat.add_assoc]
    exact ends
  · rw [← @String.toList_ofList (scanTemplate pos (pos + 1) rest).head.chars] at parts
    have shown : Writes pos ('\x60' :: text) (template pos rest).rest _ _ := .template rfl parts
    rwa [List.map_map] at shown

/-- There is a digit in a numeric literal, and not only a point. -/
theorem number_isWordPart
    (digit : Text.isDigit c = true ∨ (c = '.' ∧ rest.head?.any Text.isDigit = true))
    (stops : (NumberScan.read c rest).rest.head?.any isWordPart = false) :
    ∃ d ∈ (NumberScan.read c rest).chars, isWordPart d = true := by
  have whole := NumberScan.read_append c rest
  obtain ⟨first, others, is⟩ := List.exists_cons_of_ne_nil (NumberScan.read_chars_ne_nil c rest)
  rw [is] at whole ⊢
  obtain ⟨rfl, left⟩ := List.cons.inj whole
  rcases digit with digit | ⟨-, digit⟩
  · exact ⟨first, List.mem_cons_self, isWordPart_of_isDigit digit⟩
  · cases others with
    | nil =>
      have same : (NumberScan.read first rest).rest = rest := left
      rw [same, Option.any_eq_false] at stops
      obtain ⟨d, next, isDigit⟩ := (Option.any_eq_true _ _).1 digit
      have noPart := stops d next
      rw [isWordPart_of_isDigit isDigit] at noPart
      cases noPart
    | cons second more =>
      rw [← left] at digit
      exact ⟨second, by simp, isWordPart_of_isDigit digit⟩

theorem number_takes (digit : Text.isDigit c = true ∨ (c = '.' ∧ rest.head?.any Text.isDigit = true))
    (clean : (number pos c rest).lexeme.Clean) : (number pos c rest).Takes pos (c :: rest) := by
  have whole := NumberScan.read_append c rest
  have some := NumberScan.read_chars_ne_nil c rest
  rw [number] at clean ⊢
  split at clean
  next noFault =>
    have stops := NumberScan.read_stops noFault
    refine ⟨_, some, whole.symm, rfl, .token (.spelled ⟨rfl, ?_, fun _ => stops⟩)⟩
    obtain ⟨d, mem, part⟩ := number_isWordPart digit stops
    exact longest_of_isWordPart mem part
  · cases clean

theorem wordKind_spelling (name : String) :
    (wordKind name).spelling? = some name ∧ (wordKind name).isWord = true := by
  rw [wordKind]
  split
  next word found =>
    have same := List.find?_some (p := fun word : Keyword => word.spelling == name) found
    exact ⟨congrArg some (eq_of_beq same), rfl⟩
  · exact ⟨rfl, rfl⟩

theorem word_takes (start : isWordStart c = true) : (word pos c rest).Takes pos (c :: rest) := by
  have part : isWordPart c = true := by rw [isWordPart, start, Bool.true_or]
  refine ⟨c :: rest.takeWhile isWordPart, List.cons_ne_nil _ _, ?_, ?_,
    .token (.spelled ⟨(wordKind_spelling _).1, longest_of_isWordPart List.mem_cons_self part, ?_⟩)⟩
  · rw [List.cons_append]
    exact congrArg (c :: ·) List.takeWhile_append_dropWhile.symm
  · rw [Text.byteLength_of_ascii (utf8Size_of_mem_word start rest), List.length_cons, word]
    dsimp only
    omega
  · exact fun _ => any_head?_dropWhile isWordPart rest

theorem symbol_spelling {spelling : String} {kind : TokenKind} (h : symbol? spelling = some kind) :
    kind.spelling? = some spelling ∧ kind.isWord = false := by
  rcases exists_of_symbol? h with ⟨op, rfl, rfl⟩ | ⟨mark, rfl, rfl⟩
  · exact ⟨rfl, rfl⟩
  · exact ⟨rfl, rfl⟩

theorem symbol_takes (clean : (symbol pos c rest).lexeme.Clean) :
    (symbol pos c rest).Takes pos (c :: rest) := by
  rw [symbol] at clean ⊢
  split at clean
  next kind length found =>
    have ascii := symbolAt?_ascii found
    obtain ⟨⟨front, after, whole, rfl, spelled⟩, longest⟩ := symbolAt?_longest found
    have some := (isSymbol_of_symbol? spelled).length_le.1
    obtain ⟨spelling, noWord⟩ := symbol_spelling spelled
    rw [whole] at ascii longest ⊢
    rw [List.drop_left]
    refine ⟨front, List.ne_nil_of_length_pos some, rfl, ?_, .token (.spelled ⟨spelling, longest, ?_⟩)⟩
    · have size := Text.byteLength_of_ascii ascii.2
      rw [List.take_left] at size
      rw [size]
    · intro word
      rw [noWord] at word
      cases word
  · cases clean

/-- Whatever a lexeme is, it is taken off the front of the text in one of the forms. -/
theorem next_takes (clean : (next pos c rest).lexeme.Clean) :
    (next pos c rest).Takes pos (c :: rest) := by
  refine next_cases
    (motive := fun scan => (scan pos).lexeme.Clean → (scan pos).Takes pos (c :: rest))
    ?blank ?lineComment ?blockComment ?string ?template ?number ?word ?symbol clean
  case blank =>
    intro blank _
    have size : c.utf8Size = 1 := by rcases blank with rfl | rfl | rfl | rfl <;> decide
    refine ⟨[c], List.cons_ne_nil _ _, rfl, ?_, .skipped fun gap more _ later => .blank blank later⟩
    rw [byteLength_singleton, size]
  case lineComment =>
    rintro ⟨rfl, slash⟩ _
    exact lineComment_takes slash
  case blockComment =>
    rintro ⟨rfl, star⟩ clean
    exact blockComment_takes star clean
  case string => exact string_takes
  case template =>
    rintro rfl clean
    exact template_takes clean
  case number => exact number_takes
  case word =>
    intro start _
    exact word_takes start
  case symbol => exact symbol_takes

end Scan

/-- A text that begins with a gap is made up of the tokens of the rest. -/
theorem Tiles.skip {pos : Nat} {taken cs : List Char} {tokens : List Token}
    (h : Tiles (pos + byteLength taken) cs tokens)
    (skipped : ∀ gap more, cs = gap ++ more → Gap more gap → Gap more (taken ++ gap)) :
    Tiles pos (taken ++ cs) tokens := by
  generalize start : pos + byteLength taken = next at h
  have moved (gap : List Char) : next + byteLength gap = pos + byteLength (taken ++ gap) := by
    rw [byteLength_append, ← start, Nat.add_assoc]
  cases h with
  | eof blank =>
    rw [moved]
    exact .eof (skipped cs [] (List.append_nil cs).symm blank)
  | @token _ gap lexeme after kind parts tokens blank some written inside later =>
    rw [moved] at written later ⊢
    rw [← List.append_assoc]
    exact .token (skipped gap _ rfl blank) some written inside later

theorem Tiles.cons {pos : Nat} {lexeme after : List Char} {kind : TokenKind}
    {parts : List (List Char × Hole)} {tokens : List Token} (some : lexeme ≠ [])
    (written : Writes pos lexeme after kind parts)
    (inside : ∀ part ∈ parts, Tiles part.2.span.start part.1 part.2.tokens)
    (later : Tiles (pos + byteLength lexeme) after tokens) :
    Tiles pos (lexeme ++ after) (.mk kind ⟨pos, pos + byteLength lexeme⟩ :: tokens) :=
  @Tiles.token _ [] _ _ _ _ _ .nil some written inside later

/-- A text in which nothing is wrong is made up of its tokens and gaps. -/
theorem lexFrom_tiles {pos : Nat} {cs : List Char} (clean : (lexFrom pos cs).errors = []) :
    Tiles pos cs (lexFrom pos cs).tokens := by
  induction pos, cs using lexFrom_induction with
  | nil pos =>
    rw [lexFrom_nil]
    exact .eof .nil
  | cons pos c rest tail inside =>
    obtain ⟨here, later, insides⟩ := clean_of_lexFrom clean
    obtain ⟨taken, some, whole, ends, takes⟩ := Scan.next_takes here
    have others := tail later
    rw [lexFrom_cons]
    dsimp only
    rw [ends] at others ⊢
    rw [whole]
    cases is : (Scan.next pos c rest).lexeme with
    | skipped =>
      rw [is] at takes
      cases takes with
      | skipped skipped => exact others.skip skipped
    | token kind =>
      rw [is] at takes
      cases takes with
      | token written => exact .cons some written (List.forall_mem_nil _) others
    | template head holes =>
      rw [is] at takes
      cases takes with
      | template written =>
        refine .cons some written (fun part mem => ?_) others
        obtain ⟨hole, among, rfl⟩ := List.mem_map.1 mem
        exact inside head holes is hole among (insides head holes is hole among)
    | faulty errors =>
      rw [is] at here
      cases here

end ScriptToGo
