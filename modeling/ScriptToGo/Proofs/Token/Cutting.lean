import ScriptToGo.Proofs.Token.LiteralValue
import ScriptToGo.Proofs.Token.Rereading

/-! Texts that are cut into tokens of known kinds, put together from such texts. The inside of a string is
as its token keeps it: between double quotes it is read as itself again, unless it has a long escape,
which only Go knows. -/
namespace ScriptToGo

namespace Escape

theorem isHexDigit_hexDigit {value : Nat} (h : value < 16) : isHexDigit (hexDigit value) = true := by
  have read := Text.digit?_hexDigit h
  rw [Text.digit?_eq_hexValue?] at read
  exact isHexDigit_iff.2 ⟨value, read⟩

theorem allHex_hexDigits (width code : Nat) : AllHex (hexDigits width code) := by
  induction width generalizing code with
  | zero => exact List.forall_mem_nil _
  | succ width ih =>
    have last := isHexDigit_hexDigit (Nat.mod_lt code (by decide : 0 < 16))
    exact List.forall_mem_append.2 ⟨ih _, List.forall_mem_singleton.2 last⟩

/-- The digits that are written for a number have its value. -/
theorem hexNumber_hexDigits {width code : Nat} (fits : code < 16 ^ width) :
    hexNumber (hexDigits width code) = code :=
  Option.some.inj ((Text.code?_eq_hexNumber (allHex_hexDigits width code)).symm.trans
    (Text.code?_hexDigits fits))

theorem AllHex.no_backslash {digits : List Char} (hex : AllHex digits) : '\\' ∉ digits :=
  fun mem => absurd (hex _ mem) (by decide)

/-- An escape sequence that is kept as it is written. -/
structure IsKept (e : Char) (taken : List Char) : Prop where
  plain : '\\' ∉ taken
  rewrites : ∀ after, Rewrites e taken after ('\\' :: e :: taken)

theorem isKept_named {e : Char} (h : e ∈ ['\\', '"', 'n', 'r', 't', 'b', 'f', 'v']) : IsKept e [] :=
  ⟨List.not_mem_nil, fun _ => .kept h⟩

theorem isKept_byte {code : Nat} (ascii : code < 0x80) : IsKept 'x' (hexDigits 2 code) := by
  refine ⟨(allHex_hexDigits 2 code).no_backslash, fun after => ?_⟩
  have read : Rewrites 'x' (hexDigits 2 code) after _ :=
    .byte (Text.length_hexDigits 2 code) (allHex_hexDigits 2 code)
  rwa [hexNumber_hexDigits (Nat.lt_trans ascii (by decide)), if_pos ascii] at read

theorem isKept_unit {code : Nat} (valid : code.isValidChar) (short : code ≤ 0xFFFF) :
    IsKept 'u' (hexDigits 4 code) := by
  refine ⟨(allHex_hexDigits 4 code).no_backslash, fun after => ?_⟩
  have same : hexNumber (hexDigits 4 code) = code :=
    hexNumber_hexDigits (Nat.lt_of_le_of_lt short (by decide))
  have read : Rewrites 'u' (hexDigits 4 code) after _ :=
    .unit (Text.length_hexDigits 4 code) (allHex_hexDigits 4 code) (same.symm ▸ valid)
  rwa [same, codeEscape, if_pos short] at read

end Escape

open Escape (IsKept Rewrites)

/-- The inside of a string as a token keeps it. -/
inductive StoredBody : List Char → Prop
  | nil : StoredBody []
  | char {c rest} : c ≠ '\\' → c ≠ '"' → c ≠ '\n' → StoredBody rest → StoredBody (c :: rest)
  | escape {e taken rest} : IsKept e taken → StoredBody rest →
      StoredBody ('\\' :: e :: (taken ++ rest))
  /-- No escape of a script is as long, so that this one is not read as it is meant. -/
  | long {digits rest} : StoredBody rest → StoredBody ('\\' :: 'U' :: (digits ++ rest))

/-- Whether a long escape stands in the inside of a string. What is escaped by a backslash begins no
escape itself. -/
def longEscapeIn : List Char → Bool
  | [] => false
  | [_] => false
  | c :: d :: rest =>
    if c = '\\' then d == 'U' || longEscapeIn rest else longEscapeIn (d :: rest)

theorem longEscapeIn_cons {c : Char} (plain : c ≠ '\\') (rest : List Char) :
    longEscapeIn (c :: rest) = longEscapeIn rest := by
  cases rest with
  | nil => rfl
  | cons d rest => rw [longEscapeIn, if_neg plain]

theorem longEscapeIn_append {front : List Char} (plain : '\\' ∉ front) (rest : List Char) :
    longEscapeIn (front ++ rest) = longEscapeIn rest := by
  induction front with
  | nil => rfl
  | cons c front ih =>
    rw [List.mem_cons, not_or] at plain
    rw [List.cons_append, longEscapeIn_cons (Ne.symm plain.1), ih plain.2]

namespace StoredBody

variable {rest : List Char}

theorem code {code : Nat} (valid : code.isValidChar) (later : StoredBody rest) :
    StoredBody (Escape.codeEscape code ++ rest) := by
  rw [Escape.codeEscape]
  split
  next short => exact .escape (Escape.isKept_unit valid short) later
  next => exact .long later

/-- What is kept for an escape sequence is kept in front of what is kept for the rest. -/
theorem rewrites {e : Char} {taken after out : List Char} (h : Rewrites e taken after out)
    (later : StoredBody rest) : StoredBody (out ++ rest) := by
  cases h with
  | lineEnd | carriageReturn | lineEndPair => exact later
  | bare is =>
    rcases is with rfl | rfl | rfl <;> exact .char (by decide) (by decide) (by decide) later
  | kept is => exact .escape (Escape.isKept_named is) later
  | zero => exact .escape (Escape.isKept_byte (by decide)) later
  | byte two hex =>
    split
    next ascii => exact .escape (Escape.isKept_byte ascii) later
    next => exact code (Escape.isValidChar_byte two hex) later
  | unit _ _ valid => exact code valid later
  | pair _ _ isHigh _ _ isLow => exact code (Escape.isValidChar_join isHigh isLow) later
  | braced _ _ valid => exact code valid later
  | other is =>
    simp only [List.mem_cons, List.not_mem_nil, or_false, not_or] at is
    exact .char (by simp [is]) (by simp [is]) (by simp [is]) later

end StoredBody

/-- What is kept of a string that is read without fault. -/
theorem storedBody_of_clean {start : Nat} {quote : Char} {pos : Nat} {cs : List Char}
    (clean : (scanString start quote pos cs).Clean) :
    StoredBody (scanString start quote pos cs).text.chars := by
  refine scanString_clean_induction
    (motive := fun pos cs => StoredBody (scanString start quote pos cs).text.chars)
    ?close ?escape ?mark ?char clean
  case close =>
    intro pos rest
    rw [scanString_close]
    exact .nil
  case escape =>
    intro pos e taken after out other read _ later
    rw [scanString_rewrites other read]
    exact later.rewrites read
  case mark =>
    intro pos rest other later
    rw [scanString_mark _ _ _ other]
    exact .escape (Escape.isKept_named (by decide)) later
  case char =>
    intro pos c rest other plain unmarked inLine later
    rw [scanString_char _ _ _ other plain unmarked inLine]
    exact .char plain unmarked inLine later

/-- Between double quotes, what is kept of a string is read as itself. -/
theorem StoredBody.scanString {body : List Char} (h : StoredBody body)
    (short : longEscapeIn body = false) (start pos : Nat) (after : List Char) :
    ∃ stop, scanString start '"' pos (body ++ '"' :: after) = ⟨⟨body, []⟩, stop, after⟩ := by
  induction h generalizing pos with
  | nil => exact ⟨pos + 1, scanString_close start pos after⟩
  | @char c rest plain unmarked inLine _ ih =>
    rw [longEscapeIn_cons plain] at short
    obtain ⟨stop, read⟩ := ih short (pos + c.utf8Size)
    refine ⟨stop, ?_⟩
    rw [List.cons_append, scanString_char _ _ _ unmarked plain unmarked inLine, read]
    rfl
  | @escape e taken rest kept _ ih =>
    rw [longEscapeIn, if_pos rfl, Bool.or_eq_false_iff, longEscapeIn_append kept.plain] at short
    obtain ⟨stop, read⟩ := ih short.2 (pos + 1 + e.utf8Size + taken.length)
    refine ⟨stop, ?_⟩
    rw [List.cons_append, List.cons_append, List.append_assoc,
      scanString_rewrites (by decide) (kept.rewrites _), read]
    rfl
  | long => simp [longEscapeIn] at short

/-- The inside of a string token is kept so. -/
theorem Scan.storedBody_of_token {pos : Nat} {c : Char} {rest : List Char} {kind : TokenKind}
    (h : (next pos c rest).lexeme = .token kind) :
    ∀ body, kind = .string body → StoredBody body.toList := by
  refine next_cases (motive := fun scan => (scan pos).lexeme = .token kind →
      ∀ body, kind = .string body → StoredBody body.toList)
    ?blank ?lineComment ?blockComment ?string ?template ?number ?word ?symbol h
  case blank | lineComment | template => rintro - ⟨⟩
  case blockComment =>
    intro _ h
    simp only [blockComment] at h
    split at h <;> cases h
  case string =>
    rintro - h _ rfl
    simp only [string] at h
    split at h <;> cases h
    next clean =>
      rw [String.toList_ofList]
      exact storedBody_of_clean (List.isEmpty_iff.1 clean)
  case number =>
    rintro - h _ rfl
    simp only [number] at h
    split at h <;> cases h
  case word =>
    rintro - h _ rfl
    have is : wordKind (String.ofList (c :: rest.takeWhile isWordPart)) = .string _ :=
      Lexeme.token.inj h
    rw [wordKind] at is
    split at is <;> cases is
  case symbol =>
    rintro h _ rfl
    simp only [symbol] at h
    split at h <;> cases h
    next found =>
      obtain ⟨_, _, _, _, spelled⟩ := exists_of_symbolAt? found
      rcases exists_of_symbol? spelled with ⟨_, -, is⟩ | ⟨_, -, is⟩ <;> cases is

theorem storedBody_of_tokenize {source : String} {base : Nat} {tokens : List Token}
    (h : tokenize source base = .ok tokens) {token : Token} (mem : token ∈ allTokens tokens)
    {body : String} (is : token.kind = .string body) : StoredBody body.toList := by
  obtain ⟨-, rfl⟩ := tokenize_eq_ok_iff.1 h
  exact lexFrom_kinds (P := fun kind => ∀ body, kind = .string body → StoredBody body.toList)
    (fun _ is => by cases is) (fun _ _ _ is => by cases is)
    (fun _ _ _ _ => Scan.storedBody_of_token) base source.toList token mem body is

/-- In front of what comes after, a text is cut into tokens of these kinds, and what comes after is
cut as it is alone. -/
def CutsInto (kinds : List TokenKind) (after cs : List Char) : Prop :=
  ∀ pos, ∃ tokens next, tokens.map Token.kind = kinds ∧
    lexFrom pos (cs ++ after) = ⟨tokens ++ (lexFrom next after).tokens, (lexFrom next after).errors⟩

namespace CutsInto

variable {kinds more : List TokenKind} {after cs ds : List Char} {kind : TokenKind}

theorem nil : CutsInto [] after [] := fun pos => ⟨[], pos, rfl, rfl⟩

theorem append (first : CutsInto kinds (ds ++ after) cs) (second : CutsInto more after ds) :
    CutsInto (kinds ++ more) after (cs ++ ds) := by
  intro pos
  obtain ⟨tokens, mid, rfl, cut⟩ := first pos
  obtain ⟨others, next, rfl, rest⟩ := second mid
  refine ⟨tokens ++ others, next, List.map_append, ?_⟩
  rw [List.append_assoc, cut, rest, List.append_assoc]

/-- A blank is skipped. -/
theorem blank : CutsInto [] after [' '] := fun pos => ⟨[], pos + 1, rfl, lexFrom_cons pos ' ' after⟩

theorem of_next {c : Char} {rest : List Char}
    (read : ∀ pos, ∃ stop, Scan.next pos c (rest ++ after) = ⟨.token kind, stop, after⟩) :
    CutsInto [kind] after (c :: rest) := by
  intro pos
  obtain ⟨stop, read⟩ := read pos
  refine ⟨[.mk kind ⟨pos, stop⟩], stop, rfl, ?_⟩
  rw [List.cons_append, lexFrom_cons, read]
  rfl

/-- A token that is written as it is kept, where nothing comes next that goes on with it. -/
theorem written (readable : kind.IsReadable) (spelled : kind.spelling?.isSome)
    (stops : ∀ c ∈ after.head?, kind.StopsBefore c) : CutsInto [kind] after kind.written := by
  obtain ⟨c, rest, written, read⟩ := readable.readBefore spelled stops
  rw [written]
  exact of_next fun pos => ⟨_, read pos⟩

/-- A string in double quotes ends at the second, whatever comes next. -/
theorem string {body : String} (stored : StoredBody body.toList)
    (short : longEscapeIn body.toList = false) :
    CutsInto [.string body] after ('"' :: (body.toList ++ ['"'])) := by
  refine of_next fun pos => ?_
  obtain ⟨stop, read⟩ := stored.scanString short pos (pos + 1) after
  refine ⟨stop, ?_⟩
  rw [List.append_assoc, List.singleton_append, Scan.next, Scan.string, read]
  simp

/-- A mark with which no other begins, whatever comes next. -/
theorem mark (p : Punctuation) (single : continuations p.spelling.toList = []) (noDot : p ≠ .dot) :
    CutsInto [.punctuation p] after p.spelling.toList :=
  written trivial rfl fun _ _ =>
    ⟨endsBefore_of_not_mem (single ▸ List.not_mem_nil), fun dot => absurd dot noDot⟩

/-- A text that is cut in front of its end. -/
theorem tokenize_eq {text : String} (h : CutsInto kinds [] text.toList) (base : Nat) :
    ∃ tokens stop, tokenize text base = .ok (tokens ++ [.mk .eof stop]) ∧
      tokens.map Token.kind = kinds := by
  obtain ⟨tokens, next, same, cut⟩ := h base
  rw [List.append_nil, lexFrom_nil] at cut
  refine ⟨tokens, ⟨next, next⟩, ?_, same⟩
  rw [tokenize, cut]
  rfl

end CutsInto

end ScriptToGo
