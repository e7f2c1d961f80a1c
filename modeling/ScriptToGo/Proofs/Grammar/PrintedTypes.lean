import ScriptToGo.Proofs.Grammar.WrittenTypes
import ScriptToGo.Proofs.Token.Cutting
import ScriptToGo.Proofs.Program.Bare

/-! The text of a type is cut into tokens from which the type is read again. -/
namespace ScriptToGo

/-- The tokens of a number that may carry a minus sign. -/
def numberKinds (text : String) : List TokenKind :=
  if text.toList.head? = some '-' then
    [.operator .minus, .number (String.ofList text.toList.tail)]
  else [.number text]

namespace TypeExpr

mutual

/-- The kinds of the tokens with which a type is printed. -/
def kinds : TypeExpr → List TokenKind
  | named _ name args =>
    match args with
    | [] => [.ident name]
    | first :: rest =>
      .ident name :: .operator .less :: (first.kinds ++ (laterKinds rest ++ [.operator .greater]))
  | array _ element =>
    element.kinds ++ [.punctuation .leftBracket, .punctuation .rightBracket]
  | string _ body => [.string body]
  | number _ text => numberKinds text
  | boolean _ value => [.keyword (if value then .trueWord else .falseWord)]
  | null _ => [.keyword .nullWord]
  | object _ members =>
    .punctuation .leftBrace :: (membersKinds members ++ [.punctuation .rightBrace])

/-- Type arguments, each after a comma. -/
def laterKinds : List TypeExpr → List TokenKind
  | [] => []
  | arg :: rest => .punctuation .comma :: (arg.kinds ++ laterKinds rest)

/-- Members, each closed by a semicolon. -/
def membersKinds : List Member → List TokenKind
  | [] => []
  | .mk _ name isOptional type :: rest =>
    .ident name :: ((if isOptional then [.punctuation .question] else []) ++
      .punctuation .colon :: (type.kinds ++ .punctuation .semicolon :: membersKinds rest))

end

end TypeExpr

/-- The text of a token is cut as this token again. -/
def TokenKind.Recurs : TokenKind → Prop
  | .string body => StoredBody body.toList ∧ longEscapeIn body.toList = false
  | kind => kind.IsReadable

/-- The characters that come right after a word or a type in the text of a type. -/
def typeEnds : List Char := ['<', '>', '[', ',', '?', ':', ';', ' ']

theorem stopsBefore_typeEnds {kind : TokenKind} (word : kind.isWord = true) :
    ∀ c ∈ typeEnds, kind.StopsBefore c := by
  have ends : ∀ c ∈ typeEnds, isWordPart c = false ∧ c ≠ '.' := by
    rw [typeEnds]
    simp only [List.forall_mem_cons, List.not_mem_nil, false_implies, implies_true, and_true]
    decide
  cases kind with
  | keyword | ident | number => exact ends
  | _ => cases word

/-- What may come after a type, if it does not come at its end. -/
def EndsType (after : List Char) : Prop := ∀ c ∈ after.head?, c ∈ typeEnds

theorem endsType_cons {c : Char} (h : c ∈ typeEnds) (rest : List Char) : EndsType (c :: rest) := by
  rintro _ ⟨⟩
  exact h

theorem EndsType.noEquals {after : List Char} (h : EndsType after) : ∀ c ∈ after.head?, c ≠ '=' :=
  fun c first is => absurd (h c first) (is ▸ by decide)

theorem IsNumeral.head_ne {text : List Char} (h : NumberScan.IsNumeral text) {other : Char}
    (noDigit : Text.isDigit other = false) (noPoint : other ≠ '.') (after : List Char) :
    ∀ c ∈ (text ++ after).head?, c ≠ other := by
  obtain ⟨first, tail, rfl, begins, -⟩ := h
  rintro _ ⟨⟩ rfl
  rcases begins with digit | ⟨point, -⟩
  · exact Bool.false_ne_true (noDigit.symm.trans digit)
  · exact noPoint point

namespace CutsInto

variable {after : List Char}

/-- A word in front of the end of a type. -/
theorem word {kind : TokenKind} (readable : kind.IsReadable) (word : kind.isWord = true)
    (ends : EndsType after) : CutsInto [kind] after kind.written := by
  refine written readable ?_ fun c first => stopsBefore_typeEnds word c (ends c first)
  cases kind with
  | keyword | ident | number => rfl
  | _ => cases word

/-- A bracket around type arguments. -/
theorem angle {op : Operator} (is : op = .less ∨ op = .greater)
    (noEquals : ∀ c ∈ after.head?, c ≠ '=') : CutsInto [.operator op] after op.spelling.toList := by
  have longer : continuations op.spelling.toList = ['='] ∧ op ≠ .slash := by
    rcases is with rfl | rfl <;> decide
  refine written trivial rfl fun c first => ⟨endsBefore_of_not_mem ?_, fun slash => absurd slash longer.2⟩
  rw [longer.1, List.mem_singleton]
  exact noEquals c first

theorem numberText {text : String} (recurs : ∀ kind ∈ numberKinds text, kind.Recurs)
    (ends : EndsType after) : CutsInto (numberKinds text) after text.toList := by
  rw [numberKinds] at recurs ⊢
  split at recurs
  next minus =>
    obtain ⟨digits, same⟩ := List.head?_eq_some_iff.1 minus
    rw [if_pos minus]
    rw [same, List.tail_cons] at recurs ⊢
    have numeral : (TokenKind.number (String.ofList digits)).IsReadable :=
      (List.forall_mem_cons.1 (List.forall_mem_cons.1 recurs).2).1
    have spelled : (TokenKind.number (String.ofList digits)).written = digits := String.toList_ofList
    have unsigned := word numeral rfl ends
    rw [spelled] at unsigned
    rw [TokenKind.IsReadable, String.toList_ofList] at numeral
    have noSign := IsNumeral.head_ne numeral (by decide : Text.isDigit '-' = false) (by decide) after
    have noEquals := IsNumeral.head_ne numeral (by decide : Text.isDigit '=' = false) (by decide) after
    have others : continuations Operator.minus.spelling.toList = ['=', '-'] := by decide
    have sign : CutsInto [.operator .minus] (digits ++ after) ['-'] := by
      refine written trivial rfl fun c first => ⟨endsBefore_of_not_mem ?_, nofun⟩
      simp [others, noSign c first, noEquals c first]
    exact sign.append unsigned
  next plain =>
    rw [if_neg plain]
    exact word (recurs _ (List.mem_singleton_self _)) rfl ends

end CutsInto

namespace TypeExpr

theorem exists_text_named (s : Span) (name : String) (args : List TypeExpr) :
    ∃ more, (named s name args).text.toList = name.toList ++ more ∧
      .ident name ∈ (named s name args).kinds := by
  cases args with
  | nil => exact ⟨[], (List.append_nil _).symm, List.mem_singleton_self _⟩
  | cons first rest =>
    simp only [text, String.toList_append, toString, List.append_assoc]
    exact ⟨_, rfl, List.mem_cons_self⟩

/-- The text of a type does not go on with an opening angle bracket before it. -/
theorem noEquals_text (type : TypeExpr) (recurs : ∀ kind ∈ type.kinds, kind.Recurs)
    (after : List Char) : ∀ c ∈ (type.text.toList ++ after).head?, c ≠ '=' := by
  match type with
  | .named s name args =>
    obtain ⟨more, whole, mem⟩ := exists_text_named s name args
    obtain ⟨⟨c, tail, spelled, start, -⟩, -⟩ := recurs _ mem
    rw [whole, spelled]
    rintro _ ⟨⟩ rfl
    exact absurd start (by decide)
  | .array _ element =>
    rw [kinds, List.forall_mem_append] at recurs
    have begins := noEquals_text element recurs.1 ("[]".toList ++ after)
    simpa only [text, String.toList_append, toString, List.append_assoc] using begins
  | .string _ body =>
    simp only [text, String.toList_append, toString, List.append_assoc]
    rintro _ ⟨⟩
    decide
  | .number _ text =>
    rw [kinds, numberKinds] at recurs
    change ∀ c ∈ (text.toList ++ after).head?, c ≠ '='
    split at recurs
    next minus =>
      obtain ⟨digits, same⟩ := List.head?_eq_some_iff.1 minus
      rw [same]
      rintro _ ⟨⟩
      decide
    next =>
      exact IsNumeral.head_ne (recurs _ (List.mem_singleton_self _)) (by decide) (by decide) after
  | .boolean _ true =>
    rw [text, if_pos rfl]
    rintro _ ⟨⟩
    decide
  | .boolean _ false =>
    rw [text, if_neg Bool.false_ne_true]
    rintro _ ⟨⟩
    decide
  | .null _ =>
    rw [text]
    rintro _ ⟨⟩
    decide
  | .object _ members =>
    simp only [text, String.toList_append, toString, List.append_assoc]
    rintro _ ⟨⟩
    decide

theorem endsType_argsText (args : List TypeExpr) (after : List Char) :
    EndsType ((argsText args).toList ++ ">".toList ++ after) := by
  cases args with
  | nil => exact endsType_cons (by decide) _
  | cons arg rest =>
    simp only [argsText, String.toList_append, toString, List.append_assoc]
    exact endsType_cons (by decide) _

mutual

/-- The text of a type is cut into its tokens. -/
theorem cutsInto_text (type : TypeExpr) (recurs : ∀ kind ∈ type.kinds, kind.Recurs)
    {after : List Char} (ends : EndsType after) : CutsInto type.kinds after type.text.toList := by
  match type with
  | .named _ name [] => exact .word (recurs _ (List.mem_singleton_self _)) rfl ends
  | .named _ name (first :: rest) =>
    simp only [kinds, List.forall_mem_cons, List.forall_mem_append] at recurs
    obtain ⟨readable, -, here, others, -⟩ := recurs
    have readable : (TokenKind.ident name).IsReadable := readable
    have begins := noEquals_text first here ((argsText rest).toList ++ ">".toList ++ after)
    rw [← List.append_assoc] at begins
    have closed := (cutsInto_argsText rest others _).append
      (CutsInto.angle (.inr rfl) ends.noEquals)
    have inner := (cutsInto_text first here (endsType_argsText rest after)).append closed
    have opened := (CutsInto.angle (.inl rfl) begins).append inner
    have whole := (CutsInto.word readable rfl (endsType_cons (by decide) _)).append opened
    simp only [text, String.toList_append, toString, List.append_assoc]
    exact whole
  | .array _ element =>
    rw [kinds, List.forall_mem_append] at recurs
    have closing : CutsInto [.punctuation .rightBracket] after "]".toList :=
      .mark .rightBracket (by decide) nofun
    have brackets := (CutsInto.mark .leftBracket (by decide) nofun).append closing
    have whole := (cutsInto_text element recurs.1 (endsType_cons (by decide) _)).append brackets
    simp only [text, String.toList_append, toString]
    exact whole
  | .string _ body =>
    have recurs : StoredBody body.toList ∧ longEscapeIn body.toList = false :=
      recurs _ (List.mem_singleton_self _)
    simp only [text, String.toList_append, toString, List.append_assoc]
    exact .string recurs.1 recurs.2
  | .number _ text => exact .numberText recurs ends
  | .boolean _ true => exact .word trivial rfl ends
  | .boolean _ false => exact .word trivial rfl ends
  | .null _ => exact .word trivial rfl ends
  | .object _ members =>
    simp only [kinds, List.forall_mem_cons, List.forall_mem_append] at recurs
    obtain ⟨-, here, -⟩ := recurs
    have closing : CutsInto [.punctuation .rightBrace] after "\x7d".toList :=
      .mark .rightBrace (by decide) nofun
    have inner := (cutsInto_membersText members here _).append (CutsInto.blank.append closing)
    have whole := (CutsInto.mark .leftBrace (by decide) nofun).append inner
    simp only [text, String.toList_append, toString, List.append_assoc]
    exact whole

theorem cutsInto_argsText (args : List TypeExpr)
    (recurs : ∀ kind ∈ laterKinds args, kind.Recurs) (after : List Char) :
    CutsInto (laterKinds args) (">".toList ++ after) (argsText args).toList := by
  match args with
  | [] => exact .nil
  | arg :: rest =>
    simp only [laterKinds, List.forall_mem_cons, List.forall_mem_append] at recurs
    obtain ⟨-, here, others⟩ := recurs
    have ends := endsType_argsText rest after
    rw [List.append_assoc] at ends
    have inner := (cutsInto_text arg here ends).append (cutsInto_argsText rest others after)
    have whole := (CutsInto.mark .comma (by decide) nofun).append (CutsInto.blank.append inner)
    simp only [argsText, String.toList_append, toString, List.append_assoc]
    exact whole

theorem cutsInto_membersText (members : List Member)
    (recurs : ∀ kind ∈ membersKinds members, kind.Recurs) (after : List Char) :
    CutsInto (membersKinds members) after (membersText members).toList := by
  match members with
  | [] => exact .nil
  | .mk _ name isOptional type :: rest =>
    simp only [membersKinds, List.forall_mem_cons, List.forall_mem_append] at recurs
    obtain ⟨readable, -, -, here, -, others⟩ := recurs
    have readable : (TokenKind.ident name).IsReadable := readable
    have separated := (CutsInto.mark .semicolon (by decide) nofun).append
      (cutsInto_membersText rest others after)
    have typed := (cutsInto_text type here (endsType_cons (by decide) _)).append separated
    have coloned := (CutsInto.mark .colon (by decide) nofun).append (CutsInto.blank.append typed)
    simp only [membersText, String.toList_append, toString, List.append_assoc]
    cases isOptional with
    | false =>
      have named := (CutsInto.word readable rfl (endsType_cons (by decide) _)).append coloned
      exact CutsInto.blank.append named
    | true =>
      have marked := (CutsInto.mark .question (by decide) nofun).append coloned
      have named := (CutsInto.word readable rfl (endsType_cons (by decide) _)).append marked
      exact CutsInto.blank.append named

end

end TypeExpr

namespace Cursor

/-- Tokens of these kinds lead from one place to another. -/
def PassesKinds (c : Cursor) (kinds : List TokenKind) (next : Cursor) : Prop :=
  ∃ taken, taken.map Token.kind = kinds ∧ c.Passes taken next

variable {c next : Cursor} {kind : TokenKind} {kinds more : List TokenKind}

theorem PassesKinds.nil (h : c.PassesKinds [] next) : c = next := by
  obtain ⟨taken, same, passed⟩ := h
  obtain rfl := List.map_eq_nil_iff.1 same
  exact (Passes.nil c).unique passed

theorem PassesKinds.cons (h : c.PassesKinds (kind :: more) next) :
    ∃ span mid, c.Passes [.mk kind span] mid ∧ mid.PassesKinds more next := by
  obtain ⟨taken, same, passed⟩ := h
  obtain ⟨⟨_, span⟩, others, rfl, rfl, rest⟩ := List.map_eq_cons_iff.1 same
  obtain ⟨mid, first, later⟩ := passed.cons
  exact ⟨span, mid, first, others, rest, later⟩

theorem PassesKinds.one (h : c.PassesKinds [kind] next) : ∃ span, c.Passes [.mk kind span] next := by
  obtain ⟨span, mid, passed, rest⟩ := h.cons
  exact ⟨span, rest.nil ▸ passed⟩

theorem PassesKinds.split (h : c.PassesKinds (kinds ++ more) next) :
    ∃ mid, c.PassesKinds kinds mid ∧ mid.PassesKinds more next := by
  obtain ⟨taken, same, passed⟩ := h
  obtain ⟨first, second, rfl, rfl, rfl⟩ := List.map_eq_append_iff.1 same
  obtain ⟨mid, before, after⟩ := passed.split
  exact ⟨mid, ⟨first, rfl, before⟩, second, rfl, after⟩

/-- The question mark of an optional member is skipped, and nothing else. -/
theorem PassesKinds.skipQuestion {isOptional : Bool}
    (h : c.PassesKinds ((if isOptional then [.punctuation .question] else []) ++
      .punctuation .colon :: more) next) :
    c.atMark .question = isOptional ∧
      (c.skipMark .question).PassesKinds (.punctuation .colon :: more) next := by
  cases isOptional with
  | true =>
    obtain ⟨_, mid, marked, rest⟩ := h.cons
    rw [atMark, marked.peek, marked.skipMark_eq]
    exact ⟨rfl, rest⟩
  | false =>
    obtain ⟨_, mid, coloned, _⟩ := h.cons
    have unmarked : c.mark? .question = none := take?_eq_none (by rw [coloned.peek]; rfl)
    rw [atMark, coloned.peek, skipMark, unmarked]
    exact ⟨rfl, h⟩

theorem Passes.expectOperator {op : Operator} {wanted : String} {span : Span}
    (h : c.Passes [.mk (.operator op) span] next) : (c.expectOperator op wanted).Gives span next :=
  (h.expect (by rw [TokenKind.isOperator, if_pos rfl])).map _

end Cursor

namespace Grammar
open Cursor

variable {c mid start stop next last : Cursor} {span : Span} {type value : TypeExpr} {place : Nat}

theorem arraySuffixes_stop (noBracket : TokenKind.isMark .leftBracket c.peek.kind = none) :
    (arraySuffixes place type c).Gives type c := by
  rw [arraySuffixes, mark?, take?_eq_none noBracket]
  exact Reading.gives_stay type c

theorem arraySuffixes_step {closing : Span}
    (opened : c.Passes [.mk (.punctuation .leftBracket) span] mid)
    (closed : mid.Passes [.mk (.punctuation .rightBracket) closing] next)
    (others : (arraySuffixes place (.array (next.spanFrom place) type) next).Gives value last) :
    (arraySuffixes place type c).Gives value last := by
  obtain ⟨_, taken⟩ := opened.mark?
  obtain ⟨_, taken'⟩ := closed.mark?
  rw [arraySuffixes, taken]
  dsimp only
  rw [taken']
  apply Reading.Gives.pastOptional
  exact others.weaken _

theorem typeExpr_primary (read : (primaryType c).Gives type mid)
    (others : (arraySuffixes c.start type mid).Gives value last) :
    (typeExpr c).Gives value last := by
  rw [typeExpr]
  exact read.andMaybe fun _ => others

theorem primaryType_name {name : String} (named : c.Passes [.mk (.ident name) span] next)
    (noLess : TokenKind.isOperator .less next.peek.kind = none) :
    (primaryType c).Gives (.named (next.spanFrom c.start) name []) next := by
  obtain ⟨⟨_, _, _, _, _⟩, found, rfl, rfl, rfl⟩ := named.next?
  rw [primaryType, found]
  dsimp only
  rw [operator?, take?_eq_none noLess]
  exact ⟨_, rfl⟩

theorem primaryType_generic {name : String} {less : Span} {args : List TypeExpr}
    (named : c.Passes [.mk (.ident name) span] mid)
    (opened : mid.Passes [.mk (.operator .less) less] start)
    (read : (typeArguments start).Gives args next) :
    (primaryType c).Gives (.named (next.spanFrom c.start) name args) next := by
  obtain ⟨⟨_, _, _, _, _⟩, found, rfl, rfl, rfl⟩ := named.next?
  obtain ⟨_, taken⟩ := opened.operator?
  rw [primaryType, found]
  dsimp only
  rw [taken]
  apply Reading.Gives.past
  apply Reading.Gives.past
  exact read.mapAt _

theorem primaryType_string {body : String} (passed : c.Passes [.mk (.string body) span] next) :
    (primaryType c).Gives (.string (next.spanFrom c.start) body) next := by
  obtain ⟨⟨_, _, _, _, _⟩, found, rfl, rfl, rfl⟩ := passed.next?
  rw [primaryType, found]
  exact ⟨_, rfl⟩

theorem primaryType_number {text : String} (passed : c.Passes [.mk (.number text) span] next) :
    (primaryType c).Gives (.number (next.spanFrom c.start) text) next := by
  obtain ⟨⟨_, _, _, _, _⟩, found, rfl, rfl, rfl⟩ := passed.next?
  rw [primaryType, found]
  exact ⟨_, rfl⟩

theorem primaryType_negative {text : String} {minus : Span}
    (signed : c.Passes [.mk (.operator .minus) minus] mid)
    (passed : mid.Passes [.mk (.number text) span] next) :
    (primaryType c).Gives (.number (next.spanFrom c.start) s!"-{text}") next := by
  obtain ⟨⟨_, _, _, _, _⟩, found, rfl, rfl, rfl⟩ := signed.next?
  obtain ⟨⟨_, _, _, _, _⟩, found', rfl, rfl, rfl⟩ := passed.next?
  rw [primaryType, found]
  dsimp only
  rw [found']
  apply Reading.Gives.past
  exact ⟨_, rfl⟩

theorem primaryType_boolean {isTrue : Bool}
    (passed : c.Passes [.mk (.keyword (if isTrue then .trueWord else .falseWord)) span] next) :
    (primaryType c).Gives (.boolean (next.spanFrom c.start) isTrue) next := by
  obtain ⟨⟨_, _, _, _, _⟩, found, is, rfl, rfl⟩ := passed.next?
  cases isTrue with
  | true =>
    obtain rfl : _ = TokenKind.keyword .trueWord := is
    rw [primaryType, found]
    exact ⟨_, rfl⟩
  | false =>
    obtain rfl : _ = TokenKind.keyword .falseWord := is
    rw [primaryType, found]
    exact ⟨_, rfl⟩

theorem primaryType_null (passed : c.Passes [.mk (.keyword .nullWord) span] next) :
    (primaryType c).Gives (.null (next.spanFrom c.start)) next := by
  obtain ⟨⟨_, _, _, _, _⟩, found, rfl, rfl, rfl⟩ := passed.next?
  rw [primaryType, found]
  exact ⟨_, rfl⟩

theorem primaryType_object {list : List Member}
    (opened : c.Passes [.mk (.punctuation .leftBrace) span] mid)
    (read : (members mid).Gives list next) :
    (primaryType c).Gives (.object (next.spanFrom c.start) list) next := by
  obtain ⟨⟨_, _, _, _, _⟩, found, rfl, rfl, rfl⟩ := opened.next?
  rw [primaryType, found]
  apply Reading.Gives.past
  exact read.mapAt _

theorem typeArguments_last (read : (typeExpr c).Gives type mid)
    (closed : mid.Passes [.mk (.operator .greater) span] next) :
    (typeArguments c).Gives [type] next := by
  rw [typeArguments]
  apply read.andThen
  intro _
  rw [mark?, take?_eq_none (by rw [closed.peek]; rfl)]
  exact closed.expectOperator.map _

theorem typeArguments_cons {args : List TypeExpr} (read : (typeExpr c).Gives type mid)
    (comma : mid.Passes [.mk (.punctuation .comma) span] start)
    (others : (typeArguments start).Gives args next) :
    (typeArguments c).Gives (type :: args) next := by
  rw [typeArguments]
  apply read.andThen
  intro _
  obtain ⟨_, taken⟩ := comma.mark?
  rw [taken]
  apply Reading.Gives.past
  exact others.map _

theorem members_nil (closed : c.Passes [.mk (.punctuation .rightBrace) span] next) :
    (members c).Gives [] next := by
  have here : c.atMark .rightBrace = true := by
    rw [atMark, closed.peek]
    rfl
  rw [members, here, Bool.true_or, if_pos rfl]
  exact closed.expectMark.map _

theorem members_cons {name : String} {colon separator : Span} {list : List Member}
    (named : c.Passes [.mk (.ident name) span] mid)
    (coloned : (mid.skipMark .question).Passes [.mk (.punctuation .colon) colon] start)
    (read : (typeExpr start).Gives type stop)
    (separated : stop.Passes [.mk (.punctuation .semicolon) separator] last)
    (others : (members last).Gives list next) :
    (members c).Gives
      (.mk (stop.spanFrom span.start) name (mid.atMark .question) type :: list) next := by
  have some : (c.atMark .rightBrace || c.atEnd) = false := by
    rw [atMark, atEnd, named.peek]
    rfl
  rw [members, some, if_neg Bool.false_ne_true]
  apply named.expectName.andThen
  intro _
  apply Reading.Gives.weaken
  apply coloned.expectMark.andThen
  intro _
  apply read.andThen
  intro _
  obtain ⟨_, taken⟩ := separated.mark?
  dsimp only
  rw [taken, Option.some_or]
  apply Reading.Gives.past
  exact others.map _

/-- Up to the brackets that follow it, a type is read from tokens of its kinds. It does not depend on
how it goes on, so that the brackets of an array can be read after its elements. -/
def ReadsUpTo (c : Cursor) (type : TypeExpr) (mid : Cursor) : Prop :=
  ∃ read : TypeExpr, read.bare = type.bare ∧ ∀ {value last},
    (arraySuffixes c.start read mid).Gives value last → (typeExpr c).Gives value last

theorem ReadsUpTo.of_primary {read : TypeExpr} (h : (primaryType c).Gives read mid)
    (same : read.bare = type.bare) : ReadsUpTo c type mid :=
  ⟨read, same, fun others => typeExpr_primary h others⟩

/-- Where no bracket follows, the type is read as it is. -/
theorem ReadsUpTo.gives (h : ReadsUpTo c type next)
    (noBracket : TokenKind.isMark .leftBracket next.peek.kind = none) :
    ∃ read, (typeExpr c).Gives read next ∧ read.bare = type.bare := by
  obtain ⟨read, same, goesOn⟩ := h
  exact ⟨read, goesOn (arraySuffixes_stop noBracket), same⟩

theorem primaryType_numberKinds {s : Span} {text : String}
    (passed : c.PassesKinds (numberKinds text) next) : ReadsUpTo c (.number s text) next := by
  rw [numberKinds] at passed
  split at passed
  next minus =>
    obtain ⟨digits, same⟩ := List.head?_eq_some_iff.1 minus
    obtain ⟨_, mid, signed, rest⟩ := passed.cons
    obtain ⟨_, number⟩ := rest.one
    refine .of_primary (primaryType_negative signed number) ?_
    have whole : s!"-{String.ofList text.toList.tail}" = text := by
      rw [← String.toList_inj, same]
      simp [toString]
    rw [whole]
    rfl
  next =>
    obtain ⟨_, number⟩ := passed.one
    exact .of_primary (primaryType_number number) rfl

mutual

theorem typeExpr_readsUpTo (type : TypeExpr) {c mid : Cursor}
    (passed : c.PassesKinds type.kinds mid)
    (noLess : TokenKind.isOperator .less mid.peek.kind = none) : ReadsUpTo c type mid := by
  match type with
  | .named _ name [] =>
    obtain ⟨_, named⟩ := passed.one
    exact .of_primary (primaryType_name named noLess) rfl
  | .named _ name (first :: rest) =>
    obtain ⟨_, _, named, passed⟩ := passed.cons
    obtain ⟨_, _, opened, passed⟩ := passed.cons
    obtain ⟨args, read, same⟩ := typeArguments_gives first rest passed
    refine .of_primary (primaryType_generic named opened read) ?_
    rw [TypeExpr.bare, TypeExpr.bare, same]
  | .array _ element =>
    obtain ⟨stop, inner, brackets⟩ := passed.split
    obtain ⟨_, _, opened, rest⟩ := brackets.cons
    obtain ⟨_, closed⟩ := rest.one
    obtain ⟨read, same, goesOn⟩ := typeExpr_readsUpTo element inner (by rw [opened.peek]; rfl)
    refine ⟨.array (mid.spanFrom c.start) read, ?_, fun others => ?_⟩
    · rw [TypeExpr.bare, TypeExpr.bare, same]
    · exact goesOn (arraySuffixes_step opened closed others)
  | .string _ body =>
    obtain ⟨_, passed⟩ := passed.one
    exact .of_primary (primaryType_string passed) rfl
  | .number _ text => exact primaryType_numberKinds passed
  | .boolean _ value =>
    obtain ⟨_, passed⟩ := passed.one
    exact .of_primary (primaryType_boolean passed) rfl
  | .null _ =>
    obtain ⟨_, passed⟩ := passed.one
    exact .of_primary (primaryType_null passed) rfl
  | .object _ list =>
    obtain ⟨_, _, opened, passed⟩ := passed.cons
    obtain ⟨others, read, same⟩ := members_gives list passed
    refine .of_primary (primaryType_object opened read) ?_
    rw [TypeExpr.bare, TypeExpr.bare, same]
termination_by sizeOf type

theorem typeArguments_gives (first : TypeExpr) (rest : List TypeExpr) {c next : Cursor}
    (passed : c.PassesKinds
      (first.kinds ++ (TypeExpr.laterKinds rest ++ [.operator .greater])) next) :
    ∃ args, (typeArguments c).Gives args next ∧
      TypeExpr.allBare args = TypeExpr.allBare (first :: rest) := by
  obtain ⟨mid, here, passed⟩ := passed.split
  match rest with
  | [] =>
    obtain ⟨_, closed⟩ := passed.one
    have ends := typeExpr_readsUpTo first here (by rw [closed.peek]; rfl)
    obtain ⟨read, given, same⟩ := ends.gives (by rw [closed.peek]; rfl)
    refine ⟨[read], typeArguments_last given closed, ?_⟩
    rw [TypeExpr.allBare, TypeExpr.allBare, same]
    rfl
  | second :: rest =>
    obtain ⟨_, _, comma, passed⟩ := passed.cons
    have ends := typeExpr_readsUpTo first here (by rw [comma.peek]; rfl)
    obtain ⟨read, given, same⟩ := ends.gives (by rw [comma.peek]; rfl)
    obtain ⟨args, others, same'⟩ := typeArguments_gives second rest
      (by rw [← List.append_assoc]; exact passed)
    refine ⟨read :: args, typeArguments_cons given comma others, ?_⟩
    rw [TypeExpr.allBare, TypeExpr.allBare, same, same']
termination_by sizeOf first + sizeOf rest

theorem members_gives (list : List Member) {c next : Cursor}
    (passed : c.PassesKinds
      (TypeExpr.membersKinds list ++ [.punctuation .rightBrace]) next) :
    ∃ read, (members c).Gives read next ∧ Member.allBare read = Member.allBare list := by
  match list with
  | [] =>
    obtain ⟨_, closed⟩ := passed.one
    exact ⟨[], members_nil closed, rfl⟩
  | .mk _ name isOptional type :: rest =>
    simp only [TypeExpr.membersKinds, List.cons_append, List.append_assoc] at passed
    obtain ⟨_, mid, named, passed⟩ := passed.cons
    obtain ⟨marked, passed⟩ := passed.skipQuestion
    obtain ⟨_, start, coloned, passed⟩ := passed.cons
    obtain ⟨stop, typed, passed⟩ := passed.split
    obtain ⟨_, last, separated, passed⟩ := passed.cons
    have ends := typeExpr_readsUpTo type typed (by rw [separated.peek]; rfl)
    obtain ⟨read, given, same⟩ := ends.gives (by rw [separated.peek]; rfl)
    obtain ⟨others, given', same'⟩ := members_gives rest passed
    refine ⟨_, members_cons named coloned given separated given', ?_⟩
    rw [Member.allBare, Member.allBare, same, same', marked]
termination_by sizeOf list

end

end Grammar

end ScriptToGo
