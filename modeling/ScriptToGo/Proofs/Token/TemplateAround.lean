import Mathlib.Data.List.Infix
import ScriptToGo.Proofs.Token.Alphabet
import ScriptToGo.Proofs.Token.HoleEnd

/-! A text in the only interpolation of a template: when it is cut there as it is cut alone. -/
namespace ScriptToGo
open SourceLiteral (quoted_of_value)
open Text (byteLength byteLength_append byteLength_toList)

namespace TokenKind

def opens : TokenKind → Bool
  | punctuation .leftBrace => true
  | _ => false

def closes : TokenKind → Bool
  | punctuation .rightBrace => true
  | _ => false

/-- How a token leads from one depth of braces to another. -/
inductive Leads : Nat → TokenKind → Nat → Prop
  | opening {depth} : Leads depth (punctuation .leftBrace) (depth + 1)
  | closing {depth} : Leads (depth + 1) (punctuation .rightBrace) depth
  | other {depth kind} : kind.opens = false → kind.closes = false → Leads depth kind depth

theorem eq_of_opens {kind : TokenKind} (h : kind.opens = true) : kind = punctuation .leftBrace := by
  unfold opens at h
  split at h
  · rfl
  · cases h

theorem eq_of_closes {kind : TokenKind} (h : kind.closes = true) :
    kind = punctuation .rightBrace := by
  unfold closes at h
  split at h
  · rfl
  · cases h

end TokenKind

def openings (tokens : List Token) : Nat := tokens.countP (·.kind.opens)

def closings (tokens : List Token) : Nat := tokens.countP (·.kind.closes)

/-- The braces among some tokens are balanced when `depth` braces are open before them: none of them
closes more than is open, and all are closed in the end. -/
structure Balanced (depth : Nat) (tokens : List Token) : Prop where
  fronts : ∀ front, front <+: tokens → closings front ≤ depth + openings front
  total : closings tokens = depth + openings tokens

instance (depth : Nat) (tokens : List Token) : Decidable (Balanced depth tokens) :=
  decidable_of_iff ((∀ front ∈ tokens.inits, closings front ≤ depth + openings front) ∧
      closings tokens = depth + openings tokens)
    ⟨fun h => ⟨fun front mem => h.1 front ((List.mem_inits front tokens).2 mem), h.2⟩,
      fun h => ⟨fun front mem => h.fronts front ((List.mem_inits front tokens).1 mem), h.total⟩⟩

/-- The first of some balanced tokens leads to a depth from which the others are balanced. -/
theorem Balanced.exists_leads {depth : Nat} {token : Token} {tokens : List Token}
    (h : Balanced depth (token :: tokens)) :
    ∃ between, token.kind.Leads depth between ∧ Balanced between tokens := by
  have total := h.total
  have fronts (front) (inFront : front <+: tokens) :=
    h.fronts (token :: front) (List.cons_prefix_cons.2 ⟨rfl, inFront⟩)
  simp only [closings, openings, List.countP_cons] at total fronts
  by_cases opens : token.kind.opens = true
  · have is := TokenKind.eq_of_opens opens
    have noClosing : token.kind.closes = false := by rw [is]; rfl
    simp only [opens, noClosing, Bool.false_eq_true, ↓reduceIte] at total fronts
    refine ⟨depth + 1, is ▸ .opening, fun front inFront => ?_, ?_⟩
    · have := fronts front inFront
      rw [closings, openings]
      omega
    · rw [closings, openings]
      omega
  rw [Bool.not_eq_true] at opens
  by_cases closes : token.kind.closes = true
  · have is := TokenKind.eq_of_closes closes
    simp only [opens, closes, Bool.false_eq_true, ↓reduceIte] at total fronts
    have some : depth ≠ 0 := by
      have := fronts [] List.nil_prefix
      rw [List.countP_nil, List.countP_nil] at this
      omega
    obtain ⟨less, rfl⟩ := Nat.exists_eq_succ_of_ne_zero some
    refine ⟨less, is ▸ .closing, fun front inFront => ?_, ?_⟩
    · have := fronts front inFront
      rw [closings, openings]
      omega
    · rw [closings, openings]
      omega
  · rw [Bool.not_eq_true] at closes
    simp only [opens, closes, Bool.false_eq_true, ↓reduceIte, Nat.add_zero] at total fronts
    exact ⟨depth, .other opens closes, fronts, total⟩

/-- An offset lies in a range of bytes. -/
def Span.Has (span : Span) (pos : Nat) : Prop := span.start ≤ pos ∧ pos < span.stop

/-- Each brace and quote of a text that begins at `pos` is in one of its tokens, and none in a
comment. -/
def MarksInTokens (pos : Nat) (cs : List Char) (tokens : List Token) : Prop :=
  ∀ front mark rest, cs = front ++ mark :: rest → IsMark mark →
    ∃ token ∈ tokens, token.span.Has (pos + byteLength front)

/-- No backtick of a text that begins at `pos` is in an interpolation of its templates. -/
def BackticksOutside (pos : Nat) (cs : List Char) (tokens : List Token) : Prop :=
  ∀ front rest, cs = front ++ '\x60' :: rest → ∀ token ∈ tokens, ∀ head holes,
    token.kind = .template head holes → ∀ hole ∈ holes, ¬hole.span.Has (pos + byteLength front)

/-- Whether no character of a text is a brace or a quote. -/
def unmarked (text : String) : Bool := text.toList.all fun c => !marks.contains c

theorem not_isMark_of_unmarked {text : String} (h : unmarked text = true) :
    ∀ c ∈ text.toList, ¬IsMark c := by
  intro c mem is
  have no := List.all_eq_true.1 h c mem
  rw [List.contains_iff_mem.2 is] at no
  cases no

theorem Keyword.spelling_unmarked (word : Keyword) : unmarked word.spelling = true := by
  cases word <;> decide

theorem Operator.spelling_unmarked (op : Operator) : unmarked op.spelling = true := by
  cases op <;> decide

theorem not_isMark_of_isNumberPart {c : Char} (h : isNumberPart c = true) : ¬IsMark c := by
  have no : marks.any isNumberPart = false := by decide
  exact fun is => List.any_eq_false.1 no c is h

/-- The only marks that a token is spelled with are the braces among the tokens. -/
theorem TokenKind.spelling_unmarked {kind : TokenKind} {spelling : String}
    (h : kind.spelling? = some spelling) (spelt : kind.IsSpeltRight) (noOpening : kind.opens = false)
    (noClosing : kind.closes = false) : ∀ c ∈ spelling.toList, ¬IsMark c := by
  cases kind with
  | keyword word => exact Option.some.inj h ▸ not_isMark_of_unmarked word.spelling_unmarked
  | operator op => exact Option.some.inj h ▸ not_isMark_of_unmarked op.spelling_unmarked
  | punctuation mark =>
    obtain rfl := Option.some.inj h
    cases mark with
    | leftBrace => cases noOpening
    | rightBrace => cases noClosing
    | _ => exact not_isMark_of_unmarked (by decide)
  | ident name =>
    obtain rfl := Option.some.inj h
    obtain ⟨first, tail, is, start, parts⟩ := spelt
    rw [is, List.forall_mem_cons]
    refine ⟨?_, fun c mem => ?_⟩
    · refine not_isMark_of_isNumberPart (isNumberPart_of_isWordPart ?_)
      rw [isWordPart, start, Bool.true_or]
    · exact not_isMark_of_isNumberPart (isNumberPart_of_isWordPart (parts c mem))
  | number text =>
    obtain rfl := Option.some.inj h
    exact fun c mem => not_isMark_of_isNumberPart (spelt c mem)
  | string | template | eof => cases h

/-- A template without backticks in its interpolations may stand between backticks. -/
theorem Interleaved.quoted {pos : Nat} {text head : List Char} {parts : List (List Char × Hole)}
    (h : Interleaved pos text head parts)
    (outside : ∀ front rest, text = front ++ '\x60' :: rest → ∀ part ∈ parts,
      ¬part.2.span.Has (pos + byteLength front)) :
    ∃ body, text = body ++ ['\x60'] ∧ Quoted '\x60' body := by
  induction h with
  | @close pos raw head same =>
    obtain ⟨_, -, value⟩ := same
    exact ⟨raw, rfl, quoted_of_value (by decide) (by decide) value⟩
  | @hole pos raw head chars tokens after text parts same later ih =>
    obtain ⟨_, -, value⟩ := same
    have front : Quoted '\x60' raw := quoted_of_value (by decide) (by decide) value
    have noBacktick : '\x60' ∉ chars := by
      intro mem
      obtain ⟨before, behind, rfl⟩ := List.append_of_mem mem
      refine outside (raw ++ '$' :: '\x7b' :: before) (behind ++ '\x7d' :: text) (by simp) _
        List.mem_cons_self ?_
      have size : ('\x60').utf8Size = 1 := by decide
      have opening : byteLength ('$' :: '\x7b' :: before) = 2 + byteLength before :=
        byteLength_append ['$', '\x7b'] before
      rw [byteLength_append, byteLength_append, byteLength, size, opening]
      simp only [Span.Has, Hole.span]
      omega
    obtain ⟨body, rfl, quoted⟩ := ih fun before rest whole part mem has => by
      refine outside (raw ++ '$' :: '\x7b' :: chars ++ '\x7d' :: before) rest (by simp [whole]) part
        (List.mem_cons_of_mem _ mem) ?_
      rwa [byteLength_opening, ← Nat.add_assoc, ← Nat.add_assoc, ← Nat.add_assoc,
        ← Nat.add_assoc]
    refine ⟨raw ++ '$' :: '\x7b' :: (chars ++ '\x7d' :: body), by simp, front.append ?_⟩
    exact .char (by decide) (by decide) (.char (by decide) (by decide)
      (Quoted.skip noBacktick (by decide) quoted))

/-- The characters of a token lead from one depth of braces to another as the token does. -/
theorem Writes.passes {pos depth stop : Nat} {lexeme after : List Char} {kind : TokenKind}
    {parts : List (List Char × Hole)} (h : Writes pos lexeme after kind parts)
    (spelt : kind.IsSpeltRight) (leads : kind.Leads depth stop)
    (outside : ∀ front rest, lexeme = front ++ '\x60' :: rest → ∀ head holes,
      kind = .template head holes → ∀ hole ∈ holes, ¬hole.span.Has (pos + byteLength front)) :
    Passes depth lexeme stop := by
  cases h with
  | spelled spelled =>
    have is := spelled.spelling
    cases leads with
    | opening =>
      obtain rfl : lexeme = ['\x7b'] := by
        rw [← @String.toList_ofList lexeme, ← Option.some.inj is]
        rfl
      exact .opening .nil
    | closing =>
      obtain rfl : lexeme = ['\x7d'] := by
        rw [← @String.toList_ofList lexeme, ← Option.some.inj is]
        rfl
      exact .closing .nil
    | other noOpening noClosing =>
      have unmarked := TokenKind.spelling_unmarked is spelt noOpening noClosing
      rw [String.toList_ofList] at unmarked
      exact .of_unmarked unmarked
  | @string quote raw body quotes whole same =>
    subst whole
    cases leads with
    | other =>
      obtain ⟨_, -, value⟩ := same
      have is : IsQuote quote := by rcases quotes with rfl | rfl <;> decide
      exact .quoted is (quoted_of_value is (by simp [SourceLiteral.stringStops]) value) .nil
  | @template head text parts whole interleaved =>
    subst whole
    cases leads with
    | other =>
      obtain ⟨body, rfl, quoted⟩ := interleaved.quoted fun front rest whole part mem has => by
        refine outside ('\x60' :: front) rest (congrArg ('\x60' :: ·) whole) _ _ rfl part.2
          (List.mem_map_of_mem mem) ?_
        have size : ('\x60').utf8Size = 1 := by decide
        rwa [byteLength, size, ← Nat.add_assoc]
      exact .quoted (by decide) quoted .nil

theorem MarksInTokens.gap {pos : Nat} {gap cs : List Char} {tokens : List Token}
    (h : MarksInTokens pos cs tokens) (inFront : gap <+: cs)
    (behind : ∀ token ∈ tokens, pos + byteLength gap ≤ token.span.start) :
    ∀ c ∈ gap, ¬IsMark c := by
  intro c mem is
  obtain ⟨front, rest, rfl⟩ := List.append_of_mem mem
  obtain ⟨after, rfl⟩ := inFront
  obtain ⟨token, among, has⟩ := h front c (rest ++ after) (by simp) is
  have := behind token among
  have := c.utf8Size_pos
  have := has.1
  rw [byteLength_append, byteLength] at *
  omega

/-- A text with balanced tokens leads back to no open brace, if what is read over when its tokens are
found does not matter for braces and quotes. -/
theorem Tiles.passes {pos depth : Nat} {cs : List Char} {tokens : List Token}
    (h : Tiles pos cs tokens) (spelt : ∀ token ∈ tokens, token.kind.IsSpeltRight)
    (balanced : Balanced depth tokens) (marks : MarksInTokens pos cs tokens)
    (outside : BackticksOutside pos cs tokens) : Passes depth cs 0 := by
  induction h generalizing depth with
  | @eof pos gap blank =>
    have none : 0 = depth + 0 := balanced.total
    obtain rfl : depth = 0 := none.symm
    exact .of_unmarked (marks.gap (List.prefix_refl gap)
      (List.forall_mem_singleton.2 (Nat.le_refl _)))
  | @token pos gap lexeme after kind parts tokens blank some written inside later _ ih =>
    obtain ⟨between, leads, balanced⟩ := balanced.exists_leads
    obtain ⟨spelt, spelts⟩ := List.forall_mem_cons.1 spelt
    have above := later.ordered.1
    have size : byteLength (gap ++ lexeme) = byteLength gap + byteLength lexeme :=
      byteLength_append gap lexeme
    have blanks : Passes depth gap depth := by
      refine .of_unmarked (marks.gap (List.prefix_append _ _)
        (List.forall_mem_cons.2 ⟨Nat.le_refl _, ?_⟩))
      exact fun token mem => Nat.le_trans (Nat.le_add_right _ _) (above token mem)
    have here : Passes depth lexeme between := by
      refine written.passes spelt leads fun front rest whole head holes is hole among has => ?_
      refine outside (gap ++ front) (rest ++ after) (by simp [whole]) _ List.mem_cons_self head holes
        is hole among ?_
      rwa [byteLength_append, ← Nat.add_assoc]
    refine blanks.append (here.append (ih spelts balanced ?_ ?_))
    · intro front mark rest whole is
      have stands : gap ++ (lexeme ++ after) = (gap ++ lexeme ++ front) ++ mark :: rest := by
        simp [whole]
      obtain ⟨token, mem, has⟩ := marks _ mark rest stands is
      rw [byteLength_append, size, ← Nat.add_assoc, ← Nat.add_assoc] at has
      rcases List.mem_cons.1 mem with rfl | mem
      · exact absurd has.2 (by simp only [Token.span]; omega)
      · exact ⟨token, mem, has⟩
    · intro front rest whole token mem head holes is hole among has
      refine outside (gap ++ lexeme ++ front) rest (by simp [whole]) token
        (List.mem_cons_of_mem _ mem) head holes is hole among ?_
      rwa [byteLength_append, size, ← Nat.add_assoc, ← Nat.add_assoc]

/-- A text in the only interpolation of a template that holds nothing else. -/
def inTemplate (source : String) : String := "\x60$\x7b" ++ source ++ "\x7d\x60"

/-- The tokens of a template around a text, given those of the text. -/
def aroundTokens (source : String) (tokens : List Token) : List Token :=
  let stop := source.utf8ByteSize + 5
  [.mk (.template "" [.mk tokens ⟨3, 3 + source.utf8ByteSize⟩ ""]) ⟨0, stop⟩, .mk .eof ⟨stop, stop⟩]

theorem inTemplate_toList (source : String) :
    (inTemplate source).toList = '\x60' :: '$' :: '\x7b' :: (source.toList ++ ['\x7d', '\x60']) := by
  simp [inTemplate]

theorem Scan.next_backtick (pos : Nat) (rest : List Char) :
    next pos '\x60' rest = template pos rest := rfl

/-- What a text in a template is cut into, given how the template is read. -/
theorem lexFrom_inTemplate (source : String) :
    lexFrom 0 (inTemplate source).toList =
      let s := Scan.template 0 ('$' :: '\x7b' :: (source.toList ++ ['\x7d', '\x60']))
      let tail := lexFrom s.pos s.rest
      ⟨s.lexeme.tokens ⟨0, s.pos⟩ ++ tail.tokens, s.lexeme.errors ++ tail.errors⟩ := by
  rw [inTemplate_toList, lexFrom_cons, Scan.next_backtick]

theorem tokenize_inTemplate {source : String} {tokens : List Token}
    (h : tokenize source 3 = .ok tokens) (passes : Passes 0 source.toList 0) :
    tokenize (inTemplate source) 0 = .ok (aroundTokens source tokens) := by
  obtain ⟨clean, rfl⟩ := tokenize_eq_ok_iff.1 h
  have found : splitHole none 0 (source.toList ++ ['\x7d', '\x60']) = some (source.toList, ['\x60']) :=
    splitHole_eq_some_iff.2 ⟨rfl, passes⟩
  have whole := scanTemplate_hole 0 1 _ found
  have stop : 1 + 2 + source.utf8ByteSize + 1 + 1 = source.utf8ByteSize + 5 := by omega
  rw [scanTemplate_close, byteLength_toList, stop] at whole
  rw [tokenize_eq_ok_iff, lexFrom_inTemplate, Scan.template, whole]
  simp only [TemplateScan.openHole, lexFrom_nil]
  refine ⟨?_, ?_⟩
  · simp [Lexeme.errors, HoleText.errors, clean, LiteralText.nothing]
  · simp [Lexeme.tokens, HoleText.lexed, aroundTokens, LiteralText.nothing, byteLength_toList]

/-- Two texts of one length in front of one text are the same. -/
theorem eq_of_byteLength {first second more others : List Char}
    (same : first ++ more = second ++ others) (length : byteLength first = byteLength second) :
    first = second := by
  have zero (cs : List Char) (h : byteLength cs = 0) : cs = [] := by
    cases cs with
    | nil => rfl
    | cons c rest =>
      have := c.utf8Size_pos
      rw [byteLength] at h
      omega
  obtain ⟨left, rfl, -⟩ | ⟨left, rfl, -⟩ := List.append_eq_append_iff.1 same
  · rw [byteLength_append] at length
    rw [zero left (by omega), List.append_nil]
  · rw [byteLength_append] at length
    rw [zero left (by omega), List.append_nil]

theorem passes_of_tokenize {source : String} {tokens : List Token}
    (h : tokenize (inTemplate source) 0 = .ok (aroundTokens source tokens)) :
    Passes 0 source.toList 0 := by
  obtain ⟨clean, is⟩ := tokenize_eq_ok_iff.1 h
  rw [lexFrom_inTemplate, Scan.template] at clean is
  cases found : splitHole none 0 (source.toList ++ ['\x7d', '\x60']) with
  | none =>
    rw [scanTemplate_unclosed 0 1 _ found] at clean
    cases clean
  | some parts =>
    obtain ⟨inner, after⟩ := parts
    rw [scanTemplate_hole 0 1 _ found] at is
    simp only [TemplateScan.openHole, Lexeme.tokens, aroundTokens, List.map_cons, List.singleton_append,
      List.cons.injEq, Token.mk.injEq, TokenKind.template.injEq, HoleText.lexed, Hole.mk.injEq,
      Span.mk.injEq] at is
    obtain ⟨whole, passes⟩ := splitHole_eq_some_iff.1 found
    have length : byteLength source.toList = byteLength inner := by
      rw [byteLength_toList]
      omega
    rwa [eq_of_byteLength whole length]

/-- The only interpolation of a template, with a text whose braces are balanced, is cut as the text is
cut alone just when the text leads back to no open brace. It does so when no brace or quote is in a
comment, and no backtick in an interpolation inside of it. -/
theorem template_cut_iff {source : String} {tokens : List Token}
    (cut : tokenize source 3 = .ok tokens) (balanced : Balanced 0 tokens) :
    (tokenize (inTemplate source) 0 = .ok (aroundTokens source tokens) ↔
        Passes 0 source.toList 0) ∧
      (MarksInTokens 3 source.toList tokens → BackticksOutside 3 source.toList tokens →
        tokenize (inTemplate source) 0 = .ok (aroundTokens source tokens)) := by
  refine ⟨⟨passes_of_tokenize, tokenize_inTemplate cut⟩, fun marks outside => ?_⟩
  have spelt := lexFrom_isSpeltRight 3 source.toList
  rw [(tokenize_eq_ok_iff.1 cut).2] at spelt
  refine tokenize_inTemplate cut ((tiles_of_tokenize cut).1.passes (fun token mem => ?_) balanced marks
    outside)
  exact spelt token (allTokens_subset mem token.mem_all)

/-- Braces around an object, a comment, and a brace in the text of a template. -/
theorem object_cut_in_template :
    ∃ tokens, tokenize "f(\x7ba:b/*,*/\x7d,\x60\x7b$\x7by\x7d\x60)" 3 = .ok tokens ∧
      Balanced 0 tokens ∧
      tokenize (inTemplate "f(\x7ba:b/*,*/\x7d,\x60\x7b$\x7by\x7d\x60)") 0
        = .ok (aroundTokens "f(\x7ba:b/*,*/\x7d,\x60\x7b$\x7by\x7d\x60)" tokens) := by
  have cut : tokenize "f(\x7ba:b/*,*/\x7d,\x60\x7b$\x7by\x7d\x60)" 3 = .ok
      [.mk (.ident "f") ⟨3, 4⟩, .mk (.punctuation .leftParen) ⟨4, 5⟩,
        .mk (.punctuation .leftBrace) ⟨5, 6⟩, .mk (.ident "a") ⟨6, 7⟩,
        .mk (.punctuation .colon) ⟨7, 8⟩, .mk (.ident "b") ⟨8, 9⟩,
        .mk (.punctuation .rightBrace) ⟨14, 15⟩, .mk (.punctuation .comma) ⟨15, 16⟩,
        .mk (.template "\x7b" [.mk [.mk (.ident "y") ⟨20, 21⟩, .mk .eof ⟨21, 21⟩] ⟨20, 21⟩ ""])
          ⟨16, 23⟩,
        .mk (.punctuation .rightParen) ⟨23, 24⟩, .mk .eof ⟨24, 24⟩] := by cbv
  refine ⟨_, cut, by decide, (template_cut_iff cut (by decide)).1.2 ?_⟩
  have found : splitHole none 0 ("f(\x7ba:b/*,*/\x7d,\x60\x7b$\x7by\x7d\x60)".toList ++ ['\x7d'])
      = some ("f(\x7ba:b/*,*/\x7d,\x60\x7b$\x7by\x7d\x60)".toList, []) := by decide +kernel
  exact (splitHole_eq_some_iff.1 found).2

/-- A brace in a comment is taken for the end of the interpolation. -/
theorem comment_cut_short :
    tokenize "x/*\x7d*/" 3 = .ok [.mk (.ident "x") ⟨3, 4⟩, .mk .eof ⟨9, 9⟩] ∧
      Balanced 0 [.mk (.ident "x") ⟨3, 4⟩, .mk .eof ⟨9, 9⟩] ∧
      tokenize (inTemplate "x/*\x7d*/") 0 = .error [⟨.unterminatedComment, ⟨4, 6⟩⟩] := by
  refine ⟨?_, ?_, ?_⟩
  · cbv
  · decide
  · cbv

end ScriptToGo
