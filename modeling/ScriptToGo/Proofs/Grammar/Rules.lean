import ScriptToGo.Proofs.Grammar.Strength
import ScriptToGo.Proofs.Grammar.Places

/-! Where reading an expression comes to an end, and what it gives from what reading the parts gives:
one rule for each way to go on. -/
namespace ScriptToGo
open Grammar (castPrecedence)

namespace TokenKind

/-- How tightly a token holds on to an expression in front of it. A token that does not go on with
one has no grip. -/
def grip : TokenKind → Nat
  | punctuation .leftParen | punctuation .dot | punctuation .leftBracket => Expr.accessStrength
  | punctuation .question => Operator.assign.precedence + 1
  | keyword .asWord => castPrecedence
  | operator .bang => 0
  | operator op => op.precedence
  | _ => 0

variable {kind : TokenKind}

theorem grip_token {op : BinaryOp} : (operator op.token).grip = op.precedence := by
  cases op <;> rfl

theorem assignment?_eq_none (loose : kind.grip < Operator.assign.precedence) :
    kind.assignment? = none := by
  cases kind with
  | operator op => revert loose; cases op <;> decide
  | _ => rfl

theorem isQuestion_eq_none (loose : kind.grip ≤ Operator.assign.precedence) :
    isMark .question kind = none := by
  cases kind with
  | punctuation mark => revert loose; cases mark <;> decide
  | _ => rfl

theorem trailing?_eq_none (loose : kind.grip < Operator.increment.precedence) :
    kind.trailing? = none := by
  cases kind with
  | operator op => revert loose; cases op <;> decide
  | _ => rfl

theorem isMark_eq_none {mark : Punctuation} (loose : kind.grip < Expr.accessStrength)
    (opens : (punctuation mark).grip = Expr.accessStrength) : isMark mark kind = none := by
  cases kind with
  | punctuation other =>
    rw [isMark, if_neg]
    rintro rfl
    rw [opens] at loose
    exact absurd loose (Nat.lt_irrefl _)
  | _ => rfl

/-- A token either is looser than the operators that are read, or than all of them. -/
def LooserThan (least : Nat) (kind : TokenKind) : Prop :=
  kind.grip < least ∨ kind.grip ≤ Operator.assign.precedence + 1

theorem LooserThan.isAs {least : Nat} (loose : kind.LooserThan least)
    (weak : least ≤ castPrecedence) : isKeyword .asWord kind = none := by
  cases kind with
  | keyword word =>
    rw [isKeyword, if_neg]
    rintro rfl
    rcases loose with loose | loose
    · exact absurd (Nat.lt_of_lt_of_le loose weak) (Nat.lt_irrefl _)
    · exact absurd loose (by decide)
  | _ => rfl

theorem LooserThan.binary?_eq_none {least : Nat} (loose : kind.LooserThan least) :
    kind.binary? least = none := by
  cases is : kind.binary? least with
  | none => rfl
  | some op =>
    obtain ⟨rfl, other, tight⟩ := of_binary? is
    have strong : Operator.assign.precedence + 1 < op.precedence := by
      revert other; cases op <;> decide
    rcases loose with loose | loose
    · rw [grip_token] at loose
      omega
    · rw [grip_token] at loose
      omega

theorem leading?_token (op : UnaryOp) : (operator op.token).leading? = some op := by
  cases op <;> rfl

theorem trailing?_token {op : UnaryOp} (updates : op.isUpdate = true) :
    (operator op.token).trailing? = some op := by
  cases op <;> first | rfl | cases updates

theorem assignment?_token {op : BinaryOp} (assigns : op.isAssignment = true) :
    (operator op.token).assignment? = some op := by
  cases op <;> first | rfl | cases assigns

end TokenKind

namespace TokenKind

/-- Whether an expression may start with a token: with a word for a value, and with an operator that
may stand before an operand. -/
def opensExpression : TokenKind → Bool
  | keyword word => word.category == .literal
  | operator op => op.fixity != .between
  | ident _ | number _ | string _ | template .. | punctuation .leftParen | punctuation .leftBracket
  | punctuation .leftBrace => true
  | punctuation _ | eof => false

/-- The marks that an expression may start with are brackets. -/
theorem category_of_opensExpression {mark : Punctuation}
    (opens : (punctuation mark).opensExpression = true) : mark.category = .delimiter := by
  cases mark <;> first | rfl | cases opens

theorem leading?_of_not_opens {kind : TokenKind} (closed : kind.opensExpression = false) :
    kind.leading? = none := by
  cases kind with
  | operator op =>
    cases leads : UnaryOp.ofLeadingToken? op with
    | none => exact leads
    | some read =>
      have before := op.read_iff_fixity.2.1.1 (Option.isSome_of_eq_some leads)
      exact absurd closed (by rw [opensExpression]; simpa using before)
  | _ => rfl

end TokenKind

theorem Expr.WrittenBy.opens {e : Expr} {ts : List Token} (h : e.WrittenBy ts) :
    ∃ token rest, ts = token :: rest ∧ token.kind.opensExpression = true := by
  have front {ts us : List Token}
      (h : ∃ token rest, ts = token :: rest ∧ token.kind.opensExpression = true) :
      ∃ token rest, ts ++ us = token :: rest ∧ token.kind.opensExpression = true := by
    obtain ⟨token, rest, rfl, opens⟩ := h
    exact ⟨token, rest ++ us, rfl, opens⟩
  match h with
  | .array whole _ | .object whole _ | .paren whole _ | .trueWord whole | .falseWord whole
  | .null whole => exact ⟨_, _, whole, rfl⟩
  | .ident | .number | .string | .template _ => exact ⟨_, _, rfl, rfl⟩
  | @Expr.WrittenBy.leading op _ _ _ _ => exact ⟨_, _, rfl, by cases op <;> rfl⟩
  | .cast first _ | .binary first _ | .call first _ | .conditional first _ _ | .index first _
  | .trailing first | .member first => exact front first.opens

/-- A word that an expression starts with stands for a value, a mark is a bracket, and an operator may
stand before an operand. -/
theorem Expr.WrittenBy.starts_with {e : Expr} {s : Span} {rest : List Token} {kind : TokenKind}
    (h : e.WrittenBy (.mk kind s :: rest)) :
    (∀ word, kind = .keyword word → word.category = .literal) ∧
      (∀ mark, kind = .punctuation mark → mark.category = .delimiter) ∧
      ∀ op, kind = .operator op → op.fixity ≠ .between := by
  obtain ⟨_, _, whole, opens⟩ := h.opens
  obtain ⟨rfl, rfl⟩ := List.cons.inj whole
  refine ⟨?_, ?_, ?_⟩
  · rintro word rfl
    exact eq_of_beq opens
  · rintro mark rfl
    exact TokenKind.category_of_opensExpression opens
  · rintro op rfl
    exact bne_iff_ne.1 opens

namespace Cursor

variable {c : Cursor}

/-- How tightly what is next holds on to an expression in front of it. -/
def grip (c : Cursor) : Nat := c.peek.kind.grip

theorem Passes.grip_eq {next : Cursor} {kind : TokenKind} {s : Span} {more : List Token}
    (h : c.Passes (.mk kind s :: more) next) : c.grip = kind.grip := by
  rw [grip, h.peek]
  rfl

/-- A mark that opens no expression is not in front of one. -/
theorem Passes.mark?_eq_none {next : Cursor} {e : Expr} {ts : List Token} {mark : Punctuation}
    (h : c.Passes ts next) (written : e.WrittenBy ts)
    (other : (TokenKind.punctuation mark).opensExpression = false) : c.mark? mark = none := by
  obtain ⟨⟨kind, s⟩, rest, rfl, opens⟩ := written.opens
  apply take?_eq_none
  rw [h.peek]
  cases kind with
  | punctuation found =>
    refine if_neg ?_
    rintro rfl
    exact absurd opens (by rw [Token.kind, other]; decide)
  | _ => rfl

end Cursor

theorem TokenKind.propertyName?_wordKind (name : String) :
    (wordKind name).propertyName? = some name := by
  rw [wordKind]
  split
  next word found =>
    have spelled := List.find?_some found
    simp only [beq_iff_eq] at spelled
    rw [propertyName?, spelled]
  · rfl

namespace Grammar
open Cursor

variable {c mid start stop place next last : Cursor} {e value : Expr} {least : Nat} {span : Span}

theorem expression_conditional (read : (conditional c).Gives e next)
    (loose : next.grip < Operator.assign.precedence) : (expression c).Gives e next := by
  rw [expression]
  apply read.andMaybe
  intro _
  rw [take?_eq_none (TokenKind.assignment?_eq_none loose)]
  exact Reading.gives_stay e next

theorem expression_assignment {left right : Expr} {op : BinaryOp}
    (read : (conditional c).Gives left mid)
    (assigned : mid.Passes [.mk (.operator op.token) span] start)
    (assigns : op.isAssignment = true) (others : (expression start).Gives right next) :
    (expression c).Gives (.binary (left.span.cover right.span) left op span right) next := by
  rw [expression]
  apply read.andMaybe
  intro _
  obtain ⟨shorter, taken⟩ := assigned.take? (TokenKind.assignment?_token assigns)
  rw [taken]
  apply Reading.Gives.pastOptional
  exact others.map _

theorem conditional_operation (read : (binary 0 c).Gives e next)
    (loose : next.grip ≤ Operator.assign.precedence) : (conditional c).Gives e next := by
  rw [conditional]
  apply read.andMaybe
  intro _
  rw [mark?, take?_eq_none (TokenKind.isQuestion_eq_none loose)]
  exact Reading.gives_stay e next

theorem conditional_choice {condition whenTrue whenFalse : Expr} {colon : Span}
    (read : (binary 0 c).Gives condition mid)
    (asked : mid.Passes [.mk (.punctuation .question) span] start)
    (first : (expression start).Gives whenTrue stop)
    (coloned : stop.Passes [.mk (.punctuation .colon) colon] place)
    (second : (expression place).Gives whenFalse next) :
    (conditional c).Gives (.conditional (condition.span.cover whenFalse.span) condition whenTrue
      whenFalse) next := by
  rw [conditional]
  apply read.andMaybe
  intro _
  obtain ⟨shorter, taken⟩ := asked.mark?
  rw [taken]
  apply Reading.Gives.pastOptional
  apply first.andThen
  intro _
  apply coloned.expectMark.andThen
  intro _
  exact second.map _

theorem binary_operand (read : (unary c).Gives e mid)
    (others : (operators least e mid).Gives value last) : (binary least c).Gives value last := by
  rw [binary]
  exact read.andMaybe fun _ => others

theorem operators_stop (loose : c.peek.kind.LooserThan least) :
    (operators least e c).Gives e c := by
  have noCast : (if least ≤ castPrecedence then c.word? .asWord else none) = none := by
    split
    next weak => exact take?_eq_none (loose.isAs weak)
    · rfl
  rw [operators, noCast, take?_eq_none loose.binary?_eq_none]
  exact Reading.gives_stay e c

/-- The loop takes an operator that is tight enough, and its right operand. -/
theorem operators_step {left right : Expr} {op : BinaryOp}
    (taken : c.Passes [.mk (.operator op.token) span] mid) (other : op.isAssignment = false)
    (strong : least ≤ op.precedence) (read : (binary (op.precedence + 1) mid).Gives right next)
    (others : (operators least (.binary (left.span.cover right.span) left op span right)
      next).Gives value last) : (operators least left c).Gives value last := by
  have noCast : (if least ≤ castPrecedence then c.word? .asWord else none) = none := by
    split
    · apply take?_eq_none
      rw [taken.peek]
      rfl
    · rfl
  obtain ⟨shorter, found⟩ := taken.take? (TokenKind.binary?_token other strong)
  rw [operators, noCast, found]
  apply Reading.Gives.pastOptional
  exact read.andMaybe fun _ => others

theorem unary_leading {op : UnaryOp} (taken : c.Passes [.mk (.operator op.token) span] mid)
    (read : (unary mid).Gives e next) :
    (unary c).Gives (.leading (span.cover e.span) op span e) next := by
  obtain ⟨shorter, found⟩ := taken.take? (TokenKind.leading?_token op)
  rw [unary, found]
  apply Reading.Gives.past
  exact read.map _

theorem unary_access (notLeading : c.peek.kind.leading? = none) (read : (access c).Gives e mid)
    (others : (trailingOperators e mid).Gives value last) : (unary c).Gives value last := by
  rw [unary, take?_eq_none notLeading]
  exact read.andMaybe fun _ => others

theorem trailingOperators_stop (loose : c.grip < Operator.increment.precedence) :
    (trailingOperators e c).Gives e c := by
  rw [trailingOperators, take?_eq_none (TokenKind.trailing?_eq_none loose)]
  exact Reading.gives_stay e c

theorem trailingOperators_step {op : UnaryOp}
    (taken : c.Passes [.mk (.operator op.token) span] mid) (updates : op.isUpdate = true)
    (others : (trailingOperators (.trailing (e.span.cover span) e op span) mid).Gives value last) :
    (trailingOperators e c).Gives value last := by
  obtain ⟨shorter, found⟩ := taken.take? (TokenKind.trailing?_token updates)
  rw [trailingOperators, found]
  exact (others.weaken _).weaken _

theorem access_primary (read : (primary c).Gives e mid)
    (others : (accesses e mid).Gives value last) : (access c).Gives value last := by
  rw [access]
  exact read.andMaybe fun _ => others

theorem accesses_stop (loose : c.grip < Expr.accessStrength) : (accesses e c).Gives e c := by
  have none {mark : Punctuation}
      (opens : (TokenKind.punctuation mark).grip = Expr.accessStrength) : c.mark? mark = none :=
    take?_eq_none (TokenKind.isMark_eq_none loose opens)
  rw [accesses, none rfl, none rfl, none rfl]
  exact Reading.gives_stay e c

theorem accesses_call {args : List Expr}
    (opened : c.Passes [.mk (.punctuation .leftParen) span] mid)
    (read : (expressionList .rightParen "')' after arguments" mid).Gives args next)
    (others : (accesses (.call (e.span.cover next.last) e args) next).Gives value last) :
    (accesses e c).Gives value last := by
  obtain ⟨shorter, taken⟩ := opened.mark?
  rw [accesses, taken]
  apply Reading.Gives.pastOptional
  exact read.andMaybe fun _ => others

theorem accesses_member {name : String} {nameSpan : Span}
    (dotted : c.Passes [.mk (.punctuation .dot) span] mid)
    (named : mid.Passes [.mk (wordKind name) nameSpan] next)
    (others : (accesses (.member (e.span.cover nameSpan) e ⟨name, nameSpan⟩) next).Gives value
      last) : (accesses e c).Gives value last := by
  have noCall : c.mark? .leftParen = none := take?_eq_none (by rw [dotted.peek]; rfl)
  obtain ⟨shorter, taken⟩ := dotted.mark?
  rw [accesses, noCall, taken]
  apply Reading.Gives.pastOptional
  have read : (mid.expect TokenKind.propertyName? "property name after '.'").Gives
      (name, nameSpan) next := named.expect (TokenKind.propertyName?_wordKind name)
  exact read.andMaybe fun _ => others

theorem accesses_index {place : Expr} {closing : Span}
    (opened : c.Passes [.mk (.punctuation .leftBracket) span] mid)
    (read : (expression mid).Gives place stop)
    (closed : stop.Passes [.mk (.punctuation .rightBracket) closing] next)
    (others : (accesses (.index (e.span.cover closing) e place) next).Gives value last) :
    (accesses e c).Gives value last := by
  have noCall : c.mark? .leftParen = none := take?_eq_none (by rw [opened.peek]; rfl)
  have noMember : c.mark? .dot = none := take?_eq_none (by rw [opened.peek]; rfl)
  obtain ⟨shorter, taken⟩ := opened.mark?
  rw [accesses, noCall, noMember, taken]
  apply Reading.Gives.pastOptional
  apply read.andThen
  intro _
  apply closed.expectMark.andMaybe
  intro _
  rw [closed.last, lastSpan_cons]
  exact others

section

variable {close : Punctuation} {wanted : String} {list : List Expr}

theorem expressionList_nil (closed : c.Passes [.mk (.punctuation close) span] next) :
    (expressionList close wanted c).Gives [] next := by
  obtain ⟨shorter, taken⟩ := closed.mark?
  rw [expressionList, taken]
  exact ⟨_, rfl⟩

theorem expressionList_last (some : c.mark? close = none) (read : (expression c).Gives e mid)
    (closed : mid.Passes [.mk (.punctuation close) span] next)
    (noComma : TokenKind.isMark .comma (.punctuation close) = none) :
    (expressionList close wanted c).Gives [e] next := by
  rw [expressionList, some]
  apply read.andThen
  intro _
  rw [mark?, take?_eq_none (by rw [closed.peek]; exact noComma)]
  exact closed.expectMark.map _

theorem expressionList_cons (some : c.mark? close = none) (read : (expression c).Gives e mid)
    (comma : mid.Passes [.mk (.punctuation .comma) span] start)
    (others : (expressionList close wanted start).Gives list next) :
    (expressionList close wanted c).Gives (e :: list) next := by
  rw [expressionList, some]
  apply read.andThen
  intro _
  obtain ⟨shorter, taken⟩ := comma.mark?
  rw [taken]
  apply Reading.Gives.past
  exact others.map _

end

section

variable {list : List Property} {p : Property} {name : String} {nameSpan : Span}

theorem property_assign (named : c.Passes [.mk (.ident name) nameSpan] mid)
    (coloned : mid.Passes [.mk (.punctuation .colon) span] start)
    (read : (expression start).Gives e next) :
    (property c).Gives (.assign (next.spanFrom c.start) ⟨name, nameSpan⟩ e) next := by
  have noSpread : c.mark? .ellipsis = none := take?_eq_none (by rw [named.peek]; rfl)
  rw [property, noSpread]
  apply named.expectName.andMaybe
  intro _
  obtain ⟨shorter, taken⟩ := coloned.mark?
  rw [taken]
  apply Reading.Gives.pastOptional
  exact read.mapAt _

theorem property_shorthand (named : c.Passes [.mk (.ident name) nameSpan] next)
    (noColon : next.mark? .colon = none) :
    (property c).Gives (.shorthand (next.spanFrom c.start) ⟨name, nameSpan⟩) next := by
  have noSpread : c.mark? .ellipsis = none := take?_eq_none (by rw [named.peek]; rfl)
  rw [property, noSpread]
  apply named.expectName.andMaybe
  intro _
  rw [noColon]
  exact Reading.gives_stay _ next

theorem property_spread (dotted : c.Passes [.mk (.punctuation .ellipsis) span] mid)
    (read : (expression mid).Gives e next) :
    (property c).Gives (.spread (next.spanFrom c.start) e) next := by
  obtain ⟨shorter, taken⟩ := dotted.mark?
  rw [property, taken]
  apply Reading.Gives.past
  exact read.mapAt _

theorem properties_nil (closed : c.Passes [.mk (.punctuation .rightBrace) span] next) :
    (properties c).Gives [] next := by
  have here : c.atMark .rightBrace = true := by
    rw [atMark, closed.peek]
    rfl
  rw [properties, here, Bool.true_or, if_pos rfl]
  exact closed.expectMark.map _

theorem properties_last (some : (c.atMark .rightBrace || c.atEnd) = false)
    (read : (property c).Gives p mid)
    (closed : mid.Passes [.mk (.punctuation .rightBrace) span] next) :
    (properties c).Gives [p] next := by
  rw [properties, some, if_neg Bool.false_ne_true]
  apply read.andThen
  intro _
  rw [mark?, take?_eq_none (by rw [closed.peek]; rfl)]
  exact closed.expectMark.map _

theorem properties_cons (some : (c.atMark .rightBrace || c.atEnd) = false)
    (read : (property c).Gives p mid)
    (comma : mid.Passes [.mk (.punctuation .comma) span] start)
    (others : (properties start).Gives list next) : (properties c).Gives (p :: list) next := by
  rw [properties, some, if_neg Bool.false_ne_true]
  apply read.andThen
  intro _
  obtain ⟨shorter, taken⟩ := comma.mark?
  rw [taken]
  apply Reading.Gives.past
  exact others.map _

end

theorem primary_paren {opening closing : Span}
    (opened : c.Passes [.mk (.punctuation .leftParen) opening] mid)
    (read : (expression mid).Gives e stop)
    (closed : stop.Passes [.mk (.punctuation .rightParen) closing] next) :
    (primary c).Gives (.paren (next.spanFrom c.start) e) next := by
  obtain ⟨⟨_, _, _, size, shorter⟩, found, rfl, rfl, rfl⟩ := opened.next?
  rw [primary]
  simp only [found]
  apply Reading.Gives.past
  apply read.andThen
  intro _
  exact closed.expectMark.mapAt _

theorem primary_array {list : List Expr}
    (opened : c.Passes [.mk (.punctuation .leftBracket) span] mid)
    (read : (expressionList .rightBracket "']' after array elements" mid).Gives list next) :
    (primary c).Gives (.array (next.spanFrom c.start) list) next := by
  obtain ⟨⟨_, _, _, size, shorter⟩, found, rfl, rfl, rfl⟩ := opened.next?
  rw [primary]
  simp only [found]
  apply Reading.Gives.past
  exact read.mapAt _

theorem primary_object {list : List Property}
    (opened : c.Passes [.mk (.punctuation .leftBrace) span] mid)
    (read : (properties mid).Gives list next) :
    (primary c).Gives (.object (next.spanFrom c.start) list) next := by
  obtain ⟨⟨_, _, _, size, shorter⟩, found, rfl, rfl, rfl⟩ := opened.next?
  rw [primary]
  simp only [found]
  apply Reading.Gives.past
  exact read.mapAt _

theorem primary_holes {head : String} {holes : List Hole} {list : List TemplateHole}
    (passed : c.Passes [.mk (.template head holes) span] next)
    (read : interpolations holes = .ok list) :
    (primary c).Gives (.template (next.spanFrom c.start) head list) next := by
  obtain ⟨⟨_, _, _, size, shorter⟩, found, rfl, rfl, rfl⟩ := passed.next?
  rw [primary]
  simp only [found, read]
  exact ⟨_, rfl⟩

/-- The expression that a token writes by itself, but for templates. -/
def atom? (s : Span) : TokenKind → Option Expr
  | .number text => some (.number s text)
  | .string body => some (.string s body)
  | .ident name => some (.ident s name)
  | .keyword .trueWord => some (.boolean s true)
  | .keyword .falseWord => some (.boolean s false)
  | .keyword .nullWord => some (.null s)
  | _ => none

theorem primary_atom {kind : TokenKind} (passed : c.Passes [.mk kind span] next)
    (is : atom? (next.spanFrom c.start) kind = some e) : (primary c).Gives e next := by
  obtain ⟨⟨found, _, _, size, shorter⟩, taken, same, rfl, rfl⟩ := passed.next?
  obtain rfl : found = kind := same
  rw [primary, taken]
  cases found with
  | number | string | ident =>
    cases is
    exact ⟨_, rfl⟩
  | keyword word =>
    cases word <;> first | cases is; exact ⟨_, rfl⟩ | cases is
  | _ => cases is

/-- An interpolation is read to the end of its text. -/
theorem interpolations_cons {ts : List Token} {eof holeSpan : Span} {after : String}
    {holes : List Hole} {list : List TemplateHole}
    (read : ∀ c next : Cursor, c.Passes ts next → next.rest = [.mk .eof eof] →
      (expression c).Gives e next)
    (others : interpolations holes = .ok list) :
    interpolations (.mk (ts ++ [.mk .eof eof]) holeSpan after :: holes)
      = .ok (.mk e after :: list) := by
  have closed : endsInEof (ts ++ [.mk .eof eof]) = true := by
    rw [endsInEof, List.getLast?_concat]
    rfl
  obtain ⟨start, opened⟩ := exists_ofTokens? closed
  obtain ⟨next, passed, rest⟩ := exists_passes (rest_of_ofTokens? opened) (List.cons_ne_nil _ _)
  obtain ⟨_, given⟩ := read start next passed rest
  have atEnd : next.atEnd = true := by
    simp only [Cursor.atEnd, peek, rest]
    rfl
  rw [interpolations]
  split
  next none => rw [opened] at none; cases none
  next found =>
    obtain rfl := Option.some.inj (opened.symm.trans found)
    simp only [given, atEnd, others, if_true]

end Grammar

end ScriptToGo
