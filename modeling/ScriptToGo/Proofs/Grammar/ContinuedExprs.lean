import ScriptToGo.Grammar.Expr
import ScriptToGo.Proofs.Grammar.Continuation

/-! Types and expressions are read the same way wherever their tokens stand and whatever follows. -/
namespace ScriptToGo.Grammar
open Continuation Reading

theorem arraySuffixes_alike {w : Continuation} {c c' : Cursor} (inside : w.Inside c c') (start : Nat)
    (type : TypeExpr) :
    (arraySuffixes start type c).Alike (TypeExpr.shift w.distance) w.Inside
      (arraySuffixes (start + w.distance) (type.shift w.distance) c') := by
  rw [arraySuffixes.eq_def start, arraySuffixes.eq_def (start + w.distance)]
  rcases inside.ready.mark? .leftBracket rfl with
    ⟨missing, missing'⟩ | ⟨_, c₁, c₁', shorter, _, found, found', opened⟩
  · rw [missing, missing']
    exact .stay rfl inside
  rw [found, found']
  dsimp only
  rcases opened.ready.mark? .rightBracket rfl with
    ⟨missing, missing'⟩ | ⟨_, c₂, c₂', shorter₂, _, found, found', closed⟩
  · rw [missing, missing']
    exact .stay rfl inside
  · rw [found, found']
    apply Alike.pastOptional
    apply Alike.weaken
    rw [closed.spanFrom]
    exact arraySuffixes_alike closed start (.array (c₂.spanFrom start) type)
termination_by c.size

/-- Members end with a semicolon or a comma, whatever follows. -/
theorem separator_alike {w : Continuation} {c c' : Cursor} (inside : w.Inside c c') :
    ((c.mark? .semicolon).or (c.mark? .comma) = none ∧
        (c'.mark? .semicolon).or (c'.mark? .comma) = none) ∨
      ∃ span next next' shorter shorter',
        (c.mark? .semicolon).or (c.mark? .comma) = some ⟨(), span, next, shorter⟩ ∧
        (c'.mark? .semicolon).or (c'.mark? .comma)
          = some ⟨(), span.shift w.distance, next', shorter'⟩ ∧ w.Passed next next' := by
  rcases inside.ready.semicolon? with ⟨missing, missing'⟩ | ⟨span, next, next', s, s', found, found', passed⟩
  · rw [missing, missing', Option.none_or, Option.none_or]
    rcases inside.ready.mark? .comma rfl with missing | ⟨span, next, next', s, s', found, found', inside⟩
    · exact .inl missing
    · exact .inr ⟨span, next, next', s, s', found, found', inside.passed⟩
  · rw [found, found', Option.some_or, Option.some_or]
    exact .inr ⟨span, next, next', s, s', rfl, rfl, passed⟩

mutual

theorem typeExpr_alike {w : Continuation} {c c' : Cursor} (beside : w.Beside c c') :
    (typeExpr c).Alike (TypeExpr.shift w.distance) w.Inside (typeExpr c') := by
  refine beside.alike fun _ start => ?_
  rw [typeExpr.eq_def c, typeExpr.eq_def c', start]
  apply (primaryType_alike beside).andMaybe
  intro type _ _ _ _ inside
  exact arraySuffixes_alike inside _ type
termination_by 8 * c.size + 1

theorem primaryType_alike {w : Continuation} {c c' : Cursor} (beside : w.Beside c c') :
    (primaryType c).Alike (TypeExpr.shift w.distance) w.Inside (primaryType c') := by
  refine beside.alike fun _ start => ?_
  rcases beside.next? with ⟨atEnd, -⟩ | ⟨kind, _, c₁, c₁', _, _, shorter, _, found, found', -, inside⟩
  · exact ensures_of_atEnd atEnd _
  rw [primaryType.eq_def c, primaryType.eq_def c', start]
  rw [found, found']
  cases kind with
  | ident name =>
    have inside := inside (by simp)
    dsimp only [TokenKind.shift]
    rcases inside.ready.operator? .less with
      ⟨missing, missing'⟩ | ⟨_, c₂, c₂', shorter₂, _, found, found', less⟩
    · rw [missing, missing', inside.spanFrom]
      exact .ok rfl inside
    · rw [found, found']
      apply Alike.past
      apply Alike.past
      refine (typeArguments_alike less.beside).mapAt fun args _ _ inside => ?_
      rw [inside.spanFrom]
      rfl
  | string body | number text =>
    have inside := inside (by simp)
    refine Alike.ok ?_ inside
    rw [inside.spanFrom]
    rfl
  | operator op =>
    cases op with
    | minus =>
      have inside := inside (by simp)
      dsimp only [TokenKind.shift]
      rcases inside.beside.next? with
        ⟨-, missing⟩ | ⟨kind, _, c₂, c₂', _, _, shorter₂, _, found, found', -, number⟩
      · rw [missing]
        trivial
      rw [found, found']
      cases kind with
      | number text =>
        have inside := number (by simp)
        refine Alike.past (Alike.ok ?_ inside)
        rw [inside.spanFrom]
        rfl
      | _ => trivial
    | _ => trivial
  | keyword word =>
    cases word with
    | trueWord | falseWord | nullWord =>
      have inside := inside (by simp)
      refine Alike.ok ?_ inside
      rw [inside.spanFrom]
      rfl
    | _ => trivial
  | punctuation mark =>
    cases mark with
    | leftBrace =>
      apply Alike.past
      refine (members_alike (inside (by simp)).beside).mapAt fun list _ _ inside => ?_
      rw [inside.spanFrom]
      rfl
    | leftParen =>
      apply Alike.past
      refine (typeExpr_alike (inside (by simp)).beside).andThen fun inner _ _ _ _ inside => ?_
      refine (inside.beside.expectMark rfl).mapAt fun _ _ _ inside => ?_
      rw [inside.spanFrom, TypeExpr.withSpan_shift]
    | _ => trivial
  | _ => trivial
termination_by 8 * c.size

theorem typeArguments_alike {w : Continuation} {c c' : Cursor} (beside : w.Beside c c') :
    (typeArguments c).Alike (TypeExpr.shiftAll w.distance) w.Inside (typeArguments c') := by
  rw [typeArguments.eq_def c, typeArguments.eq_def c']
  refine (typeExpr_alike beside).andThen fun first c₁ c₁' _ _ inside => ?_
  rcases inside.ready.mark? .comma rfl with
    ⟨missing, missing'⟩ | ⟨_, c₂, c₂', shorter, _, found, found', comma⟩
  · rw [missing, missing']
    exact inside.beside.expectOperator.map fun _ => rfl
  · rw [found, found']
    apply Alike.past
    exact (typeArguments_alike comma.beside).map fun _ => rfl
termination_by 8 * c.size + 2

theorem members_alike {w : Continuation} {c c' : Cursor} (beside : w.Beside c c') :
    (members c).Alike (Member.shiftAll w.distance) w.Inside (members c') := by
  refine beside.alike fun ready _ => ?_
  rw [members.eq_def c, members.eq_def c', ready.atMark, ready.atEnd]
  split
  · exact (beside.expectMark rfl).map fun _ => rfl
  · refine beside.expectName.andThen fun name c₁ c₁' _ _ named => ?_
    have := c₁.skipMark_size .question
    have isOptional := named.ready.atMark .question
    dsimp only
    apply Alike.weaken
    have marked := (named.skipMark .question).2 rfl
    refine (marked.beside.expectMark rfl).andThen fun _ c₃ c₃' _ _ coloned => ?_
    refine (typeExpr_alike coloned.beside).andThen fun type c₄ c₄' _ _ typed => ?_
    have spanned : c₄'.spanFrom (name.shift w.distance).span.start
        = (c₄.spanFrom name.span.start).shift w.distance := typed.spanFrom _
    rw [spanned, isOptional]
    rcases separator_alike typed with ⟨missing, missing'⟩ | ⟨_, c₅, c₅', _, _, found, found', separated⟩
    · rw [missing, missing']
      exact (typed.beside.expectMark rfl).map fun _ => rfl
    · rw [found, found']
      apply Alike.past
      exact (members_alike separated.beside).map fun _ => rfl
termination_by 8 * c.size + 2

end

theorem trailingOperators_alike {w : Continuation} {c c' : Cursor} (inside : w.Inside c c')
    (operand : Expr) :
    (trailingOperators operand c).Alike (Expr.shift w.distance) w.Inside
      (trailingOperators (operand.shift w.distance) c') := by
  rw [trailingOperators.eq_def operand, trailingOperators.eq_def (operand.shift _)]
  rcases inside.ready.take? isTest_trailing with
    ⟨missing, missing'⟩ | ⟨op, opSpan, c₁, c₁', shorter, _, found, found', -, stepped⟩
  · rw [missing, missing']
    exact .stay rfl inside
  · rw [found, found']
    dsimp only
    rw [operand.span_shift, Span.cover_shift]
    apply Alike.loosen
    apply Alike.weaken
    exact trailingOperators_alike (stepped rfl)
      (.trailing (operand.span.cover opSpan) operand op opSpan)
termination_by c.size

/-- A template is read if each of its interpolations is read to its end. -/
theorem interpolations_eq_ok_iff {tokens : List Token} {span : Span} {after : String}
    {others : List Hole} {list : List TemplateHole} :
    interpolations (.mk tokens span after :: others) = .ok list ↔
      ∃ start value c rest, Cursor.ofTokens? tokens = some start ∧
        (expression start).Gives value c ∧ c.atEnd = true ∧ interpolations others = .ok rest ∧
        list = .mk value after :: rest := by
  rw [interpolations]
  constructor
  · intro read
    split at read
    · cases read
    next start opened =>
      split at read
      · cases read
      next value c _ given =>
        split at read
        next atEnd =>
          split at read
          next rest others =>
            exact ⟨start, value, c, rest, opened, ⟨_, given⟩, atEnd, others,
              (Except.ok.inj read).symm⟩
          · cases read
        · cases read
  · rintro ⟨start, value, c, rest, opened, ⟨_, given⟩, atEnd, others, rfl⟩
    split
    next none => cases opened.symm.trans none
    next found =>
      obtain rfl := Option.some.inj (opened.symm.trans found)
      simp only [given, atEnd, others, if_true]

mutual

theorem expression_alike {w : Continuation} {c c' : Cursor} (beside : w.Beside c c') :
    (expression c).Alike (Expr.shift w.distance) w.Inside (expression c') := by
  rw [expression.eq_def c, expression.eq_def c']
  refine (conditional_alike beside).andMaybe fun target c₁ c₁' _ _ inside => ?_
  rcases inside.ready.take? isTest_assignment with
    ⟨missing, missing'⟩ | ⟨op, opSpan, c₂, c₂', shorter, _, found, found', -, assigned⟩
  · rw [missing, missing']
    exact .stay rfl inside
  · rw [found, found']
    apply Alike.pastOptional
    refine (expression_alike (assigned rfl).beside).map fun value => ?_
    rw [target.span_shift, value.span_shift, Span.cover_shift]
    rfl
termination_by 16 * c.size + 6

theorem conditional_alike {w : Continuation} {c c' : Cursor} (beside : w.Beside c c') :
    (conditional c).Alike (Expr.shift w.distance) w.Inside (conditional c') := by
  rw [conditional.eq_def c, conditional.eq_def c']
  refine (binary_alike 0 beside).andMaybe fun condition c₁ c₁' _ _ inside => ?_
  rcases inside.ready.mark? .question rfl with
    ⟨missing, missing'⟩ | ⟨_, c₂, c₂', shorter, _, found, found', asked⟩
  · rw [missing, missing']
    exact .stay rfl inside
  · rw [found, found']
    apply Alike.pastOptional
    refine (expression_alike asked.beside).andThen fun whenTrue _ _ _ _ inside => ?_
    refine (inside.beside.expectMark rfl).andThen fun _ _ _ _ _ inside => ?_
    refine (expression_alike inside.beside).map fun whenFalse => ?_
    rw [condition.span_shift, whenFalse.span_shift, Span.cover_shift]
    rfl
termination_by 16 * c.size + 5

theorem binary_alike {w : Continuation} {c c' : Cursor} (least : Nat) (beside : w.Beside c c') :
    (binary least c).Alike (Expr.shift w.distance) w.Inside (binary least c') := by
  rw [binary.eq_def least c, binary.eq_def least c']
  exact (unary_alike beside).andMaybe fun left _ _ _ _ inside => operators_alike least inside left
termination_by 16 * c.size + 4

theorem operators_alike {w : Continuation} {c c' : Cursor} (least : Nat) (inside : w.Inside c c')
    (left : Expr) :
    (operators least left c).Alike (Expr.shift w.distance) w.Inside
      (operators least (left.shift w.distance) c') := by
  rw [operators.eq_def least left, operators.eq_def least (left.shift _)]
  have cast : ((if least ≤ castPrecedence then c.word? .asWord else none) = none ∧
        (if least ≤ castPrecedence then c'.word? .asWord else none) = none) ∨
      ∃ span next next' shorter shorter',
        (if least ≤ castPrecedence then c.word? .asWord else none) = some ⟨(), span, next, shorter⟩ ∧
        (if least ≤ castPrecedence then c'.word? .asWord else none)
          = some ⟨(), span.shift w.distance, next', shorter'⟩ ∧ w.Inside next next' := by
    split
    · exact inside.ready.word? .asWord
    · exact .inl ⟨rfl, rfl⟩
  rcases cast with ⟨missing, missing'⟩ | ⟨_, c₁, c₁', shorter, _, found, found', cast⟩
  · rw [missing, missing']
    dsimp only
    rcases inside.ready.take? (isTest_binary least) with
      ⟨missing, missing'⟩ | ⟨op, opSpan, c₁, c₁', shorter, _, found, found', -, joined⟩
    · rw [missing, missing']
      exact .stay rfl inside
    · rw [found, found']
      apply Alike.pastOptional
      refine (binary_alike _ (joined rfl).beside).andMaybe fun right _ _ _ _ inside => ?_
      rw [left.span_shift, right.span_shift, Span.cover_shift]
      exact operators_alike least inside (.binary (left.span.cover right.span) left op opSpan right)
  · rw [found, found']
    apply Alike.pastOptional
    refine (typeExpr_alike cast.beside).andMaybe fun type _ _ _ _ inside => ?_
    rw [left.span_shift, type.span_shift, Span.cover_shift]
    exact operators_alike least inside (.cast (left.span.cover type.span) left type)
termination_by 16 * c.size + 4

theorem unary_alike {w : Continuation} {c c' : Cursor} (beside : w.Beside c c') :
    (unary c).Alike (Expr.shift w.distance) w.Inside (unary c') := by
  refine beside.alike fun ready _ => ?_
  rw [unary.eq_def c, unary.eq_def c']
  rcases ready.take? isTest_leading with
    ⟨missing, missing'⟩ | ⟨op, opSpan, c₁, c₁', shorter, _, found, found', -, led⟩
  · rw [missing, missing']
    exact (access_alike beside).andMaybe fun operand _ _ _ _ inside =>
      trailingOperators_alike inside operand
  · rw [found, found']
    apply Alike.past
    refine (unary_alike (led rfl).beside).map fun operand => ?_
    rw [operand.span_shift, Span.cover_shift]
    rfl
termination_by 16 * c.size + 3

theorem access_alike {w : Continuation} {c c' : Cursor} (beside : w.Beside c c') :
    (access c).Alike (Expr.shift w.distance) w.Inside (access c') := by
  rw [access.eq_def c, access.eq_def c']
  exact (primary_alike beside).andMaybe fun first _ _ _ _ inside => accesses_alike inside first
termination_by 16 * c.size + 1

theorem accesses_alike {w : Continuation} {c c' : Cursor} (inside : w.Inside c c') (target : Expr) :
    (accesses target c).Alike (Expr.shift w.distance) w.Inside
      (accesses (target.shift w.distance) c') := by
  rw [accesses.eq_def target, accesses.eq_def (target.shift _)]
  rcases inside.ready.mark? .leftParen rfl with
    ⟨missing, missing'⟩ | ⟨_, c₁, c₁', shorter, _, found, found', opened⟩
  case inr =>
    rw [found, found']
    apply Alike.pastOptional
    refine (expressionList_alike opened.beside rfl).andMaybe fun args c₂ c₂' _ _ inside => ?_
    rw [target.span_shift, inside.last, Span.cover_shift]
    exact accesses_alike inside (.call (target.span.cover c₂.last) target args)
  rw [missing, missing']
  dsimp only
  rcases inside.ready.mark? .dot rfl with
    ⟨missing, missing'⟩ | ⟨_, c₁, c₁', shorter, _, found, found', dotted⟩
  case inr =>
    rw [found, found']
    apply Alike.pastOptional
    refine (dotted.beside.expect isTest_propertyName rfl _).andMaybe fun (text, span) _ _ _ _ inside => ?_
    rw [target.span_shift]
    have covered := Span.cover_shift w.distance target.span span
    have others := accesses_alike inside (.member (target.span.cover span) target ⟨text, span⟩)
    rwa [Expr.shift, ← covered] at others
  rw [missing, missing']
  dsimp only
  rcases inside.ready.mark? .leftBracket rfl with
    ⟨missing, missing'⟩ | ⟨_, c₁, c₁', shorter, _, found, found', opened⟩
  case inr =>
    rw [found, found']
    apply Alike.pastOptional
    refine (expression_alike opened.beside).andThen fun index _ _ _ _ inside => ?_
    refine (inside.beside.expectMark rfl).andMaybe fun _ c₃ c₃' _ _ closed => ?_
    rw [target.span_shift, closed.last, Span.cover_shift]
    exact accesses_alike closed (.index (target.span.cover c₃.last) target index)
  rw [missing, missing']
  exact .stay rfl inside
termination_by 16 * c.size + 1

theorem expressionList_alike {w : Continuation} {c c' : Cursor} {close : Punctuation}
    {wanted : String} (beside : w.Beside c c')
    (other : TokenKind.isMark close (.punctuation .semicolon) = none) :
    (expressionList close wanted c).Alike (Expr.shiftAll w.distance) w.Inside
      (expressionList close wanted c') := by
  refine beside.alike fun ready _ => ?_
  rw [expressionList.eq_def close wanted c, expressionList.eq_def close wanted c']
  rcases ready.mark? close other with ⟨missing, missing'⟩ | ⟨_, _, _, _, _, found, found', closed⟩
  case inr =>
    rw [found, found']
    exact .ok rfl closed
  rw [missing, missing']
  refine (expression_alike beside).andThen fun first c₁ c₁' _ _ inside => ?_
  rcases inside.ready.mark? .comma rfl with
    ⟨missing, missing'⟩ | ⟨_, c₂, c₂', shorter, _, found, found', comma⟩
  · rw [missing, missing']
    exact (inside.beside.expectMark other).map fun _ => rfl
  · rw [found, found']
    apply Alike.past
    exact (expressionList_alike comma.beside other).map fun _ => rfl
termination_by 16 * c.size + 7

theorem primary_alike {w : Continuation} {c c' : Cursor} (beside : w.Beside c c') :
    (primary c).Alike (Expr.shift w.distance) w.Inside (primary c') := by
  refine beside.alike fun _ start => ?_
  rcases beside.next? with ⟨atEnd, -⟩ | ⟨kind, _, c₁, c₁', size, _, shorter, _, found, found', -, inside⟩
  · exact ensures_of_atEnd atEnd _
  rw [primary.eq_def c, primary.eq_def c', start]
  rw [found, found']
  cases kind with
  | number text | string body | ident name =>
    have inside := inside (by simp)
    refine Alike.ok ?_ inside
    rw [inside.spanFrom]
    rfl
  | keyword word =>
    cases word with
    | trueWord | falseWord | nullWord =>
      have inside := inside (by simp)
      refine Alike.ok ?_ inside
      rw [inside.spanFrom]
      rfl
    | _ => trivial
  | template head holes =>
    have inside := inside (by simp)
    have fewer : holesWeight holes < c.size := by
      simp only [TokenKind.weight] at size
      omega
    dsimp only [TokenKind.shift]
    cases read : interpolations holes with
    | error error => trivial
    | ok list =>
      rw [interpolations_alike w.distance read, inside.spanFrom]
      exact .ok rfl inside
  | punctuation mark =>
    cases mark with
    | leftParen =>
      apply Alike.past
      refine (expression_alike (inside (by simp)).beside).andThen fun inner _ _ _ _ inside => ?_
      refine (inside.beside.expectMark rfl).mapAt fun _ _ _ inside => ?_
      rw [inside.spanFrom]
      rfl
    | leftBracket =>
      apply Alike.past
      refine (expressionList_alike (inside (by simp)).beside rfl).mapAt fun _ _ _ inside => ?_
      rw [inside.spanFrom]
      rfl
    | leftBrace =>
      apply Alike.past
      refine (properties_alike (inside (by simp)).beside).mapAt fun _ _ _ inside => ?_
      rw [inside.spanFrom]
      rfl
    | _ => trivial
  | _ => trivial
termination_by 16 * c.size

theorem property_alike {w : Continuation} {c c' : Cursor} (beside : w.Beside c c') :
    (property c).Alike (Property.shift w.distance) w.Inside (property c') := by
  refine beside.alike fun ready start => ?_
  rw [property.eq_def c, property.eq_def c', start]
  rcases ready.mark? .ellipsis rfl with ⟨missing, missing'⟩ | ⟨_, c₁, c₁', shorter, _, found, found', dotted⟩
  case inr =>
    rw [found, found']
    apply Alike.past
    refine (expression_alike dotted.beside).mapAt fun _ _ _ inside => ?_
    rw [inside.spanFrom]
    rfl
  rw [missing, missing']
  refine beside.expectName.andMaybe fun name c₁ c₁' _ _ inside => ?_
  rcases inside.ready.mark? .colon rfl with
    ⟨missing, missing'⟩ | ⟨_, c₂, c₂', shorter, _, found, found', coloned⟩
  · rw [missing, missing', inside.spanFrom]
    exact .stay rfl inside
  · rw [found, found']
    apply Alike.pastOptional
    refine (expression_alike coloned.beside).mapAt fun _ _ _ inside => ?_
    rw [inside.spanFrom]
    rfl
termination_by 16 * c.size

theorem properties_alike {w : Continuation} {c c' : Cursor} (beside : w.Beside c c') :
    (properties c).Alike (Property.shiftAll w.distance) w.Inside (properties c') := by
  refine beside.alike fun ready _ => ?_
  rw [properties.eq_def c, properties.eq_def c', ready.atMark, ready.atEnd]
  split
  · exact (beside.expectMark rfl).map fun _ => rfl
  refine (property_alike beside).andThen fun first c₁ c₁' _ _ inside => ?_
  rcases inside.ready.mark? .comma rfl with
    ⟨missing, missing'⟩ | ⟨_, c₂, c₂', shorter, _, found, found', comma⟩
  · rw [missing, missing']
    exact (inside.beside.expectMark rfl).map fun _ => rfl
  · rw [found, found']
    apply Alike.past
    exact (properties_alike comma.beside).map fun _ => rfl
termination_by 16 * c.size + 1

/-- Interpolations end where their own tokens do, which move along with the template. -/
theorem interpolations_alike {holes : List Hole} {list : List TemplateHole} (distance : Nat)
    (read : interpolations holes = .ok list) :
    interpolations (Hole.shiftAll distance holes) = .ok (TemplateHole.shiftAll distance list) := by
  match holes with
  | [] =>
    rw [interpolations] at read
    cases read
    rw [Hole.shiftAll, interpolations]
    rfl
  | .mk tokens span after :: others =>
    obtain ⟨start, value, c, rest, opened, given, atEnd, others_read, rfl⟩ :=
      interpolations_eq_ok_iff.1 read
    have size := Cursor.size_ofTokens? opened
    have weight : holesWeight (.mk tokens span after :: others)
        = tokensWeight tokens + 1 + holesWeight others := rfl
    obtain ⟨start', opened', moved⟩ := exists_moved opened distance
    obtain ⟨stop, beside⟩ := exists_alone moved
    obtain ⟨c', given', inside⟩ := (expression_alike beside).of_gives given
    rw [Hole.shiftAll, Hole.shift, Token.shiftAll_eq_map]
    exact interpolations_eq_ok_iff.2 ⟨start', _, c', _, opened', given',
      inside.ready.atEnd.trans atEnd, interpolations_alike distance others_read, rfl⟩
termination_by 16 * holesWeight holes

end

end ScriptToGo.Grammar
