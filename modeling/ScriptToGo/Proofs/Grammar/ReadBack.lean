import ScriptToGo.Grammar.Program
import ScriptToGo.Proofs.Program.Bare

/-! Each expression has tokens that write it, and is known from each of its writings. -/
namespace ScriptToGo

/-- An expression is written by these tokens, wherever they stand. -/
def Expr.WrittenAs (e : Expr) (ts : List Token) : Prop :=
  ∃ placed : Expr, placed.bare = e.bare ∧ placed.WrittenBy ts

mutual

/-- Every expression without a given type can be written. All its tokens are put at the start of
the text here. -/
theorem Expr.exists_writtenAs (e : Expr) (free : e.CastFree) : ∃ ts, e.WrittenAs ts := by
  cases e with
  | array _ elements =>
    obtain ⟨ts, placed, same, written⟩ := Expr.exists_listWrittenBy elements free
    refine ⟨.mk (.punctuation .leftBracket) .zero ::
      (ts ++ [.mk (.punctuation .rightBracket) .zero]), _, ?_, .array rfl written⟩
    rw [Expr.bare, Expr.bare, same]
  | cast => exact free.elim
  | binary _ left op _ right =>
    obtain ⟨ts, first, same, written⟩ := left.exists_writtenAs free.1
    obtain ⟨us, second, same', written'⟩ := right.exists_writtenAs free.2
    refine ⟨ts ++ .mk (.operator op.token) .zero :: us, _, ?_, .binary written written'⟩
    rw [Expr.bare, Expr.bare, same, same']
  | call _ callee args =>
    obtain ⟨ts, first, same, written⟩ := callee.exists_writtenAs free.1
    obtain ⟨us, others, same', written'⟩ := Expr.exists_listWrittenBy args free.2
    refine ⟨ts ++ .mk (.punctuation .leftParen) .zero ::
      (us ++ [.mk (.punctuation .rightParen) .zero]), _, ?_, .call written written'⟩
    rw [Expr.bare, Expr.bare, same, same']
  | conditional _ condition whenTrue whenFalse =>
    obtain ⟨ts, first, same, written⟩ := condition.exists_writtenAs free.1
    obtain ⟨us, second, same', written'⟩ := whenTrue.exists_writtenAs free.2.1
    obtain ⟨vs, third, same'', written''⟩ := whenFalse.exists_writtenAs free.2.2
    refine ⟨ts ++ .mk (.punctuation .question) .zero ::
      (us ++ .mk (.punctuation .colon) .zero :: vs), _, ?_,
      .conditional written written' written''⟩
    rw [Expr.bare, Expr.bare, same, same', same'']
  | index _ object index =>
    obtain ⟨ts, first, same, written⟩ := object.exists_writtenAs free.1
    obtain ⟨us, second, same', written'⟩ := index.exists_writtenAs free.2
    refine ⟨ts ++ .mk (.punctuation .leftBracket) .zero ::
      (us ++ [.mk (.punctuation .rightBracket) .zero]), _, ?_, .index written written'⟩
    rw [Expr.bare, Expr.bare, same, same']
  | ident _ name =>
    refine ⟨[.mk (.ident name) .zero], _, ?_, .ident⟩
    rfl
  | number _ text =>
    refine ⟨[.mk (.number text) .zero], _, ?_, .number⟩
    rfl
  | object _ properties =>
    obtain ⟨ts, placed, same, written⟩ := Property.exists_listWrittenBy properties free
    refine ⟨.mk (.punctuation .leftBrace) .zero ::
      (ts ++ [.mk (.punctuation .rightBrace) .zero]), _, ?_, .object rfl written⟩
    rw [Expr.bare, Expr.bare, same]
  | paren _ inner =>
    obtain ⟨ts, placed, same, written⟩ := inner.exists_writtenAs free
    refine ⟨.mk (.punctuation .leftParen) .zero ::
      (ts ++ [.mk (.punctuation .rightParen) .zero]), _, ?_, .paren rfl written⟩
    rw [Expr.bare, Expr.bare, same]
  | leading _ op _ operand =>
    obtain ⟨ts, placed, same, written⟩ := operand.exists_writtenAs free
    refine ⟨.mk (.operator op.token) .zero :: ts, _, ?_, .leading written⟩
    rw [Expr.bare, Expr.bare, same]
  | trailing _ operand op _ =>
    obtain ⟨ts, placed, same, written⟩ := operand.exists_writtenAs free
    refine ⟨ts ++ [.mk (.operator op.token) .zero], _, ?_, .trailing written⟩
    rw [Expr.bare, Expr.bare, same]
  | member _ object property =>
    obtain ⟨ts, placed, same, written⟩ := object.exists_writtenAs free
    refine ⟨ts ++ [.mk (.punctuation .dot) .zero, .mk (wordKind property.text) .zero], _, ?_,
      .member written⟩
    rw [Expr.bare, Expr.bare, same]
    rfl
  | string _ body =>
    refine ⟨[.mk (.string body) .zero], _, ?_, .string⟩
    rfl
  | template _ head list =>
    obtain ⟨holes, placed, same, written⟩ := TemplateHole.exists_listWrittenBy list free
    refine ⟨[.mk (.template head holes) .zero], _, ?_, .template written⟩
    rw [Expr.bare, Expr.bare, same]
  | boolean _ value =>
    cases value with
    | true =>
      refine ⟨[.mk (.keyword .trueWord) .zero], _, ?_, .trueWord rfl⟩
      rfl
    | false =>
      refine ⟨[.mk (.keyword .falseWord) .zero], _, ?_, .falseWord rfl⟩
      rfl
  | null =>
    refine ⟨[.mk (.keyword .nullWord) .zero], _, ?_, .null rfl⟩
    rfl

theorem Expr.exists_listWrittenBy (list : List Expr) (free : Expr.AllCastFree list) :
    ∃ ts placed, Expr.allBare placed = Expr.allBare list ∧ Expr.ListWrittenBy placed ts := by
  cases list with
  | nil => exact ⟨[], [], rfl, .nil⟩
  | cons e rest =>
    obtain ⟨ts, first, same, written⟩ := e.exists_writtenAs free.1
    obtain ⟨us, others, same', written'⟩ := Expr.exists_listWrittenBy rest free.2
    refine ⟨ts ++ .mk (.punctuation .comma) .zero :: us, _, ?_, .cons written written'⟩
    rw [Expr.allBare, Expr.allBare, same, same']

theorem Property.exists_listWrittenBy (list : List Property) (free : Property.AllCastFree list) :
    ∃ ts placed, Property.allBare placed = Property.allBare list ∧
      Property.ListWrittenBy placed ts := by
  match list with
  | [] => exact ⟨[], [], rfl, .nil⟩
  | .assign _ name value :: rest =>
    obtain ⟨ts, first, same, written⟩ := value.exists_writtenAs free.1
    obtain ⟨us, others, same', written'⟩ := Property.exists_listWrittenBy rest free.2
    refine ⟨.mk (.ident name.text) .zero :: .mk (.punctuation .colon) .zero :: ts ++
      .mk (.punctuation .comma) .zero :: us, _, ?_, .cons (.assign rfl written) written'⟩
    rw [Property.allBare, Property.allBare, same, same']
    rfl
  | .shorthand _ name :: rest =>
    obtain ⟨us, others, same', written'⟩ := Property.exists_listWrittenBy rest free
    refine ⟨[.mk (.ident name.text) .zero] ++ .mk (.punctuation .comma) .zero :: us, _, ?_,
      .cons .shorthand written'⟩
    rw [Property.allBare, Property.allBare, same']
    rfl
  | .spread _ value :: rest =>
    obtain ⟨ts, first, same, written⟩ := value.exists_writtenAs free.1
    obtain ⟨us, others, same', written'⟩ := Property.exists_listWrittenBy rest free.2
    refine ⟨.mk (.punctuation .ellipsis) .zero :: ts ++ .mk (.punctuation .comma) .zero :: us, _, ?_,
      .cons (.spread rfl written) written'⟩
    rw [Property.allBare, Property.allBare, same, same']

theorem TemplateHole.exists_listWrittenBy (list : List TemplateHole)
    (free : TemplateHole.AllCastFree list) :
    ∃ holes placed, TemplateHole.allBare placed = TemplateHole.allBare list ∧
      TemplateHole.ListWrittenBy placed holes := by
  match list with
  | [] => exact ⟨[], [], rfl, .nil⟩
  | .mk value after :: rest =>
    obtain ⟨ts, first, same, written⟩ := value.exists_writtenAs free.1
    obtain ⟨holes, others, same', written'⟩ := TemplateHole.exists_listWrittenBy rest free.2
    refine ⟨.mk (ts ++ [.mk .eof .zero]) .zero after :: holes, _, ?_, .cons written written'⟩
    rw [TemplateHole.allBare, TemplateHole.allBare, same, same']

end

namespace Grammar
open Cursor

variable {c mid start next : Cursor} {span : Span}

theorem optionalType_none (noColon : c.mark? .colon = none) : (optionalType c).Gives none c := by
  rw [optionalType, noColon]
  exact Reading.gives_stay none c

theorem optionalValue_some {e : Expr} (assigned : c.Passes [.mk (.operator .assign) span] mid)
    (read : (expression mid).Gives e next) : (optionalValue c).Gives (some e) next := by
  obtain ⟨shorter, taken⟩ := assigned.operator?
  rw [optionalValue, taken]
  apply Reading.Gives.pastOptional
  exact read.map _

theorem declarators_last {name : String} {nameSpan : Span} {type? : Option TypeExpr}
    {initializer? : Option Expr} (named : c.Passes [.mk (.ident name) nameSpan] mid)
    (typed : (optionalType mid).Gives type? start)
    (valued : (optionalValue start).Gives initializer? next) (noComma : next.mark? .comma = none) :
    (declarators c).Gives
      [⟨next.spanFrom nameSpan.start, ⟨name, nameSpan⟩, type?, initializer?⟩] next := by
  rw [declarators]
  apply named.expectName.andMaybe
  intro _
  apply typed.andMaybe
  intro _
  apply valued.andMaybe
  intro _
  rw [noComma]
  exact Reading.gives_stay _ next

theorem statement_variables {word : Keyword} {keyword : VariableKeyword} {list : List Declarator}
    (is : variableKeyword? (.keyword word) = some keyword)
    (opened : c.Passes [.mk (.keyword word) span] mid) (read : (declarators mid).Gives list start)
    (closed : start.skipMark .semicolon = next) :
    (statement c).Gives (.«variables» (next.spanFrom c.start) ⟨keyword, list⟩) next := by
  obtain ⟨shorter, taken⟩ := opened.take? is
  obtain ⟨⟨kind, _, _, size, _⟩, found, same, rfl, rfl⟩ := opened.next?
  obtain rfl : kind = .keyword word := same
  obtain ⟨_, given⟩ := read
  subst closed
  rw [statement]
  cases word <;> cases is <;> simp only [found, taken, given] <;> exact ⟨_, rfl⟩

/-- A statement that takes all tokens but the end of the text is the whole program. -/
theorem program_one {s : Statement} (some : c.atEnd = false) (read : (statement c).Gives s next)
    (ends : next.atEnd = true) : program c = ⟨[s], []⟩ := by
  obtain ⟨_, given⟩ := read
  rw [program, some, if_neg Bool.false_ne_true]
  simp only [given]
  rw [program, ends, if_pos rfl]

end Grammar

/-- The tokens of a variable and its first value, up to the end of the text. The ranges are those of
the tokens around the value. -/
def initialization (name : String) (word nameSpan equals semicolon eof : Span) (value : List Token) :
    List Token :=
  .mk (.keyword .letWord) word :: .mk (.ident name) nameSpan :: .mk (.operator .assign) equals ::
    (value ++ [.mk (.punctuation .semicolon) semicolon, .mk .eof eof])

theorem Program.ofTokens_initialization {e : Expr} {ts : List Token} (written : e.WrittenBy ts)
    (free : e.CastFree) (leveled : e.Leveled) (name : String)
    (word nameSpan equals semicolon eof : Span) : ∃ span declared,
    ofTokens (initialization name word nameSpan equals semicolon eof ts) = .ok
      [.«variables» span ⟨.letWord, [⟨declared, ⟨name, nameSpan⟩, none, some e⟩]⟩] := by
  have split : initialization name word nameSpan equals semicolon eof ts =
      (.mk (.keyword .letWord) word :: .mk (.ident name) nameSpan :: .mk (.operator .assign) equals ::
        (ts ++ [.mk (.punctuation .semicolon) semicolon])) ++ [.mk .eof eof] := by
    simp [initialization]
  have closed : endsInEof (initialization name word nameSpan equals semicolon eof ts) = true := by
    rw [endsInEof, split, List.getLast?_concat]
    rfl
  obtain ⟨c, opened⟩ := Cursor.exists_ofTokens? closed
  have whole := (Cursor.rest_of_ofTokens? opened).trans split
  obtain ⟨last, passed, left⟩ := Cursor.exists_passes whole (List.cons_ne_nil _ _)
  have some : c.atEnd = false := by rw [Cursor.atEnd, passed.peek]; rfl
  have ends : last.atEnd = true := by simp only [Cursor.atEnd, Cursor.peek, left]; rfl
  obtain ⟨c₁, keyword, passed⟩ := passed.cons
  obtain ⟨c₂, named, passed⟩ := passed.cons
  obtain ⟨c₃, assigned, passed⟩ := passed.cons
  obtain ⟨c₄, valued, semicolon⟩ := passed.split
  have loose : c₄.grip < Operator.assign.precedence := by rw [semicolon.grip_eq]; decide
  have noColon : c₂.mark? .colon = none := Cursor.take?_eq_none (by rw [assigned.peek]; rfl)
  have noComma : c₄.mark? .comma = none := Cursor.take?_eq_none (by rw [semicolon.peek]; rfl)
  have value := Grammar.expression_gives written free leveled valued loose
  have declared := Grammar.declarators_last named (Grammar.optionalType_none noColon)
    (Grammar.optionalValue_some assigned value) noComma
  have read := Grammar.statement_variables rfl keyword declared semicolon.skipMark_eq
  exact ⟨_, _, ofTokens_eq_ok_iff.2 ⟨c, opened, Grammar.program_one some read ends⟩⟩

/-- What is said of an expression aside from places is said of each expression like it. -/
theorem Expr.WrittenAs.exists_placed {e : Expr} {ts : List Token} (h : e.WrittenAs ts)
    (free : e.CastFree) (leveled : e.Leveled) : ∃ placed : Expr, placed.bare = e.bare ∧
      placed.WrittenBy ts ∧ placed.CastFree ∧ placed.Leveled := by
  obtain ⟨placed, same, written⟩ := h
  refine ⟨placed, same, written, ?_, ?_⟩
  · rwa [← castFree_bare, same, castFree_bare]
  · rwa [← leveled_bare, same, leveled_bare]

/-- Reading undoes writing. An expression that keeps to the table of operators can be written, each
of its writings is read as it, but for the places, and no other expression is written so. -/
theorem Expr.reading_undoes_writing (e : Expr) (free : e.CastFree) (leveled : e.Leveled) :
    (∃ ts, e.WrittenAs ts) ∧
    (∀ ts, e.WrittenAs ts → ∀ name word nameSpan equals semicolon eof,
      ∃ span declared value, value.bare = e.bare ∧
        Program.ofTokens (initialization name word nameSpan equals semicolon eof ts) = .ok
          [.«variables» span ⟨.letWord, [⟨declared, ⟨name, nameSpan⟩, none, some value⟩]⟩]) ∧
    ∀ (ts : List Token) (other : Expr), e.WrittenAs ts → other.WrittenAs ts → other.CastFree →
      other.Leveled → other.bare = e.bare := by
  refine ⟨e.exists_writtenAs free, ?_, ?_⟩
  · intro ts writtenAs name word nameSpan equals semicolon eof
    obtain ⟨placed, same, written, free, leveled⟩ := writtenAs.exists_placed free leveled
    obtain ⟨span, declared, read⟩ :=
      Program.ofTokens_initialization written free leveled name word nameSpan equals semicolon eof
    exact ⟨span, declared, placed, same, read⟩
  · intro ts other writtenAs otherWrittenAs otherFree otherLeveled
    obtain ⟨first, same, written, free, leveled⟩ := writtenAs.exists_placed free leveled
    obtain ⟨second, same', written', free', leveled'⟩ :=
      otherWrittenAs.exists_placed otherFree otherLeveled
    obtain ⟨_, _, read⟩ :=
      Program.ofTokens_initialization written free leveled "x" .zero .zero .zero .zero .zero
    obtain ⟨_, _, read'⟩ :=
      Program.ofTokens_initialization written' free' leveled' "x" .zero .zero .zero .zero .zero
    rw [read] at read'
    simp only [Except.ok.injEq, List.cons.injEq, Statement.variables.injEq, VariableList.mk.injEq,
      Declarator.mk.injEq, Option.some.injEq, true_and, and_true] at read'
    rw [← same', ← same, read'.2.2]

/-- An assignment of a choice, in which all strengths of operators meet. -/
def assignedChoice : Expr :=
  .binary .zero (.ident .zero "a") .addAssign .zero (.conditional .zero
    (.binary .zero (.binary .zero (.leading .zero .negate .zero
        (.trailing .zero (.ident .zero "b") .increment .zero)) .sub .zero (.number .zero "1"))
      .less .zero (.paren .zero (.binary .zero (.ident .zero "c") .assign .zero (.null .zero))))
    (.index .zero (.call .zero (.member .zero (.ident .zero "d") ⟨"if", .zero⟩)
      [.array .zero [.string .zero "e"]]) (.number .zero "0"))
    (.template .zero "" [.mk (.object .zero [.shorthand .zero ⟨"f", .zero⟩]) "g"]))

theorem assignedChoice_reads_back : assignedChoice.CastFree ∧ assignedChoice.Leveled ∧
    (∃ ts, assignedChoice.WrittenAs ts) ∧
    (∀ ts, assignedChoice.WrittenAs ts → ∀ name word nameSpan equals semicolon eof,
      ∃ span declared value, value.bare = assignedChoice.bare ∧
        Program.ofTokens (initialization name word nameSpan equals semicolon eof ts) = .ok
          [.«variables» span ⟨.letWord, [⟨declared, ⟨name, nameSpan⟩, none, some value⟩]⟩]) ∧
    ∀ (ts : List Token) (other : Expr), assignedChoice.WrittenAs ts → other.WrittenAs ts →
      other.CastFree → other.Leveled → other.bare = assignedChoice.bare := by
  have free : assignedChoice.CastFree := by
    simp [assignedChoice, Expr.CastFree, Expr.AllCastFree, TemplateHole.AllCastFree,
      Property.AllCastFree]
  have leveled : assignedChoice.Leveled := by
    simp [assignedChoice, Expr.Leveled, Expr.AllLeveled, TemplateHole.AllLeveled,
      Property.AllLeveled, Expr.IsOperation, Expr.Bears, Expr.strength, Expr.accessStrength,
      BinaryOp.isAssignment, BinaryOp.precedence, BinaryOp.token, UnaryOp.isUpdate,
      Operator.isAssignment, Operator.precedence]
  exact ⟨free, leveled, Expr.reading_undoes_writing assignedChoice free leveled⟩

end ScriptToGo
