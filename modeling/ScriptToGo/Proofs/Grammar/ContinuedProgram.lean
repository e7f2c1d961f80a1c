import ScriptToGo.Proofs.Grammar.ContinuedExprs
import ScriptToGo.Proofs.Grammar.WrittenProgram

/-! Statements are read the same way wherever their tokens stand and whatever follows them. -/
namespace ScriptToGo.Grammar
open Continuation Reading

section

variable {w : Continuation} {c c' : Cursor}

theorem optionalType_alike (inside : w.Inside c c') :
    (optionalType c).Alike (Option.map (TypeExpr.shift w.distance)) w.Inside (optionalType c') := by
  rw [optionalType, optionalType]
  rcases inside.ready.mark? .colon rfl with
    ⟨missing, missing'⟩ | ⟨_, c₁, c₁', _, _, found, found', coloned⟩
  · rw [missing, missing']
    exact .stay rfl inside
  · rw [found, found']
    apply Alike.pastOptional
    exact (typeExpr_alike coloned.beside).map fun _ => rfl

theorem optionalValue_alike (inside : w.Inside c c') :
    (optionalValue c).Alike (Option.map (Expr.shift w.distance)) w.Inside (optionalValue c') := by
  rw [optionalValue, optionalValue]
  rcases inside.ready.operator? .assign with
    ⟨missing, missing'⟩ | ⟨_, c₁, c₁', _, _, found, found', assigned⟩
  · rw [missing, missing']
    exact .stay rfl inside
  · rw [found, found']
    apply Alike.pastOptional
    exact (expression_alike assigned.beside).map fun _ => rfl

/-- An expression is missing only where a mark stands in its place. -/
theorem optionalExpression_alike (passed : w.Passed c c') (absent : Punctuation) :
    (optionalExpression absent c).Alike (Option.map (Expr.shift w.distance)) w.Inside
      (optionalExpression absent c') := by
  rw [optionalExpression, optionalExpression]
  rcases passed.beside.atEnd_or_ready with atEnd | ready
  · have notMark : c.atMark absent = false := by
      simp only [Cursor.atMark, Cursor.peek, atEnd, List.head_cons]
      rfl
    rw [notMark, if_neg Bool.false_ne_true]
    have none : (expression c).Ensures fun _ _ => False := ensures_of_atEnd atEnd _
    exact (none.map fun _ _ => False.elim).loosen
  · rw [ready.atMark]
    split
    · exact .stay rfl ⟨ready, passed.last⟩
    · apply Alike.loosen
      exact (expression_alike passed.beside).map fun _ => rfl

theorem specifier_alike (beside : w.Beside c c') :
    (specifier c).Alike (Name.shift w.distance) w.Inside (specifier c') :=
  (beside.expect isTest_string rfl _).map fun _ => rfl

theorem importedName_alike (beside : w.Beside c c') :
    (importedNames.importedName c).Alike (ImportedName.shift w.distance) w.Inside
      (importedNames.importedName c') := by
  rw [importedNames.importedName, importedNames.importedName]
  refine beside.expectName.andMaybe fun name c₁ c₁' _ _ named => ?_
  have spanned {next next' : Cursor} (inside : w.Inside next next') :
      next'.spanFrom (name.shift w.distance).span.start
        = (next.spanFrom name.span.start).shift w.distance := inside.spanFrom _
  rcases named.ready.word? .asWord with
    ⟨missing, missing'⟩ | ⟨_, c₂, c₂', _, _, found, found', renamed⟩
  · rw [missing, missing', spanned named]
    exact .stay rfl named
  · rw [found, found']
    apply Alike.pastOptional
    refine renamed.beside.expectName.mapAt fun _ _ _ inside => ?_
    rw [spanned inside]
    rfl

theorem importSource_alike (beside : w.Beside c c') (default? whole? : Option Name)
    (named : List ImportedName) :
    (importSource default? whole? named c).Alike (ImportDecl.shift w.distance) w.Inside
      (importSource (default?.map (Name.shift w.distance)) (whole?.map (Name.shift w.distance))
        (named.map (ImportedName.shift w.distance)) c') := by
  rw [importSource, importSource]
  refine beside.expectWord.andThen fun _ _ _ _ _ inside => ?_
  exact (specifier_alike inside.beside).map fun _ => rfl

end

theorem importedNames_alike {w : Continuation} {c c' : Cursor} (beside : w.Beside c c') :
    (importedNames c).Alike (List.map (ImportedName.shift w.distance)) w.Inside
      (importedNames c') := by
  refine beside.alike fun ready _ => ?_
  rw [importedNames.eq_def c, importedNames.eq_def c']
  rcases ready.mark? .rightBrace rfl with ⟨missing, missing'⟩ | ⟨_, _, _, _, _, found, found', closed⟩
  case inr =>
    rw [found, found']
    exact .ok rfl closed
  rw [missing, missing']
  refine (importedName_alike beside).andThen fun first c₁ c₁' _ _ inside => ?_
  rcases inside.ready.mark? .comma rfl with
    ⟨missing, missing'⟩ | ⟨_, c₂, c₂', shorter, _, found, found', comma⟩
  · rw [missing, missing']
    exact (inside.beside.expectMark rfl).map fun _ => rfl
  · rw [found, found']
    apply Alike.past
    exact (importedNames_alike comma.beside).map fun _ => rfl
termination_by c.size

section

variable {w : Continuation} {c c' : Cursor}

theorem importBindings_alike (beside : w.Beside c c') (default? : Option Name) :
    (importBindings default? c).Alike (ImportDecl.shift w.distance) w.Inside
      (importBindings (default?.map (Name.shift w.distance)) c') := by
  refine beside.alike fun ready _ => ?_
  rw [importBindings.eq_def _ c, importBindings.eq_def _ c']
  rcases ready.operator? .star with
    ⟨missing, missing'⟩ | ⟨star, c₁, c₁', _, _, found, found', starred⟩
  case inr =>
    rw [found, found']
    apply Alike.past
    refine starred.beside.expectWord.andThen fun _ _ _ _ _ inside => ?_
    refine inside.beside.expectName.andThen fun name c₃ _ _ _ inside => ?_
    have source := importSource_alike inside.beside default?
      (some ⟨name.text, c₃.spanFrom star.start⟩) []
    rwa [Option.map_some, Name.shift, ← inside.spanFrom] at source
  rw [missing, missing']
  dsimp only
  rcases ready.mark? .leftBrace rfl with
    ⟨missing, missing'⟩ | ⟨_, c₁, c₁', _, _, found, found', opened⟩
  case inr =>
    rw [found, found']
    apply Alike.past
    refine (importedNames_alike opened.beside).andThen fun named _ _ _ _ inside => ?_
    exact importSource_alike inside.beside default? none named
  rw [missing, missing']
  dsimp only
  split <;> trivial

theorem importDecl_alike (beside : w.Beside c c') :
    (importDecl c).Alike (ImportDecl.shift w.distance) w.Inside (importDecl c') := by
  refine beside.alike fun ready _ => ?_
  rw [importDecl, importDecl]
  rcases ready.take? isTest_string with
    ⟨missing, missing'⟩ | ⟨path, span, _, _, _, _, found, found', -, inside⟩
  case inr =>
    rw [found, found']
    exact .ok rfl (inside rfl)
  rw [missing, missing']
  dsimp only
  rcases ready.take? isTest_ident with
    ⟨missing, missing'⟩ | ⟨name, span, c₁, c₁', _, _, found, found', -, inside⟩
  · rw [missing, missing']
    exact importBindings_alike beside none
  rw [found, found']
  have inside := inside rfl
  dsimp only
  rcases inside.ready.mark? .comma rfl with
    ⟨missing, missing'⟩ | ⟨_, c₂, c₂', _, _, found, found', comma⟩
  · rw [missing, missing']
    apply Alike.past
    exact importSource_alike inside.beside (some ⟨name, span⟩) none []
  · rw [found, found']
    apply Alike.past
    apply Alike.past
    exact importBindings_alike comma.beside (some ⟨name, span⟩)

end

theorem params_alike {w : Continuation} {c c' : Cursor} (beside : w.Beside c c') :
    (params c).Alike (List.map (Param.shift w.distance)) w.Inside (params c') := by
  refine beside.alike fun ready _ => ?_
  rw [params.eq_def c, params.eq_def c']
  rcases ready.mark? .rightParen rfl with ⟨missing, missing'⟩ | ⟨_, _, _, _, _, found, found', closed⟩
  case inr =>
    rw [found, found']
    exact .ok rfl closed
  rw [missing, missing']
  refine beside.expectName.andMaybe fun name c₁ c₁' _ _ named => ?_
  refine (optionalType_alike named).andThen fun type? c₂ c₂' _ _ typed => ?_
  have spanned : c₂'.spanFrom (name.shift w.distance).span.start
      = (c₂.spanFrom name.span.start).shift w.distance := typed.spanFrom _
  dsimp only
  rw [spanned]
  rcases typed.ready.mark? .comma rfl with
    ⟨missing, missing'⟩ | ⟨_, c₃, c₃', shorter, _, found, found', comma⟩
  · rw [missing, missing']
    exact (typed.beside.expectMark rfl).map fun _ => rfl
  · rw [found, found']
    apply Alike.past
    exact (params_alike comma.beside).map fun _ => rfl
termination_by c.size

theorem declarators_alike {w : Continuation} {c c' : Cursor} (beside : w.Beside c c') :
    (declarators c).Alike (List.map (Declarator.shift w.distance)) w.Inside (declarators c') := by
  rw [declarators.eq_def c, declarators.eq_def c']
  refine beside.expectName.andMaybe fun name c₁ c₁' _ _ named => ?_
  refine (optionalType_alike named).andMaybe fun type? c₂ c₂' _ _ typed => ?_
  refine (optionalValue_alike typed).andMaybe fun value? c₃ c₃' _ _ valued => ?_
  have spanned : c₃'.spanFrom (name.shift w.distance).span.start
      = (c₃.spanFrom name.span.start).shift w.distance := valued.spanFrom _
  dsimp only
  rw [spanned]
  rcases valued.ready.mark? .comma rfl with
    ⟨missing, missing'⟩ | ⟨_, c₄, c₄', shorter, _, found, found', comma⟩
  · rw [missing, missing']
    exact .stay rfl valued
  · rw [found, found']
    apply Alike.pastOptional
    exact (declarators_alike comma.beside).map fun _ => rfl
termination_by c.size

section

variable {w : Continuation} {c c' : Cursor}

theorem functionSignature_alike (beside : w.Beside c c') (isExported isDefault : Bool)
    (name? : Option Name) :
    (functionSignature isExported isDefault name? c).Alike (FunctionHead.shift w.distance) w.Inside
      (functionSignature isExported isDefault (name?.map (Name.shift w.distance)) c') := by
  rw [functionSignature, functionSignature]
  refine (beside.expectMark rfl).andThen fun _ _ _ _ _ inside => ?_
  refine (params_alike inside.beside).andMaybe fun _ _ _ _ _ inside => ?_
  exact (optionalType_alike inside).map fun _ => rfl

theorem functionHead_alike (beside : w.Beside c c') (isExported isDefault : Bool) :
    (functionHead isExported isDefault c).Alike (FunctionHead.shift w.distance) w.Inside
      (functionHead isExported isDefault c') := by
  refine beside.alike fun ready _ => ?_
  rw [functionHead, functionHead]
  rcases ready.take? isTest_ident with
    ⟨missing, missing'⟩ | ⟨name, span, _, _, _, _, found, found', -, inside⟩
  · rw [missing, missing']
    dsimp only
    split
    · exact functionSignature_alike beside isExported isDefault none
    · trivial
  · rw [found, found']
    apply Alike.past
    exact functionSignature_alike (inside rfl).beside isExported isDefault (some ⟨name, span⟩)

theorem interfaceDecl_alike (beside : w.Beside c c') (isExported : Bool) :
    (interfaceDecl isExported c).Alike (InterfaceDecl.shift w.distance) w.Inside
      (interfaceDecl isExported c') := by
  rw [interfaceDecl, interfaceDecl]
  refine beside.expectName.andThen fun _ _ _ _ _ inside => ?_
  refine (inside.beside.expectMark rfl).andThen fun _ _ _ _ _ inside => ?_
  exact (members_alike inside.beside).map fun _ => rfl

theorem aliasDecl_alike (beside : w.Beside c c') (isExported : Bool) :
    (aliasDecl isExported c).Alike (AliasDecl.shift w.distance) w.Inside
      (aliasDecl isExported c') := by
  rw [aliasDecl, aliasDecl]
  refine beside.expectName.andThen fun _ _ _ _ _ inside => ?_
  refine inside.beside.expectOperator.andThen fun _ _ _ _ _ inside => ?_
  exact (typeExpr_alike inside.beside).map fun _ => rfl

theorem isTest_variableKeyword : TokenKind.IsTest variableKeyword? := ⟨fun _ _ => rfl, rfl⟩

theorem loopStart_alike (inside : w.Inside c c') :
    (loopStart c).Alike (LoopStart.shift w.distance) w.Inside (loopStart c') := by
  rw [loopStart, loopStart, inside.ready.atMark]
  split
  · exact .stay rfl inside
  rcases inside.ready.take? isTest_variableKeyword with
    ⟨missing, missing'⟩ | ⟨keyword, _, c₁, c₁', _, _, found, found', -, named⟩
  · rw [missing, missing']
    apply Alike.loosen
    exact (expression_alike inside.beside).map fun _ => rfl
  · obtain ⟨_, -, passed⟩ := Cursor.passes_of_take? found
    rw [found, found', inside.beside.start_eq (passed.rest_ne _)]
    apply Alike.pastOptional
    refine (declarators_alike (named rfl).beside).mapAt fun _ _ _ inside => ?_
    rw [inside.spanFrom]
    rfl

theorem condition_alike (beside : w.Beside c c') (word : Keyword) :
    (condition word c).Alike (Expr.shift w.distance) w.Inside (condition word c') := by
  rw [condition, condition]
  refine (beside.expectMark rfl).andThen fun _ _ _ _ _ inside => ?_
  refine (expression_alike inside.beside).andThen fun value _ _ _ _ inside => ?_
  exact (inside.beside.expectMark rfl).map fun _ => rfl

theorem loopClauses_alike (beside : w.Beside c c') :
    (loopClauses c).Alike (LoopClauses.shift w.distance) w.Inside (loopClauses c') := by
  rw [loopClauses, loopClauses]
  refine (beside.expectMark rfl).andMaybe fun _ _ _ _ _ inside => ?_
  refine (loopStart_alike inside).andThen fun start _ _ _ _ inside => ?_
  refine inside.beside.expectSemicolon.andMaybe fun _ _ _ _ _ passed => ?_
  refine (optionalExpression_alike passed _).andThen fun condition? _ _ _ _ inside => ?_
  refine inside.beside.expectSemicolon.andMaybe fun _ _ _ _ _ passed => ?_
  refine (optionalExpression_alike passed _).andThen fun step? _ _ _ _ inside => ?_
  exact (inside.beside.expectMark rfl).map fun _ => rfl

theorem returnValue_alike (inside : w.Inside c c') :
    (returnValue c).Alike (Option.map (Expr.shift w.distance)) w.Inside (returnValue c') := by
  rw [returnValue, returnValue, inside.ready.atMark, inside.ready.atEnd]
  split
  · exact .stay rfl inside
  · exact optionalExpression_alike inside.passed _

end

/-- Reads a statement that begins with no word of its own, or declares variables. -/
def plainStatement (c : Cursor) : Reading Statement c.size :=
  match c.take? variableKeyword? with
  | some ⟨keyword, _, c₁, shorter⟩ =>
    .past shorter <| (declarators c₁).thenSemicolon.mapAt fun list c₂ =>
      .«variables» (c₂.spanFrom c.start) ⟨keyword, list⟩
  | none =>
    (expression c).thenSemicolon.mapAt fun value c₁ => .expression (c₁.spanFrom c.start) value

theorem plainStatement_alike {w : Continuation} {c c' : Cursor} (beside : w.Beside c c') :
    (plainStatement c).Alike (Statement.shift w.distance) w.Passed (plainStatement c') := by
  refine beside.alike fun ready start => ?_
  rw [plainStatement, plainStatement, start]
  rcases ready.take? isTest_variableKeyword with
    ⟨missing, missing'⟩ | ⟨keyword, _, _, _, _, _, found, found', -, named⟩
  · rw [missing, missing']
    refine (alike_thenSemicolon (expression_alike beside)).mapAt fun _ _ _ passed => ?_
    rw [passed.spanFrom]
    rfl
  · rw [found, found']
    apply Alike.past
    refine (alike_thenSemicolon (declarators_alike (named rfl).beside)).mapAt fun _ _ _ passed => ?_
    rw [passed.spanFrom]
    rfl

/-- A statement goes on with the word that is next, or with none of the tokens that follow. -/
theorem elseWord_alike {w : Continuation} {c c' : Cursor} (noElse : w.NoElse)
    (passed : w.Passed c c') :
    (c.word? .elseWord = none ∧ c'.word? .elseWord = none) ∨
      ∃ span next next' shorter shorter', c.word? .elseWord = some ⟨(), span, next, shorter⟩ ∧
        c'.word? .elseWord = some ⟨(), span.shift w.distance, next', shorter'⟩ ∧
        w.Inside next next' := by
  rcases passed.beside.atEnd_or_ready with atEnd | ready
  · refine .inl ⟨Cursor.take?_eq_none ?_, Cursor.take?_eq_none ?_⟩
    · simp only [Cursor.peek, atEnd, List.head_cons]
      rfl
    · obtain ⟨tokens, ⟨rest, rest'⟩, -⟩ := passed.beside
      obtain rfl : tokens = [] := by
        rw [atEnd] at rest
        simpa using rest
      simp only [Cursor.peek, rest', List.map_nil, List.nil_append, List.head_cons]
      cases accepted : TokenKind.isKeyword .elseWord w.first.kind with
      | none => rfl
      | some _ => exact absurd (Cursor.kind_of_isKeyword accepted) noElse
  · exact ready.word? .elseWord

mutual

theorem statement_alike {w : Continuation} {c c' : Cursor} (noElse : w.NoElse)
    (beside : w.Beside c c') :
    (statement c).Alike (Statement.shift w.distance) w.Passed (statement c') := by
  refine beside.alike fun _ start => ?_
  rcases beside.next? with ⟨atEnd, -⟩ | ⟨kind, _, c₁, c₁', _, _, shorter, _, found, found', passed, inside⟩
  · exact ensures_of_atEnd atEnd _
  rw [statement.eq_def c, statement.eq_def c', found, found']
  cases kind with
  | keyword word =>
    have within := inside (by simp)
    cases word with
    | importWord =>
      dsimp only [TokenKind.shift]
      rw [start]
      apply Alike.past
      refine (alike_thenSemicolon (importDecl_alike within.beside)).mapAt fun _ _ _ passed => ?_
      rw [passed.spanFrom]
      rfl
    | exportWord =>
      dsimp only [TokenKind.shift]
      rw [start]
      exact (exported_alike noElse within.beside c.start).past
    | functionWord =>
      dsimp only [TokenKind.shift]
      rw [start]
      exact (function_alike noElse within.beside c.start false false).past
    | interfaceWord =>
      dsimp only [TokenKind.shift]
      rw [start]
      apply Alike.past
      refine Alike.imp (R := w.Inside) ?_ fun _ _ => Inside.passed
      refine (interfaceDecl_alike within.beside false).mapAt fun _ _ _ inside => ?_
      rw [inside.spanFrom]
      rfl
    | typeWord =>
      dsimp only [TokenKind.shift]
      rw [start]
      apply Alike.past
      refine (alike_thenSemicolon (aliasDecl_alike within.beside false)).mapAt fun _ _ _ passed => ?_
      rw [passed.spanFrom]
      rfl
    | forWord =>
      dsimp only [TokenKind.shift]
      rw [start]
      apply Alike.past
      refine (loopClauses_alike within.beside).andThen fun clauses _ _ _ _ inside => ?_
      refine (statement_alike noElse inside.beside).mapAt fun _ _ _ passed => ?_
      rw [passed.spanFrom]
      rfl
    | returnWord =>
      dsimp only [TokenKind.shift]
      rw [start]
      apply Alike.weaken
      refine (alike_thenSemicolon (returnValue_alike within)).mapAt fun _ _ _ passed => ?_
      rw [passed.spanFrom]
      rfl
    | ifWord =>
      dsimp only [TokenKind.shift]
      rw [start]
      apply Alike.past
      refine (condition_alike within.beside _).andThen fun test _ _ _ _ inside => ?_
      refine (statement_alike noElse inside.beside).andMaybe fun thenBranch c₃ c₃' _ _ passed => ?_
      rcases elseWord_alike noElse passed with
        ⟨missing, missing'⟩ | ⟨_, c₄, c₄', _, _, found, found', otherwise⟩
      · rw [missing, missing', passed.spanFrom]
        exact .stay rfl passed
      · rw [found, found']
        apply Alike.pastOptional
        refine (statement_alike noElse otherwise.beside).mapAt fun _ _ _ passed => ?_
        rw [passed.spanFrom]
        rfl
    | whileWord =>
      dsimp only [TokenKind.shift]
      rw [start]
      apply Alike.past
      refine (condition_alike within.beside _).andThen fun test _ _ _ _ inside => ?_
      refine (statement_alike noElse inside.beside).mapAt fun _ _ _ passed => ?_
      rw [passed.spanFrom]
      rfl
    | doWord =>
      dsimp only [TokenKind.shift]
      rw [start]
      apply Alike.past
      refine (statement_alike noElse within.beside).andThen fun body _ _ _ _ passed => ?_
      refine passed.beside.expectWord.andThen fun _ _ _ _ _ inside => ?_
      refine (alike_thenSemicolon (condition_alike inside.beside _)).mapAt fun _ _ _ passed => ?_
      rw [passed.spanFrom]
      rfl
    | _ => exact plainStatement_alike beside
  | punctuation mark =>
    cases mark with
    | leftBrace =>
      dsimp only [TokenKind.shift]
      rw [start]
      apply Alike.past
      refine Alike.imp (R := w.Inside) ?_ fun _ _ => Inside.passed
      refine (statements_alike noElse (inside (by simp)).beside).mapAt fun _ _ _ inside => ?_
      rw [inside.spanFrom]
      rfl
    | semicolon =>
      dsimp only [TokenKind.shift]
      rw [start, passed.spanFrom]
      exact .ok rfl passed
    | _ => exact plainStatement_alike beside
  | _ => exact plainStatement_alike beside
termination_by 16 * c.size

theorem statements_alike {w : Continuation} {c c' : Cursor} (noElse : w.NoElse)
    (beside : w.Beside c c') :
    (statements c).Alike (Statement.shiftAll w.distance) w.Inside (statements c') := by
  refine beside.alike fun ready _ => ?_
  rw [statements.eq_def c, statements.eq_def c', ready.atMark, ready.atEnd]
  split
  · exact (beside.expectMark rfl).map fun _ => rfl
  · refine (statement_alike noElse beside).andThen fun first _ _ _ _ passed => ?_
    exact (statements_alike noElse passed.beside).map fun _ => rfl
termination_by 16 * c.size + 1

theorem function_alike {w : Continuation} {c c' : Cursor} (noElse : w.NoElse)
    (beside : w.Beside c c') (start : Nat) (isExported isDefault : Bool) :
    (function start isExported isDefault c).Alike (Statement.shift w.distance) w.Passed
      (function (start + w.distance) isExported isDefault c') := by
  rw [function.eq_def start, function.eq_def (start + w.distance)]
  refine (functionHead_alike beside isExported isDefault).andMaybe fun head c₁ c₁' _ _ inside => ?_
  rcases inside.ready.mark? .leftBrace rfl with
    ⟨missing, missing'⟩ | ⟨_, c₂, c₂', _, _, found, found', opened⟩
  · rw [missing, missing']
    have stays : (Reading.stay head c₁).Alike (FunctionHead.shift w.distance) w.Inside
        (Reading.stay (head.shift w.distance) c₁') := .stay rfl inside
    refine (alike_thenSemicolon stays).mapAt fun _ _ _ passed => ?_
    rw [passed.spanFrom]
    rfl
  · have place := inside.beside.start_eq ((Cursor.passes_of_mark? found).rest_ne _)
    rw [found, found', place]
    apply Alike.pastOptional
    refine Alike.imp (R := w.Inside) ?_ fun _ _ => Inside.passed
    refine (statements_alike noElse opened.beside).mapAt fun _ _ _ inside => ?_
    rw [inside.spanFrom, inside.spanFrom]
    rfl
termination_by 16 * c.size

theorem exported_alike {w : Continuation} {c c' : Cursor} (noElse : w.NoElse)
    (beside : w.Beside c c') (start : Nat) :
    (exported start c).Alike (Statement.shift w.distance) w.Passed
      (exported (start + w.distance) c') := by
  refine beside.alike fun ready _ => ?_
  rcases beside.next? with ⟨atEnd, -⟩ | ⟨kind, _, c₁, c₁', _, _, _, _, found, found', -, inside⟩
  · exact ensures_of_atEnd atEnd _
  rw [exported.eq_def start, exported.eq_def (start + w.distance)]
  rcases ready.word? .defaultWord with
    ⟨missing, missing'⟩ | ⟨_, c₂, c₂', _, _, default, default', byDefault⟩
  case inr =>
    rw [default, default']
    dsimp only
    rcases byDefault.ready.word? .functionWord with
      ⟨missing, missing'⟩ | ⟨_, c₃, c₃', _, _, found, found', word⟩
    · rw [missing, missing']
      trivial
    · rw [found, found']
      exact (function_alike noElse word.beside start true true).past.past
  rw [missing, missing', found, found']
  cases kind with
  | keyword word =>
    have within := inside (by simp)
    cases word with
    | functionWord => exact (function_alike noElse within.beside start true false).past
    | interfaceWord =>
      dsimp only [TokenKind.shift]
      apply Alike.past
      refine Alike.imp (R := w.Inside) ?_ fun _ _ => Inside.passed
      refine (interfaceDecl_alike within.beside true).mapAt fun _ _ _ inside => ?_
      rw [inside.spanFrom]
      rfl
    | typeWord =>
      dsimp only [TokenKind.shift]
      apply Alike.past
      refine (alike_thenSemicolon (aliasDecl_alike within.beside true)).mapAt fun _ _ _ passed => ?_
      rw [passed.spanFrom]
      rfl
    | _ => trivial
  | _ => trivial
termination_by 16 * c.size

end

end ScriptToGo.Grammar
