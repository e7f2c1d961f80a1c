import ScriptToGo.Grammar.Declaration
import ScriptToGo.Proofs.Grammar.Expr
import ScriptToGo.Grammar.Program

/-! Reading a program stays among the tokens, and what is read starts where tokens do. -/
namespace ScriptToGo.Grammar
open Cursor

variable {tokens : List Token} {c : Cursor}

theorem startIn_name {name : Name} (starts : StartsAt tokens name.span.start) :
    StartIn tokens (Name.optionalSpans (some name)) :=
  startIn_cons.2 ⟨starts, .nil⟩

theorem optionalType_accounts (h : c.In tokens) :
    (optionalType c).Accounts tokens fun t? => StartIn tokens (TypeExpr.optionalSpans t?) := by
  rw [optionalType]
  split
  next taken =>
    refine ((typeExpr_accounts (h.take taken).1).map fun t good => ?_).pastOptional
    exact startIn_cons.2 ⟨good, .nil⟩
  · exact ⟨.nil, h⟩

theorem optionalValue_accounts (h : c.In tokens) :
    (optionalValue c).Accounts tokens fun e? => StartIn tokens (Expr.optionalSpans e?) := by
  rw [optionalValue]
  split
  next taken =>
    apply Reading.Accounts.pastOptional
    exact (expression_accounts (h.take taken).1).map fun _ good => good
  · exact ⟨.nil, h⟩

theorem optionalExpression_accounts {absent : Punctuation} (h : c.In tokens) :
    (optionalExpression absent c).Accounts tokens fun e? =>
      StartIn tokens (Expr.optionalSpans e?) := by
  rw [optionalExpression]
  split
  · exact ⟨.nil, h⟩
  · apply Reading.Accounts.loosen
    exact (expression_accounts h).map fun _ good => good

theorem specifier_accounts (h : c.In tokens) :
    (specifier c).Accounts tokens fun path => StartsAt tokens path.span.start :=
  (expect_accounts h).map fun _ starts => starts

theorem importedName_accounts (h : c.In tokens) :
    (importedNames.importedName c).Accounts tokens fun entry =>
      StartsAt tokens entry.span.start := by
  rw [importedNames.importedName]
  apply (expectName_accounts h).andMaybe
  intro name c₁ _ named inside
  split
  next taken =>
    apply Reading.Accounts.pastOptional
    apply (expectName_accounts (inside.take taken).1).mapAt
    intro other c₃ _ _
    exact named
  · exact ⟨named, inside⟩

theorem importedNames_accounts {c : Cursor} (h : c.In tokens) :
    (importedNames c).Accounts tokens fun list =>
      StartIn tokens (list.map ImportedName.span) := by
  rw [importedNames]
  split
  next taken => exact ⟨.nil, (h.take taken).1⟩
  · refine (importedName_accounts h).andThen fun first c₁ _ good inside => ?_
    split
    next c₂ _ comma =>
      apply Reading.Accounts.past
      apply (importedNames_accounts (inside.take comma).1).map
      intro others rest
      exact startIn_cons.2 ⟨good, rest⟩
    · exact (expectMark_accounts inside).map fun _ _ => startIn_cons.2 ⟨good, .nil⟩
termination_by c.size

theorem importSource_accounts {default? whole? : Option Name} {named : List ImportedName}
    (h : c.In tokens) (one : StartIn tokens (Name.optionalSpans default?))
    (all : StartIn tokens (Name.optionalSpans whole?))
    (some : StartIn tokens (named.map ImportedName.span)) :
    (importSource default? whole? named c).Accounts tokens fun decl => StartIn tokens decl.spans := by
  rw [importSource]
  apply (expectWord_accounts h).andThen
  intro _ c₁ _ _ inside
  apply (specifier_accounts inside).map
  intro path starts
  refine startIn_append.2 ⟨one, startIn_append.2 ⟨all, startIn_append.2 ⟨some, ?_⟩⟩⟩
  exact startIn_cons.2 ⟨starts, .nil⟩

theorem importBindings_accounts {default? : Option Name} (h : c.In tokens)
    (one : StartIn tokens (Name.optionalSpans default?)) :
    (importBindings default? c).Accounts tokens fun decl => StartIn tokens decl.spans := by
  rw [importBindings]
  split
  next star c₁ shorter taken =>
    obtain ⟨inside, starts⟩ := h.take taken
    apply Reading.Accounts.past
    apply (expectWord_accounts inside).andThen
    intro _ c₂ _ _ inside
    apply (expectName_accounts inside).andThen
    intro name c₃ _ _ inside
    exact importSource_accounts inside one (startIn_name starts) .nil
  split
  next c₁ shorter taken =>
    apply Reading.Accounts.past
    apply (importedNames_accounts (h.take taken).1).andThen
    intro named c₂ _ listed inside
    exact importSource_accounts inside one .nil listed
  · split
    · exact unexpected_accounts h
    · exact unexpected_accounts h

theorem importDecl_accounts (h : c.In tokens) :
    (importDecl c).Accounts tokens fun decl => StartIn tokens decl.spans := by
  rw [importDecl]
  split
  next taken =>
    obtain ⟨after, starts⟩ := h.take taken
    exact ⟨startIn_cons.2 ⟨starts, .nil⟩, after⟩
  split
  · exact importBindings_accounts h .nil
  next name span c₁ shorter taken =>
    obtain ⟨inside, starts⟩ := h.take taken
    have one : StartIn tokens (Name.optionalSpans (some ⟨name, span⟩)) := startIn_name starts
    split
    next comma => exact (importBindings_accounts (inside.take comma).1 one).past.past
    · exact (importSource_accounts inside one .nil .nil).past

theorem params_accounts {c : Cursor} (h : c.In tokens) :
    (params c).Accounts tokens fun list => StartIn tokens (list.flatMap Param.spans) := by
  rw [params]
  split
  next taken => exact ⟨.nil, (h.take taken).1⟩
  · refine (expectName_accounts h).andMaybe fun name c₁ _ named inside => ?_
    apply (optionalType_accounts inside).andThen
    intro type? c₂ _ typed inside
    have first : StartIn tokens (Param.spans ⟨c₂.spanFrom name.span.start, name, type?⟩) :=
      startIn_cons.2 ⟨named, startIn_cons.2 ⟨named, typed⟩⟩
    dsimp only
    split
    next c₃ _ comma =>
      apply Reading.Accounts.past
      apply (params_accounts (inside.take comma).1).map
      intro others rest
      exact startIn_append.2 ⟨first, rest⟩
    · exact (expectMark_accounts inside).map fun _ _ => startIn_append.2 ⟨first, .nil⟩
termination_by c.size

theorem functionSignature_accounts {isExported isDefault : Bool} {name? : Option Name}
    (h : c.In tokens) (named : StartIn tokens (Name.optionalSpans name?)) :
    (functionSignature isExported isDefault name? c).Accounts tokens fun head =>
      StartIn tokens head.spans := by
  rw [functionSignature]
  apply (expectMark_accounts h).andThen
  intro _ c₁ _ _ inside
  apply (params_accounts inside).andMaybe
  intro list c₂ _ listed inside
  apply (optionalType_accounts inside).map
  intro returns? typed
  exact startIn_append.2 ⟨named, startIn_append.2 ⟨listed, typed⟩⟩

theorem functionHead_accounts {isExported isDefault : Bool} (h : c.In tokens) :
    (functionHead isExported isDefault c).Accounts tokens fun head => StartIn tokens head.spans := by
  rw [functionHead]
  split
  next taken =>
    obtain ⟨inside, starts⟩ := h.take taken
    apply Reading.Accounts.past
    exact functionSignature_accounts inside (startIn_name starts)
  · split
    · exact functionSignature_accounts h .nil
    · exact unexpected_accounts h

theorem interfaceDecl_accounts {isExported : Bool} (h : c.In tokens) :
    (interfaceDecl isExported c).Accounts tokens fun decl =>
      StartIn tokens (decl.name.span :: decl.members.flatMap Member.spans) := by
  rw [interfaceDecl]
  apply (expectName_accounts h).andThen
  intro name c₁ _ named inside
  apply (expectMark_accounts inside).andThen
  intro _ c₂ _ _ inside
  apply (members_accounts inside).map
  intro list listed
  exact startIn_cons.2 ⟨named, listed⟩

theorem aliasDecl_accounts {isExported : Bool} (h : c.In tokens) :
    (aliasDecl isExported c).Accounts tokens fun decl =>
      StartIn tokens [decl.name.span, decl.type.span] := by
  rw [aliasDecl]
  apply (expectName_accounts h).andThen
  intro name c₁ _ named inside
  apply (expectOperator_accounts inside).andThen
  intro _ c₂ _ _ inside
  apply (typeExpr_accounts inside).map
  intro type typed
  exact startIn_cons.2 ⟨named, startIn_cons.2 ⟨typed, .nil⟩⟩

theorem declarators_accounts {c : Cursor} (h : c.In tokens) :
    (declarators c).Accounts tokens fun list => StartIn tokens (list.flatMap Declarator.spans) := by
  rw [declarators]
  apply (expectName_accounts h).andMaybe
  intro name c₁ _ named inside
  apply (optionalType_accounts inside).andMaybe
  intro type? c₂ _ typed inside
  apply (optionalValue_accounts inside).andMaybe
  intro initializer? c₃ _ valued inside
  have first : StartIn tokens
      (Declarator.spans ⟨c₃.spanFrom name.span.start, name, type?, initializer?⟩) :=
    startIn_cons.2 ⟨named, startIn_cons.2 ⟨named, startIn_append.2 ⟨typed, valued⟩⟩⟩
  dsimp only
  split
  next c₄ _ comma =>
    apply Reading.Accounts.pastOptional
    apply (declarators_accounts (inside.take comma).1).map
    intro others rest
    exact startIn_append.2 ⟨first, rest⟩
  · exact ⟨startIn_append.2 ⟨first, .nil⟩, inside⟩
termination_by c.size

theorem loopStart_accounts (h : c.In tokens) :
    (loopStart c).Accounts tokens fun start => StartIn tokens start.spans := by
  rw [loopStart]
  split
  · exact ⟨.nil, h⟩
  split
  next taken =>
    apply Reading.Accounts.pastOptional
    apply (declarators_accounts (h.take taken).1).mapAt
    intro list c₂ good _
    exact startIn_cons.2 ⟨h.start, good⟩
  · apply Reading.Accounts.loosen
    exact (expression_accounts h).map fun _ good => good

theorem loopClauses_accounts (h : c.In tokens) :
    (loopClauses c).Accounts tokens fun clauses => StartIn tokens clauses.spans := by
  rw [loopClauses]
  apply (expectMark_accounts h).andMaybe
  intro _ c₁ _ _ inside
  apply (loopStart_accounts inside).andThen
  intro start c₂ _ first inside
  apply (expectMark_accounts inside).andMaybe
  intro _ c₃ _ _ inside
  apply (optionalExpression_accounts inside).andThen
  intro condition? c₄ _ second inside
  apply (expectMark_accounts inside).andMaybe
  intro _ c₅ _ _ inside
  apply (optionalExpression_accounts inside).andThen
  intro step? c₆ _ third inside
  apply (expectMark_accounts inside).map
  intro _ _
  exact startIn_append.2 ⟨first, startIn_append.2 ⟨second, third⟩⟩

theorem condition_accounts {word : Keyword} (h : c.In tokens) :
    (condition word c).Accounts tokens fun e => StartIn tokens e.spans := by
  rw [condition]
  apply (expectMark_accounts h).andThen
  intro _ c₁ _ _ inside
  apply (expression_accounts inside).andThen
  intro value c₂ _ good inside
  exact (expectMark_accounts inside).map fun _ _ => good

theorem returnValue_accounts (h : c.In tokens) :
    (returnValue c).Accounts tokens fun e? => StartIn tokens (Expr.optionalSpans e?) := by
  rw [returnValue]
  split
  · exact ⟨.nil, h⟩
  · exact optionalExpression_accounts h

end ScriptToGo.Grammar

namespace ScriptToGo
open Cursor

namespace Grammar

variable {tokens : List Token}

mutual

theorem statement_accounts {c : Cursor} (h : c.In tokens) :
    (statement c).Accounts tokens fun s => StartIn tokens s.spans := by
  have starts := h.start
  rw [statement]
  split
  next found =>
    apply Reading.Accounts.past
    apply (importDecl_accounts (h.next found).1).thenSemicolon.mapAt
    intro decl c₂ good _
    exact startIn_cons.2 ⟨starts, good⟩
  next found => exact (exported_accounts (h.next found).1 starts).past
  next found => exact (function_accounts (h.next found).1 starts).past
  next found =>
    apply Reading.Accounts.past
    apply (interfaceDecl_accounts (h.next found).1).mapAt
    intro decl c₂ good _
    exact startIn_cons.2 ⟨starts, good⟩
  next found =>
    apply Reading.Accounts.past
    apply (aliasDecl_accounts (h.next found).1).thenSemicolon.mapAt
    intro decl c₂ good _
    exact startIn_cons.2 ⟨starts, good⟩
  next c₁ _ _ found =>
    have inside : c₁.In tokens := (h.next found).1
    apply Reading.Accounts.past
    apply (loopClauses_accounts inside).andThen
    intro clauses c₂ _ first inside
    apply (statement_accounts inside).mapAt
    intro body c₃ second _
    exact startIn_cons.2 ⟨starts, startIn_append.2 ⟨first, second⟩⟩
  next found =>
    apply Reading.Accounts.weaken
    apply (returnValue_accounts (h.next found).1).thenSemicolon.mapAt
    intro value? c₂ good _
    exact startIn_cons.2 ⟨starts, good⟩
  next c₁ _ _ found =>
    have inside : c₁.In tokens := (h.next found).1
    apply Reading.Accounts.past
    apply (condition_accounts inside).andThen
    intro test c₂ _ first inside
    apply (statement_accounts inside).andMaybe
    intro thenBranch c₃ _ second inside
    split
    next c₄ _ taken =>
      have inside : c₄.In tokens := (inside.take taken).1
      apply Reading.Accounts.pastOptional
      apply (statement_accounts inside).mapAt
      intro elseBranch c₅ third _
      exact startIn_cons.2 ⟨starts, startIn_append.2 ⟨first, startIn_append.2 ⟨second, third⟩⟩⟩
    · exact ⟨startIn_cons.2 ⟨starts, startIn_append.2 ⟨first, second⟩⟩, inside⟩
  next c₁ _ _ found =>
    have inside : c₁.In tokens := (h.next found).1
    apply Reading.Accounts.past
    apply (condition_accounts inside).andThen
    intro test c₂ _ first inside
    apply (statement_accounts inside).mapAt
    intro body c₃ second _
    exact startIn_cons.2 ⟨starts, startIn_append.2 ⟨first, second⟩⟩
  next found =>
    apply Reading.Accounts.past
    apply (statement_accounts (h.next found).1).andThen
    intro body c₂ _ first inside
    apply (expectWord_accounts inside).andThen
    intro _ c₃ _ _ inside
    apply (condition_accounts inside).thenSemicolon.mapAt
    intro test c₄ second _
    exact startIn_cons.2 ⟨starts, startIn_append.2 ⟨first, second⟩⟩
  next found =>
    apply Reading.Accounts.past
    apply (statements_accounts (h.next found).1).mapAt
    intro list c₂ good _
    exact startIn_cons.2 ⟨starts, good⟩
  next found => exact ⟨startIn_cons.2 ⟨starts, .nil⟩, (h.next found).1⟩
  · split
    next taken =>
      apply Reading.Accounts.past
      apply (declarators_accounts (h.take taken).1).thenSemicolon.mapAt
      intro list c₂ good _
      exact startIn_cons.2 ⟨starts, good⟩
    · apply (expression_accounts h).thenSemicolon.mapAt
      intro value c₁ good _
      exact startIn_cons.2 ⟨starts, good⟩
termination_by 16 * c.size

theorem statements_accounts {c : Cursor} (h : c.In tokens) :
    (statements c).Accounts tokens fun list => StartIn tokens (Statement.allSpans list) := by
  rw [statements]
  split
  · exact (expectMark_accounts h).map fun _ _ => StartIn.nil
  · refine (statement_accounts h).andThen fun first c₁ _ good inside => ?_
    apply (statements_accounts inside).map
    intro others rest
    exact startIn_append.2 ⟨good, rest⟩
termination_by 16 * c.size + 1

theorem function_accounts {start : Nat} {isExported isDefault : Bool} {c : Cursor}
    (h : c.In tokens) (starts : StartsAt tokens start) :
    (function start isExported isDefault c).Accounts tokens fun s => StartIn tokens s.spans := by
  rw [function]
  apply (functionHead_accounts h).andMaybe
  intro head c₁ _ headed inside
  split
  next c₂ _ taken =>
    have body := inside.start
    have inside : c₂.In tokens := (inside.take taken).1
    apply Reading.Accounts.pastOptional
    apply (statements_accounts inside).mapAt
    intro list c₃ good _
    exact startIn_cons.2 ⟨starts, startIn_cons.2 ⟨body, startIn_append.2 ⟨headed, good⟩⟩⟩
  · exact ⟨startIn_cons.2 ⟨starts, headed⟩, inside.skipMark⟩
termination_by 16 * c.size

theorem exported_accounts {start : Nat} {c : Cursor} (h : c.In tokens)
    (starts : StartsAt tokens start) :
    (exported start c).Accounts tokens fun s => StartIn tokens s.spans := by
  rw [exported]
  split
  next c₁ _ taken =>
    have inside : c₁.In tokens := (h.take taken).1
    split
    next c₂ _ word => exact (function_accounts (inside.take word).1 starts).past.past
    · exact (unexpected_accounts inside).past
  split
  next found => exact (function_accounts (h.next found).1 starts).past
  next found =>
    apply Reading.Accounts.past
    apply (interfaceDecl_accounts (h.next found).1).mapAt
    intro decl c₂ good _
    exact startIn_cons.2 ⟨starts, good⟩
  next found =>
    apply Reading.Accounts.past
    apply (aliasDecl_accounts (h.next found).1).thenSemicolon.mapAt
    intro decl c₂ good _
    exact startIn_cons.2 ⟨starts, good⟩
  · exact unexpected_accounts h
termination_by 16 * c.size

end

theorem statement_staysIn {c : Cursor} (h : c.In tokens) :
    (statement c).StaysIn tokens fun s => StartIn tokens s.spans :=
  (statement_accounts h).staysIn

theorem resume_in {last : TokenKind} {c : Cursor} (h : c.In tokens) : (resume last c).In tokens := by
  fun_induction resume last c with
  | case1 => exact h
  | case2 => exact h
  | case3 last c _ kind span next _ _ found ih => exact ih (h.next found).1

theorem recover_in {c : Cursor} (h : c.In tokens) : (recover c).In tokens := by
  rw [recover]
  split
  · exact h
  next found => exact resume_in (h.next found).1

/-- Every range of a program starts where one of its tokens does. -/
theorem program_starts {c : Cursor} (h : c.In tokens) :
    StartIn tokens (Statement.allSpans (program c).statements) := by
  fun_induction program c with
  | case1 => exact .nil
  | case2 c _ first next shorter read others ih =>
    have good := statement_staysIn h
    rw [read] at good
    exact startIn_append.2 ⟨good.1, ih good.2⟩
  | case3 => exact .nil
  | case4 c _ error place within read _ _ others ih =>
    have inside := statement_staysIn h
    rw [read] at inside
    exact ih (recover_in inside)

end Grammar

theorem Program.starts_ofTokens {tokens : List Token} {program : Program}
    (h : Program.ofTokens tokens = .ok program) : StartIn tokens (Statement.allSpans program) := by
  obtain ⟨start, opened, read⟩ := Program.ofTokens_eq_ok_iff.1 h
  have starts := Grammar.program_starts (in_ofTokens? opened)
  rwa [read] at starts

end ScriptToGo
