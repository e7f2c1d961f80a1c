import ScriptToGo.Grammar.Program
import ScriptToGo.Proofs.Grammar.NodeTokens

/-! The tokens of a program write its nodes one after the other. -/
namespace ScriptToGo

namespace Reading
open Cursor

variable {α β : Type} {n : Nat} {c c₁ : Cursor} {r : Reading α n} {f : α → List Node}
  {front : List Node} {taken : List Token}

/-- The tokens that are taken write the nodes of what is read. -/
def Lays (c : Cursor) (nodesOf : α → List Node) (r : Reading α n) : Prop :=
  r.Takes c fun value taken => Laid Node.WrittenBy (nodesOf value) taken

theorem Lays.mapAt {g : β → List Node} {make : α → Cursor → β} (h : r.Lays c f)
    (same : ∀ value next, g (make value next) = f value) : (r.mapAt make).Lays c g := by
  apply Ensures.mapAt h
  rintro value next ⟨taken, passed, laid⟩
  refine ⟨taken, passed, ?_⟩
  dsimp only
  rwa [same value next]

theorem Lays.map {g : β → List Node} {make : α → β} (h : r.Lays c f)
    (same : ∀ value, g (make value) = f value) : (r.map make).Lays c g :=
  Lays.mapAt h fun value _ => same value

/-- Nodes that are read later follow those that are read before. -/
theorem Lays.following (h : r.Lays c₁ f) (passed : c.Passes taken c₁)
    (laid : Laid Node.WrittenBy front taken) : r.Lays c fun value => front ++ f value := by
  apply Ensures.mono h
  rintro value next ⟨more, after, later⟩
  exact ⟨_, passed.trans after, laid.append later⟩

theorem Lays.past (h : r.Lays c₁ f) (passed : c.Passes taken c₁) : r.Lays c f :=
  h.following passed .nil

theorem Lays.thenSemicolon (h : r.Lays c f) : r.thenSemicolon.Lays c f := by
  cases r with
  | fail error place within => trivial
  | ok value next shorter =>
    obtain ⟨taken, passed, laid⟩ := h
    rcases passes_skipMark next .semicolon with ⟨_, -, marked⟩ | ⟨-, unmarked⟩
    · exact ⟨_, passed.trans marked, laid.after _⟩
    · exact ⟨_, passed.trans unmarked, laid.after _⟩

end Reading

namespace Grammar
open Cursor

theorem expect_lays {α : Type} {c : Cursor} {test : TokenKind → Option α} {wanted : String} :
    (c.expect test wanted).Lays c fun _ => [] :=
  expect_ensures.mono fun _ _ ⟨_, _, passed⟩ => ⟨_, passed, .nil⟩

theorem expectMark_lays {c : Cursor} {mark : Punctuation} {wanted : String} :
    (c.expectMark mark wanted).Lays c fun _ => [] := expect_lays.map fun _ => rfl

theorem expectWord_lays {c : Cursor} {word : Keyword} {wanted : String} :
    (c.expectWord word wanted).Lays c fun _ => [] := expect_lays.map fun _ => rfl

theorem expectName_lays {c : Cursor} {wanted : String} :
    (c.expectName wanted).Lays c fun _ => [] := expect_lays.map fun _ => rfl

theorem expression_lays {c : Cursor} (lexical : Lexical c.rest) :
    (expression c).Lays c fun e => [.expression e] := by
  apply ((expression_takes lexical).and (expression_leveled c)).mono
  rintro e next ⟨⟨taken, passed, written⟩, leveled, -⟩
  exact ⟨taken, passed, .one (.expression written leveled)⟩

theorem optionalType_takes (c : Cursor) :
    (optionalType c).Takes c TypeExpr.OptionallyWrittenBy := by
  rw [optionalType]
  split
  next coloned =>
    apply Reading.Ensures.pastOptional
    apply (typeExpr_takes _).map
    rintro type next ⟨taken, passed, written⟩
    exact ⟨_, (passes_of_mark? coloned).trans passed, .some written⟩
  · exact ⟨[], .nil c, .none⟩

theorem optionalValue_takes {c : Cursor} (lexical : Lexical c.rest) :
    (optionalValue c).Takes c Expr.OptionallyWrittenBy := by
  rw [optionalValue]
  split
  next c₁ _ assigned =>
    have before : c.Passes _ c₁ := passes_of_operator? assigned
    apply Reading.Ensures.pastOptional
    apply ((expression_takes (before.lexical lexical)).and (expression_leveled c₁)).map
    rintro e next ⟨⟨taken, passed, written⟩, leveled, -⟩
    exact ⟨_, before.trans passed, .some written leveled⟩
  · exact ⟨[], .nil c, .none⟩

theorem optionalExpression_lays {absent : Punctuation} {c : Cursor} (lexical : Lexical c.rest) :
    (optionalExpression absent c).Lays c Node.ofExpr? := by
  rw [optionalExpression]
  split
  · exact ⟨[], .nil c, .nil⟩
  · apply Reading.Ensures.loosen
    exact (expression_lays lexical).map fun _ => rfl

theorem importedName_lays (c : Cursor) :
    (importedNames.importedName c).Lays c fun _ => [] := by
  rw [importedNames.importedName]
  apply expectName_lays.andMaybe
  rintro name c₁ _ ⟨taken, passed, -⟩
  split
  next renamed =>
    apply Reading.Ensures.pastOptional
    exact (expectName_lays.past (passed.trans (passes_of_word? renamed))).mapAt fun _ _ => rfl
  · exact ⟨taken, passed, .nil⟩

theorem importedNames_lays (c : Cursor) : (importedNames c).Lays c fun _ => [] := by
  rw [importedNames]
  split
  next closed => exact ⟨_, passes_of_mark? closed, .nil⟩
  · apply (importedName_lays c).andThen
    rintro first c₁ _ ⟨taken, passed, -⟩
    split
    next c₂ _ comma =>
      have before : c.Passes _ c₂ := passed.trans (passes_of_mark? comma)
      apply Reading.Ensures.past
      exact ((importedNames_lays c₂).past before).map fun _ => rfl
    · exact (expectMark_lays.past passed).map fun _ => rfl
termination_by c.size

theorem importSource_lays {default? whole? : Option Name} {named : List ImportedName}
    {c : Cursor} : (importSource default? whole? named c).Lays c fun _ => [] := by
  rw [importSource]
  apply expectWord_lays.andThen
  rintro _ c₁ _ ⟨taken, passed, -⟩
  have path : (specifier c₁).Lays c₁ fun _ => [] := expect_lays.map fun _ => rfl
  exact (path.past passed).map fun _ => rfl

theorem importBindings_lays {default? : Option Name} {c : Cursor} :
    (importBindings default? c).Lays c fun _ => [] := by
  rw [importBindings]
  split
  next star c₁ shorter starred =>
    apply Reading.Ensures.past
    apply (expectWord_lays.past (passes_of_operator? starred)).andThen
    rintro _ c₂ _ ⟨_, passed, -⟩
    apply (expectName_lays.past passed).andThen
    rintro name c₃ _ ⟨_, passed, -⟩
    exact importSource_lays.past passed
  split
  next c₁ shorter opened =>
    apply Reading.Ensures.past
    apply ((importedNames_lays c₁).past (passes_of_mark? opened)).andThen
    rintro named c₂ _ ⟨_, passed, -⟩
    exact importSource_lays.past passed
  · split <;> trivial

theorem importDecl_lays (c : Cursor) : (importDecl c).Lays c fun _ => [] := by
  rw [importDecl]
  split
  next path =>
    obtain ⟨kind, -, passed⟩ := passes_of_take? path
    exact ⟨_, passed, .nil⟩
  split
  · exact importBindings_lays
  next name span c₁ shorter taken =>
    obtain ⟨kind, -, passed⟩ := passes_of_take? taken
    split
    next comma =>
      apply Reading.Ensures.past
      apply Reading.Ensures.past
      exact importBindings_lays.past (passed.trans (passes_of_mark? comma))
    · apply Reading.Ensures.past
      exact importSource_lays.past passed

theorem params_lays (c : Cursor) : (params c).Lays c fun list => list.map .param := by
  rw [params]
  split
  next closed => exact ⟨_, passes_of_mark? closed, .nil⟩
  · apply expectName_ensures.andMaybe
    intro name c₁ _ named
    apply (optionalType_takes c₁).andThen
    rintro type? c₂ _ ⟨taken, passed, typed⟩
    have passed : c.Passes (.mk _ _ :: taken) c₂ := named.trans passed
    have first : Node.WrittenBy (.param ⟨spanOf _, name, type?⟩) _ := .param rfl typed
    rw [← passed.spanFrom_eq (by simp), named.start_eq] at first
    dsimp only
    split
    next c₃ _ comma =>
      have before : c.Passes _ c₃ := passed.trans (passes_of_mark? comma)
      apply Reading.Ensures.past
      apply ((params_lays c₃).following before ((Laid.one first).after [_])).map
      exact fun _ => rfl
    · exact (expectMark_lays.following passed (.one first)).map fun _ => rfl
termination_by c.size

theorem functionSignature_lays {isExported isDefault : Bool} {name? : Option Name} {c : Cursor} :
    (functionSignature isExported isDefault name? c).Lays c FunctionHead.outerNodes := by
  rw [functionSignature]
  apply expectMark_lays.andThen
  rintro _ c₁ _ ⟨_, opened, -⟩
  apply ((params_lays c₁).past opened).andMaybe
  rintro list c₂ _ ⟨_, passed, listed⟩
  apply (optionalType_takes c₂).map
  rintro returns? next ⟨_, after, typed⟩
  exact ⟨_, passed.trans after, listed.append typed.laid⟩

theorem functionHead_lays {isExported isDefault : Bool} {c : Cursor} :
    (functionHead isExported isDefault c).Lays c FunctionHead.outerNodes := by
  rw [functionHead]
  split
  next named =>
    obtain ⟨_, -, passed⟩ := passes_of_take? named
    apply Reading.Ensures.past
    exact functionSignature_lays.past passed
  · split
    · exact functionSignature_lays
    · trivial

theorem interfaceDecl_lays {isExported : Bool} {c : Cursor} :
    (interfaceDecl isExported c).Lays c fun decl =>
      decl.members.map fun member => .writtenType member.type := by
  rw [interfaceDecl]
  apply expectName_lays.andThen
  rintro name c₁ _ ⟨_, named, -⟩
  apply (expectMark_lays.past named).andThen
  rintro _ c₂ _ ⟨_, opened, -⟩
  apply (members_takes c₂).map
  rintro list next ⟨_, passed, ts, closing, rfl, written⟩
  exact ⟨_, opened.trans passed, (written.laid.after [_]).before _⟩

theorem aliasDecl_lays {isExported : Bool} {c : Cursor} :
    (aliasDecl isExported c).Lays c fun decl => [.writtenType decl.type] := by
  rw [aliasDecl]
  apply expectName_lays.andThen
  rintro name c₁ _ ⟨_, named, -⟩
  apply expectOperator_ensures.andThen
  rintro _ c₂ _ assigned
  apply (typeExpr_takes c₂).map
  rintro type next ⟨_, passed, written⟩
  exact ⟨_, named.trans (assigned.trans passed), ((Laid.one (.writtenType written)).before _).before _⟩

theorem declarators_lays {c : Cursor} (lexical : Lexical c.rest) :
    (declarators c).Lays c fun list => list.map .declarator := by
  rw [declarators]
  apply expectName_ensures.andMaybe
  intro name c₁ _ named
  apply (optionalType_takes c₁).andMaybe
  rintro type? c₂ _ ⟨ts, annotated, typed⟩
  have passed := named.trans annotated
  apply (optionalValue_takes (passed.lexical lexical)).andMaybe
  rintro initializer? c₃ _ ⟨us, assigned, valued⟩
  have passed : c.Passes (.mk _ _ :: (ts ++ us)) c₃ := named.trans (annotated.trans assigned)
  have first : Node.WrittenBy (.declarator ⟨spanOf _, name, type?, initializer?⟩) _ :=
    .declarator rfl typed valued
  rw [← passed.spanFrom_eq (by simp), named.start_eq] at first
  dsimp only
  split
  next c₄ _ comma =>
    have before : c.Passes _ c₄ := passed.trans (passes_of_mark? comma)
    apply Reading.Ensures.pastOptional
    apply ((declarators_lays (before.lexical lexical)).following before
      ((Laid.one first).after [_])).map
    exact fun _ => rfl
  · exact ⟨_, passed, .one first⟩
termination_by c.size

theorem loopStart_lays {c : Cursor} (lexical : Lexical c.rest) :
    (loopStart c).Lays c LoopStart.outerNodes := by
  rw [loopStart]
  split
  · exact ⟨[], .nil c, .nil⟩
  split
  next keyword =>
    obtain ⟨_, -, passed⟩ := passes_of_take? keyword
    apply Reading.Ensures.pastOptional
    exact ((declarators_lays (passed.lexical lexical)).past passed).mapAt fun _ _ => rfl
  · apply Reading.Ensures.loosen
    exact (expression_lays lexical).map fun _ => rfl

theorem loopClauses_lays {c : Cursor} (lexical : Lexical c.rest) :
    (loopClauses c).Lays c LoopClauses.outerNodes := by
  rw [loopClauses]
  apply expectMark_lays.andMaybe
  rintro _ c₁ _ ⟨_, passed, -⟩
  apply ((loopStart_lays (passed.lexical lexical)).past passed).andThen
  rintro start c₂ _ ⟨_, passed, first⟩
  apply (expectMark_lays.following passed first).andMaybe
  rintro _ c₃ _ ⟨_, passed, first⟩
  rw [List.append_nil] at first
  apply ((optionalExpression_lays (passed.lexical lexical)).following passed first).andThen
  rintro condition? c₄ _ ⟨_, passed, second⟩
  apply (expectMark_lays.following passed second).andMaybe
  rintro _ c₅ _ ⟨_, passed, second⟩
  rw [List.append_nil] at second
  apply ((optionalExpression_lays (passed.lexical lexical)).following passed second).andThen
  rintro step? c₆ _ ⟨_, passed, third⟩
  apply (expectMark_lays.following passed third).map
  intro _
  rw [List.append_nil]
  exact (List.append_assoc ..).symm

theorem condition_lays {word : Keyword} {c : Cursor} (lexical : Lexical c.rest) :
    (condition word c).Lays c fun e => [.expression e] := by
  rw [condition]
  apply expectMark_lays.andThen
  rintro _ c₁ _ ⟨_, passed, -⟩
  apply ((expression_lays (passed.lexical lexical)).past passed).andThen
  rintro value c₂ _ ⟨_, passed, laid⟩
  exact (expectMark_lays.following passed laid).map fun _ => rfl

theorem returnValue_lays {c : Cursor} (lexical : Lexical c.rest) :
    (returnValue c).Lays c Node.ofExpr? := by
  rw [returnValue]
  split
  · exact ⟨[], .nil c, .nil⟩
  · exact optionalExpression_lays lexical

mutual

theorem statement_lays {c : Cursor} (lexical : Lexical c.rest) :
    (statement c).Lays c Statement.outerNodes := by
  rw [statement]
  split
  next c₁ _ _ found =>
    have passed : c.Passes _ c₁ := passes_of_next? found
    apply Reading.Ensures.past
    exact ((importDecl_lays c₁).thenSemicolon.past passed).mapAt fun _ _ => rfl
  next c₁ _ _ found =>
    have passed : c.Passes _ c₁ := passes_of_next? found
    apply Reading.Ensures.past
    exact (exported_lays (passed.lexical lexical)).past passed
  next c₁ _ _ found =>
    have passed : c.Passes _ c₁ := passes_of_next? found
    apply Reading.Ensures.past
    exact (function_lays (passed.lexical lexical)).past passed
  next found =>
    apply Reading.Ensures.past
    exact (interfaceDecl_lays.past (passes_of_next? found)).mapAt fun _ _ => rfl
  next found =>
    apply Reading.Ensures.past
    exact (aliasDecl_lays.thenSemicolon.past (passes_of_next? found)).mapAt fun _ _ => rfl
  next c₁ _ _ found =>
    have passed : c.Passes _ c₁ := passes_of_next? found
    apply Reading.Ensures.past
    apply ((loopClauses_lays (passed.lexical lexical)).past passed).andThen
    rintro clauses c₂ _ ⟨_, passed, first⟩
    have passed : c.Passes _ c₂ := passed
    exact ((statement_lays (passed.lexical lexical)).following passed first).mapAt fun _ _ => rfl
  next c₁ _ _ found =>
    have passed : c.Passes _ c₁ := passes_of_next? found
    apply Reading.Ensures.weaken
    exact ((returnValue_lays (passed.lexical lexical)).thenSemicolon.past passed).mapAt fun _ _ => rfl
  next c₁ _ _ found =>
    have passed : c.Passes _ c₁ := passes_of_next? found
    apply Reading.Ensures.past
    apply ((condition_lays (passed.lexical lexical)).past passed).andThen
    rintro test c₂ _ ⟨_, passed, first⟩
    have passed : c.Passes _ c₂ := passed
    apply ((statement_lays (passed.lexical lexical)).following passed first).andMaybe
    rintro thenBranch c₃ _ ⟨_, passed, second⟩
    split
    next c₄ _ taken =>
      have passed : c.Passes _ c₄ := passed.trans (passes_of_word? taken)
      apply Reading.Ensures.pastOptional
      apply ((statement_lays (passed.lexical lexical)).following passed (second.after _)).mapAt
      intro elseBranch _
      rw [List.append_assoc]
      rfl
    · exact ⟨_, passed, second⟩
  next c₁ _ _ found =>
    have passed : c.Passes _ c₁ := passes_of_next? found
    apply Reading.Ensures.past
    apply ((condition_lays (passed.lexical lexical)).past passed).andThen
    rintro test c₂ _ ⟨_, passed, first⟩
    have passed : c.Passes _ c₂ := passed
    exact ((statement_lays (passed.lexical lexical)).following passed first).mapAt fun _ _ => rfl
  next c₁ _ _ found =>
    have passed : c.Passes _ c₁ := passes_of_next? found
    apply Reading.Ensures.past
    apply ((statement_lays (passed.lexical lexical)).past passed).andThen
    rintro body c₂ _ ⟨_, passed, first⟩
    apply (expectWord_lays.following passed first).andThen
    rintro _ c₃ _ ⟨_, passed, first⟩
    rw [List.append_nil] at first
    apply ((condition_lays (passed.lexical lexical)).thenSemicolon.following passed first).mapAt
    exact fun _ _ => rfl
  next c₁ _ _ found =>
    have passed : c.Passes _ c₁ := passes_of_next? found
    apply Reading.Ensures.past
    exact ((statements_lays (passed.lexical lexical)).past passed).mapAt fun _ _ => rfl
  next found => exact ⟨_, passes_of_next? found, .nil⟩
  · split
    next c₁ _ taken =>
      obtain ⟨_, -, passed⟩ := passes_of_take? taken
      have passed : c.Passes _ c₁ := passed
      apply Reading.Ensures.past
      apply ((declarators_lays (passed.lexical lexical)).thenSemicolon.past passed).mapAt
      exact fun _ _ => rfl
    · exact (expression_lays lexical).thenSemicolon.mapAt fun _ _ => rfl
termination_by 16 * c.size

theorem statements_lays {c : Cursor} (lexical : Lexical c.rest) :
    (statements c).Lays c Statement.allOuterNodes := by
  rw [statements]
  split
  · exact expectMark_lays.map fun _ => rfl
  · apply (statement_lays lexical).andThen
    rintro first c₁ _ ⟨_, passed, laid⟩
    have passed : c.Passes _ c₁ := passed
    exact ((statements_lays (passed.lexical lexical)).following passed laid).map fun _ => rfl
termination_by 16 * c.size + 1

theorem function_lays {start : Nat} {isExported isDefault : Bool} {c : Cursor}
    (lexical : Lexical c.rest) :
    (function start isExported isDefault c).Lays c Statement.outerNodes := by
  rw [function]
  apply functionHead_lays.andMaybe
  rintro head c₁ _ ⟨_, passed, headed⟩
  split
  next c₂ _ opened =>
    have passed : c.Passes _ c₂ := passed.trans (passes_of_mark? opened)
    apply Reading.Ensures.pastOptional
    apply ((statements_lays (passed.lexical lexical)).following passed (headed.after _)).mapAt
    exact fun _ _ => rfl
  · have read : (Reading.stay head c₁).Lays c FunctionHead.outerNodes := ⟨_, passed, headed⟩
    exact read.thenSemicolon.mapAt fun _ _ => rfl
termination_by 16 * c.size

theorem exported_lays {start : Nat} {c : Cursor} (lexical : Lexical c.rest) :
    (exported start c).Lays c Statement.outerNodes := by
  rw [exported]
  split
  next c₁ _ byDefault =>
    have passed : c.Passes _ c₁ := passes_of_word? byDefault
    split
    next c₂ _ word =>
      have passed : c.Passes _ c₂ := passed.trans (passes_of_word? word)
      apply Reading.Ensures.past
      apply Reading.Ensures.past
      exact (function_lays (passed.lexical lexical)).past passed
    · trivial
  split
  next c₁ _ _ found =>
    have passed : c.Passes _ c₁ := passes_of_next? found
    apply Reading.Ensures.past
    exact (function_lays (passed.lexical lexical)).past passed
  next found =>
    apply Reading.Ensures.past
    exact (interfaceDecl_lays.past (passes_of_next? found)).mapAt fun _ _ => rfl
  next found =>
    apply Reading.Ensures.past
    exact (aliasDecl_lays.thenSemicolon.past (passes_of_next? found)).mapAt fun _ _ => rfl
  · trivial
termination_by 16 * c.size

end

/-- Unless an error is found, all tokens are read. -/
theorem program_laid {c : Cursor} (lexical : Lexical c.rest) (clean : (program c).errors = []) :
    ∃ taken last, c.Passes taken last ∧ last.atEnd = true ∧
      Laid Node.WrittenBy (Statement.allOuterNodes (program c).statements) taken := by
  fun_induction program c with
  | case1 c atEnd => exact ⟨[], c, .nil c, atEnd, .nil⟩
  | case2 c _ first next shorter read others ih =>
    have good := statement_lays lexical
    rw [read] at good
    obtain ⟨taken, passed, laid⟩ := good
    obtain ⟨more, last, after, atEnd, later⟩ := ih (passed.lexical lexical) clean
    exact ⟨_, last, passed.trans after, atEnd, laid.append later⟩
  | case3 => cases clean
  | case4 => cases clean

end Grammar

/-- The tokens of a program, up to the end of the text, write its nodes one after the other. -/
theorem Program.laid_ofTokens {tokens : List Token} {program : Program} (lexical : Lexical tokens)
    (ends : EndsOnce tokens) (h : Program.ofTokens tokens = .ok program) :
    ∃ front stop, tokens = front ++ [.mk .eof stop] ∧
      Laid Node.WrittenBy program.outerNodes front := by
  obtain ⟨start, opened, read⟩ := Program.ofTokens_eq_ok_iff.1 h
  obtain rfl := Cursor.rest_of_ofTokens? opened
  obtain ⟨taken, last, passed, atEnd, laid⟩ := Grammar.program_laid lexical (by rw [read])
  obtain ⟨stop, whole⟩ := Cursor.tokens_of_atEnd passed atEnd ends
  rw [read] at laid
  exact ⟨taken, stop, whole, laid⟩

end ScriptToGo
