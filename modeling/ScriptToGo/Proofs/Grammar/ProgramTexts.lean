import ScriptToGo.Proofs.Grammar.WrittenProgram
import ScriptToGo.Proofs.Program.Texts
import ScriptToGo.Proofs.Token.Alphabet

/-! The texts of a program are those that its tokens keep, and reading it takes over no others. -/
namespace ScriptToGo

section

variable {Good : String → Prop} {token : Token} {first second : List Token}

@[simp] theorem textsOf_append :
    TextsOf Good (first ++ second) ↔ TextsOf Good first ∧ TextsOf Good second := by
  rw [TextsOf, allTokens_append, List.forall_mem_append]
  rfl

@[simp] theorem textsOf_cons :
    TextsOf Good (token :: first) ↔ token.kind.AllTexts Good ∧
      (∀ inner ∈ token.kind.inner, inner.kind.AllTexts Good) ∧ TextsOf Good first := by
  obtain ⟨kind, span⟩ := token
  rw [TextsOf, allTokens, Token.all, List.cons_append, List.forall_mem_cons,
    List.forall_mem_append]
  rfl

theorem TextsOf.head (h : TextsOf Good (token :: first)) : token.kind.AllTexts Good :=
  (textsOf_cons.1 h).1

theorem TextsOf.tail (h : TextsOf Good (token :: first)) : TextsOf Good first :=
  (textsOf_cons.1 h).2.2

theorem TextsOf.inside {holes : List Hole} (h : ∀ inner ∈ innerTokens holes,
    inner.kind.AllTexts Good) : ∀ hole ∈ holes, TextsOf Good hole.tokens :=
  fun hole mem token among => h token (mem_innerTokens.2 ⟨hole, mem, among⟩)

/-- What a name of a property says may be a reserved word, which is good as well. -/
theorem TokenKind.AllTexts.of_wordKind {name : String} (h : (wordKind name).AllTexts Good) :
    Good name := by
  rw [wordKind] at h
  split at h
  next word found =>
    have spelled : word.spelling = name :=
      eq_of_beq (List.find?_some (p := fun word : Keyword => word.spelling == name) found)
    exact spelled ▸ h
  · exact h

end

section

variable {Good : String → Prop}

mutual

theorem TypeExpr.WrittenBy.allTexts (signs : IgnoresSign Good) {type : TypeExpr} {ts : List Token}
    (h : TypeExpr.WrittenBy type ts) (good : TextsOf Good ts) : type.AllTexts Good := by
  match h with
  | .named => exact ⟨good.head, trivial⟩
  | .generic whole args =>
    subst whole
    simp only [textsOf_cons, textsOf_append] at good
    exact ⟨good.1, TypeExpr.ArgsWrittenBy.allTexts signs args good.2.2.2.2.1⟩
  | .string => exact good.head
  | .number => exact good.head
  | .negative whole =>
    subst whole
    exact (signs _).2 good.tail.head
  | .trueWord _ | .falseWord _ | .null _ => trivial
  | .object whole members =>
    subst whole
    simp only [textsOf_cons, textsOf_append] at good
    exact Member.ListWrittenBy.allTexts signs members good.2.2.1
  | .paren whole inner =>
    subst whole
    simp only [textsOf_cons, textsOf_append] at good
    exact (TypeExpr.allTexts_withSpan _ _).2 (TypeExpr.WrittenBy.allTexts signs inner good.2.2.1)
  | .array whole element =>
    subst whole
    exact (TypeExpr.WrittenBy.allTexts signs element (textsOf_append.1 good).1 :)

theorem TypeExpr.ArgsWrittenBy.allTexts (signs : IgnoresSign Good) {args : List TypeExpr}
    {ts : List Token} (h : TypeExpr.ArgsWrittenBy args ts) (good : TextsOf Good ts) :
    TypeExpr.AllTextsOf Good args := by
  match h with
  | .last type => exact ⟨TypeExpr.WrittenBy.allTexts signs type good, trivial⟩
  | .cons type rest =>
    obtain ⟨here, others⟩ := textsOf_append.1 good
    exact ⟨TypeExpr.WrittenBy.allTexts signs type here,
      TypeExpr.ArgsWrittenBy.allTexts signs rest others.tail⟩

theorem Member.WrittenBy.allTexts (signs : IgnoresSign Good) {member : Member} {ts : List Token}
    (h : Member.WrittenBy member ts) (good : TextsOf Good ts) :
    Good member.name ∧ member.type.AllTexts Good := by
  match h with
  | .required whole type =>
    subst whole
    exact ⟨good.head, TypeExpr.WrittenBy.allTexts signs type good.tail.tail⟩
  | .optional whole type =>
    subst whole
    exact ⟨good.head, TypeExpr.WrittenBy.allTexts signs type good.tail.tail.tail⟩

theorem Member.ListWrittenBy.allTexts (signs : IgnoresSign Good) {list : List Member}
    {ts : List Token} (h : Member.ListWrittenBy list ts) (good : TextsOf Good ts) :
    Member.AllTextsOf Good list := by
  match h with
  | .nil => trivial
  | @Member.ListWrittenBy.last (.mk ..) _ member =>
    obtain ⟨name, type⟩ := Member.WrittenBy.allTexts signs member good
    exact ⟨name, type, trivial⟩
  | @Member.ListWrittenBy.cons (.mk ..) _ _ _ _ _ _ member rest =>
    obtain ⟨here, others⟩ := textsOf_append.1 good
    obtain ⟨name, type⟩ := Member.WrittenBy.allTexts signs member here
    exact ⟨name, type, Member.ListWrittenBy.allTexts signs rest others.tail⟩

end

mutual

theorem Expr.WrittenBy.allTexts (signs : IgnoresSign Good) {e : Expr} {ts : List Token}
    (h : Expr.WrittenBy e ts) (good : TextsOf Good ts) : e.AllTexts Good := by
  match h with
  | .array whole elements =>
    subst whole
    simp only [textsOf_cons, textsOf_append] at good
    exact Expr.ListWrittenBy.allTexts signs elements good.2.2.1
  | .cast operand type =>
    simp only [textsOf_cons, textsOf_append] at good
    exact ⟨Expr.WrittenBy.allTexts signs operand good.1, type.allTexts signs good.2.2.2⟩
  | .binary left right =>
    simp only [textsOf_cons, textsOf_append] at good
    exact ⟨Expr.WrittenBy.allTexts signs left good.1,
      Expr.WrittenBy.allTexts signs right good.2.2.2⟩
  | .call callee args =>
    simp only [textsOf_cons, textsOf_append] at good
    exact ⟨Expr.WrittenBy.allTexts signs callee good.1,
      Expr.ListWrittenBy.allTexts signs args good.2.2.2.1⟩
  | .conditional condition whenTrue whenFalse =>
    simp only [textsOf_cons, textsOf_append] at good
    exact ⟨Expr.WrittenBy.allTexts signs condition good.1,
      Expr.WrittenBy.allTexts signs whenTrue good.2.2.2.1,
      Expr.WrittenBy.allTexts signs whenFalse good.2.2.2.2.2.2⟩
  | .index object index =>
    simp only [textsOf_cons, textsOf_append] at good
    exact ⟨Expr.WrittenBy.allTexts signs object good.1,
      Expr.WrittenBy.allTexts signs index good.2.2.2.1⟩
  | .ident => exact good.head
  | .number => exact good.head
  | .string => exact good.head
  | .object whole properties =>
    subst whole
    simp only [textsOf_cons, textsOf_append] at good
    exact Property.ListWrittenBy.allTexts signs properties good.2.2.1
  | .paren whole inner =>
    subst whole
    simp only [textsOf_cons, textsOf_append] at good
    exact (Expr.WrittenBy.allTexts signs inner good.2.2.1 :)
  | .leading operand => exact (Expr.WrittenBy.allTexts signs operand good.tail :)
  | .trailing operand => exact (Expr.WrittenBy.allTexts signs operand (textsOf_append.1 good).1 :)
  | .member object =>
    obtain ⟨before, after⟩ := textsOf_append.1 good
    exact ⟨Expr.WrittenBy.allTexts signs object before,
      TokenKind.AllTexts.of_wordKind after.tail.head⟩
  | .template holes =>
    obtain ⟨⟨head, texts⟩, inside, -⟩ := textsOf_cons.1 good
    exact ⟨head, TemplateHole.ListWrittenBy.allTexts signs holes texts (.inside inside)⟩
  | .trueWord _ | .falseWord _ | .null _ => trivial

theorem Expr.ListWrittenBy.allTexts (signs : IgnoresSign Good) {list : List Expr} {ts : List Token}
    (h : Expr.ListWrittenBy list ts) (good : TextsOf Good ts) : Expr.AllTextsOf Good list := by
  match h with
  | .nil => trivial
  | .last e => exact ⟨Expr.WrittenBy.allTexts signs e good, trivial⟩
  | .cons e rest =>
    obtain ⟨here, others⟩ := textsOf_append.1 good
    exact ⟨Expr.WrittenBy.allTexts signs e here,
      Expr.ListWrittenBy.allTexts signs rest others.tail⟩

theorem Property.WrittenBy.allTexts (signs : IgnoresSign Good) {p : Property} {ts : List Token}
    (h : Property.WrittenBy p ts) (good : TextsOf Good ts) : Property.AllTextsOf Good [p] := by
  match h with
  | .assign whole value =>
    subst whole
    exact ⟨good.head, Expr.WrittenBy.allTexts signs value good.tail.tail, trivial⟩
  | .shorthand => exact ⟨good.head, trivial⟩
  | .spread whole value =>
    subst whole
    exact ⟨Expr.WrittenBy.allTexts signs value good.tail, trivial⟩

theorem Property.ListWrittenBy.allTexts (signs : IgnoresSign Good) {list : List Property}
    {ts : List Token} (h : Property.ListWrittenBy list ts) (good : TextsOf Good ts) :
    Property.AllTextsOf Good list := by
  match h with
  | .nil => trivial
  | .last p => exact Property.WrittenBy.allTexts signs p good
  | .cons p rest =>
    obtain ⟨here, others⟩ := textsOf_append.1 good
    exact (Property.allTextsOf_cons ..).2 ⟨Property.WrittenBy.allTexts signs p here,
      Property.ListWrittenBy.allTexts signs rest others.tail⟩

theorem TemplateHole.ListWrittenBy.allTexts (signs : IgnoresSign Good) {list : List TemplateHole}
    {holes : List Hole} (h : TemplateHole.ListWrittenBy list holes)
    (texts : ∀ hole ∈ holes, Good hole.after) (inside : ∀ hole ∈ holes, TextsOf Good hole.tokens) :
    TemplateHole.AllTextsOf Good list := by
  match h with
  | .nil => trivial
  | .cons value rest =>
    obtain ⟨after, laterTexts⟩ := List.forall_mem_cons.1 texts
    obtain ⟨tokens, laterTokens⟩ := List.forall_mem_cons.1 inside
    exact ⟨Expr.WrittenBy.allTexts signs value (textsOf_append.1 tokens).1, after,
      TemplateHole.ListWrittenBy.allTexts signs rest laterTexts laterTokens⟩

end

theorem TypeExpr.OptionallyWrittenBy.allTexts (signs : IgnoresSign Good) {type? : Option TypeExpr}
    {ts : List Token} (h : OptionallyWrittenBy type? ts) (good : TextsOf Good ts) :
    ∀ type ∈ type?, type.AllTexts Good := by
  cases h with
  | none => nofun
  | some written =>
    rintro _ ⟨⟩
    exact written.allTexts signs good.tail

theorem Expr.OptionallyWrittenBy.allTexts (signs : IgnoresSign Good) {e? : Option Expr}
    {ts : List Token} (h : OptionallyWrittenBy e? ts) (good : TextsOf Good ts) :
    ∀ e ∈ e?, e.AllTexts Good := by
  cases h with
  | none => nofun
  | some written =>
    rintro _ ⟨⟩
    exact written.allTexts signs good.tail

end

/-- The tokens that are left were cut from a text, and all texts in them are good. -/
structure Cursor.Carries (Good : String → Prop) (c : Cursor) : Prop where
  lexical : Lexical c.rest
  texts : TextsOf Good c.rest

/-- What is read is fine, and so are the tokens that are left. -/
def Reading.Brings {α : Type} {n : Nat} (Good : String → Prop) (Fine : α → Prop)
    (r : Reading α n) : Prop :=
  r.Ensures fun value next => Fine value ∧ next.Carries Good

section

variable {Good : String → Prop} {α β : Type} {m n : Nat} {c next : Cursor} {taken : List Token}

theorem Cursor.Carries.onward (h : c.Carries Good) (passed : c.Passes taken next) :
    next.Carries Good := by
  obtain ⟨lexical, texts⟩ := h
  rw [passed.rest] at lexical texts
  exact ⟨(lexical_append.1 lexical).2, (textsOf_append.1 texts).2⟩

theorem Cursor.Carries.passed (h : c.Carries Good) (passed : c.Passes taken next) :
    TextsOf Good taken := by
  have texts := h.texts
  rw [passed.rest] at texts
  exact (textsOf_append.1 texts).1

namespace Reading

variable {Fine : α → Prop} {Right : β → Prop}

theorem Brings.of_takes {Written : α → List Token → Prop} {r : Reading α n}
    (h : r.Takes c Written) (carries : c.Carries Good)
    (fine : ∀ value ts, Written value ts → TextsOf Good ts → Fine value) : r.Brings Good Fine := by
  apply Ensures.mono h
  rintro value next ⟨taken, passed, written⟩
  exact ⟨fine value taken written (carries.passed passed), carries.onward passed⟩

theorem Brings.mapAt {f : α → Cursor → β} {r : Reading α n} (h : r.Brings Good Fine)
    (keeps : ∀ value next, Fine value → Right (f value next)) : (r.mapAt f).Brings Good Right :=
  Ensures.mapAt h fun value next good => ⟨keeps value next good.1, good.2⟩

theorem Brings.map {f : α → β} {r : Reading α n} (h : r.Brings Good Fine)
    (keeps : ∀ value, Fine value → Right (f value)) : (r.map f).Brings Good Right :=
  Brings.mapAt h fun value _ => keeps value

theorem Brings.andMaybe {r : Reading α m} (h : r.Brings Good Fine)
    {more : (value : α) → (next : Cursor) → next.size < m → Reading β (next.size + 1)}
    (others : ∀ value next shorter, Fine value → next.Carries Good →
      (more value next shorter).Brings Good Right) : (r.andMaybe more).Brings Good Right :=
  Ensures.andMaybe h fun value next shorter good => others value next shorter good.1 good.2

theorem Brings.andThen {r : Reading α m} (h : r.Brings Good Fine)
    {more : (value : α) → (next : Cursor) → next.size < m → Reading β next.size}
    (others : ∀ value next shorter, Fine value → next.Carries Good →
      (more value next shorter).Brings Good Right) : (r.andThen more).Brings Good Right :=
  Ensures.andThen h fun value next shorter good => others value next shorter good.1 good.2

theorem Brings.thenSemicolon {r : Reading α n} (h : r.Brings Good Fine) :
    r.thenSemicolon.Brings Good Fine := by
  cases r with
  | fail error place within => trivial
  | ok value next shorter =>
    obtain ⟨fine, carries⟩ := h
    rcases next.passes_skipMark .semicolon with ⟨_, -, passed⟩ | ⟨-, passed⟩
    · exact ⟨fine, carries.onward passed⟩
    · exact ⟨fine, carries.onward passed⟩

end Reading

end

namespace Grammar
open Cursor

variable {Good : String → Prop} {c : Cursor}

theorem expect_brings (carries : c.Carries Good) {α : Type} {test : TokenKind → Option α}
    {wanted : String} : (c.expect test wanted).Brings Good fun _ => True :=
  expect_ensures.mono fun _ _ ⟨_, _, passed⟩ => ⟨trivial, carries.onward passed⟩

theorem expectMark_brings (carries : c.Carries Good) {mark : Punctuation} {wanted : String} :
    (c.expectMark mark wanted).Brings Good fun _ => True :=
  (expect_brings carries).map fun _ _ => trivial

theorem expectWord_brings (carries : c.Carries Good) {word : Keyword} {wanted : String} :
    (c.expectWord word wanted).Brings Good fun _ => True :=
  (expect_brings carries).map fun _ _ => trivial

theorem expectOperator_brings (carries : c.Carries Good) {op : Operator} {wanted : String} :
    (c.expectOperator op wanted).Brings Good fun _ => True :=
  (expect_brings carries).map fun _ _ => trivial

theorem expectName_brings (carries : c.Carries Good) {wanted : String} :
    (c.expectName wanted).Brings Good fun name => Good name.text :=
  expectName_ensures.mono fun _ _ passed => ⟨(carries.passed passed).head, carries.onward passed⟩

theorem expression_brings (signs : IgnoresSign Good) (carries : c.Carries Good) :
    (expression c).Brings Good (Expr.AllTexts Good) :=
  .of_takes (expression_takes carries.lexical) carries fun _ _ written => written.allTexts signs

theorem optionalType_brings (signs : IgnoresSign Good) (carries : c.Carries Good) :
    (optionalType c).Brings Good fun type? => ∀ type ∈ type?, type.AllTexts Good :=
  .of_takes (optionalType_takes c) carries fun _ _ written => written.allTexts signs

theorem optionalValue_brings (signs : IgnoresSign Good) (carries : c.Carries Good) :
    (optionalValue c).Brings Good fun e? => ∀ e ∈ e?, e.AllTexts Good :=
  .of_takes (optionalValue_takes carries.lexical) carries fun _ _ written => written.allTexts signs

theorem optionalExpression_brings (signs : IgnoresSign Good) {absent : Punctuation}
    (carries : c.Carries Good) :
    (optionalExpression absent c).Brings Good fun e? => ∀ e ∈ e?, e.AllTexts Good := by
  rw [optionalExpression]
  split
  · exact ⟨by simp, carries⟩
  · apply Reading.Ensures.loosen
    apply (expression_brings signs carries).map
    rintro e good _ ⟨⟩
    exact good

/-- An import takes its tokens, and what it says does not matter here. -/
theorem importDecl_brings (carries : c.Carries Good) :
    (importDecl c).Brings Good fun _ => True :=
  .of_takes (importDecl_lays c) carries fun _ _ _ _ => trivial

theorem params_brings (signs : IgnoresSign Good) {c : Cursor} (carries : c.Carries Good) :
    (params c).Brings Good fun list => ∀ p ∈ list, p.AllTexts Good := by
  rw [params]
  split
  next closed => exact ⟨List.forall_mem_nil _, carries.onward (passes_of_mark? closed)⟩
  · apply (expectName_brings carries).andMaybe
    intro name c₁ _ named carries
    apply (optionalType_brings signs carries).andThen
    intro type? c₂ _ typed carries
    dsimp only
    split
    next comma =>
      apply Reading.Ensures.past
      apply (params_brings signs (carries.onward (passes_of_mark? comma))).map
      exact fun rest others => List.forall_mem_cons.2 ⟨⟨named, typed⟩, others⟩
    · apply (expectMark_brings carries).map
      exact fun _ _ => List.forall_mem_singleton.2 ⟨named, typed⟩
termination_by c.size

theorem functionSignature_brings (signs : IgnoresSign Good) {isExported isDefault : Bool}
    {name? : Option Name} (named : ∀ name ∈ name?, Good name.text) (carries : c.Carries Good) :
    (functionSignature isExported isDefault name? c).Brings Good (FunctionHead.AllTexts Good) := by
  rw [functionSignature]
  apply (expectMark_brings carries).andThen
  intro _ c₁ _ _ carries
  apply (params_brings signs carries).andMaybe
  intro list c₂ _ listed carries
  apply (optionalType_brings signs carries).map
  exact fun returns? returned => ⟨named, listed, returned⟩

theorem functionHead_brings (signs : IgnoresSign Good) {isExported isDefault : Bool}
    (carries : c.Carries Good) :
    (functionHead isExported isDefault c).Brings Good (FunctionHead.AllTexts Good) := by
  rw [functionHead]
  split
  next named =>
    obtain ⟨kind, accepted, passed⟩ := passes_of_take? named
    apply Reading.Ensures.past
    apply functionSignature_brings signs _ (carries.onward passed)
    rintro _ ⟨⟩
    cases kind with
    | ident text =>
      cases accepted
      exact (carries.passed passed).head
    | _ => cases accepted
  · split
    · exact functionSignature_brings signs (by simp) carries
    · trivial

theorem interfaceDecl_brings (signs : IgnoresSign Good) {isExported : Bool}
    (carries : c.Carries Good) :
    (interfaceDecl isExported c).Brings Good fun decl =>
      Good decl.name.text ∧ Member.AllTextsOf Good decl.members := by
  rw [interfaceDecl]
  apply (expectName_brings carries).andThen
  intro name c₁ _ named carries
  apply (expectMark_brings carries).andThen
  intro _ c₂ _ _ carries
  have members : (members c₂).Brings Good (Member.AllTextsOf Good) := by
    apply Reading.Brings.of_takes (members_takes c₂) carries
    rintro list _ ⟨_, _, rfl, written⟩ good
    exact written.allTexts signs (textsOf_append.1 good).1
  exact members.map fun _ good => ⟨named, good⟩

theorem aliasDecl_brings (signs : IgnoresSign Good) {isExported : Bool} (carries : c.Carries Good) :
    (aliasDecl isExported c).Brings Good fun decl =>
      Good decl.name.text ∧ decl.type.AllTexts Good := by
  rw [aliasDecl]
  apply (expectName_brings carries).andThen
  intro name c₁ _ named carries
  apply (expectOperator_brings carries).andThen
  intro _ c₂ _ _ carries
  have type : (typeExpr c₂).Brings Good (TypeExpr.AllTexts Good) :=
    .of_takes (typeExpr_takes c₂) carries fun _ _ written => written.allTexts signs
  exact type.map fun _ good => ⟨named, good⟩

theorem declarators_brings (signs : IgnoresSign Good) {c : Cursor} (carries : c.Carries Good) :
    (declarators c).Brings Good fun list => ∀ d ∈ list, d.AllTexts Good := by
  rw [declarators]
  apply (expectName_brings carries).andMaybe
  intro name c₁ _ named carries
  apply (optionalType_brings signs carries).andMaybe
  intro type? c₂ _ typed carries
  apply (optionalValue_brings signs carries).andMaybe
  intro initializer? c₃ _ valued carries
  dsimp only
  split
  next comma =>
    apply Reading.Ensures.pastOptional
    apply (declarators_brings signs (carries.onward (passes_of_mark? comma))).map
    exact fun rest others => List.forall_mem_cons.2 ⟨⟨named, typed, valued⟩, others⟩
  · exact ⟨List.forall_mem_singleton.2 ⟨named, typed, valued⟩, carries⟩
termination_by c.size

theorem loopStart_brings (signs : IgnoresSign Good) (carries : c.Carries Good) :
    (loopStart c).Brings Good (LoopStart.AllTexts Good) := by
  rw [loopStart]
  split
  · exact ⟨trivial, carries⟩
  split
  next keyword =>
    obtain ⟨_, -, passed⟩ := passes_of_take? keyword
    apply Reading.Ensures.pastOptional
    exact (declarators_brings signs (carries.onward passed)).mapAt fun _ _ good => good
  · apply Reading.Ensures.loosen
    exact (expression_brings signs carries).map fun _ good => good

theorem loopClauses_brings (signs : IgnoresSign Good) (carries : c.Carries Good) :
    (loopClauses c).Brings Good (LoopClauses.AllTexts Good) := by
  rw [loopClauses]
  apply (expectMark_brings carries).andMaybe
  intro _ c₁ _ _ carries
  apply (loopStart_brings signs carries).andThen
  intro start c₂ _ started carries
  apply (expectMark_brings carries).andMaybe
  intro _ c₃ _ _ carries
  apply (optionalExpression_brings signs carries).andThen
  intro condition? c₄ _ conditioned carries
  apply (expectMark_brings carries).andMaybe
  intro _ c₅ _ _ carries
  apply (optionalExpression_brings signs carries).andThen
  intro step? c₆ _ stepped carries
  exact (expectMark_brings carries).map fun _ _ => ⟨started, conditioned, stepped⟩

theorem condition_brings (signs : IgnoresSign Good) {word : Keyword} (carries : c.Carries Good) :
    (condition word c).Brings Good (Expr.AllTexts Good) := by
  rw [condition]
  apply (expectMark_brings carries).andThen
  intro _ c₁ _ _ carries
  apply (expression_brings signs carries).andThen
  intro value c₂ _ good carries
  exact (expectMark_brings carries).map fun _ _ => good

theorem returnValue_brings (signs : IgnoresSign Good) (carries : c.Carries Good) :
    (returnValue c).Brings Good fun e? => ∀ e ∈ e?, e.AllTexts Good := by
  rw [returnValue]
  split
  · exact ⟨by simp, carries⟩
  · exact optionalExpression_brings signs carries

mutual

theorem statement_brings (signs : IgnoresSign Good) {c : Cursor} (carries : c.Carries Good) :
    (statement c).Brings Good (Statement.AllTexts Good) := by
  rw [statement]
  split
  next found =>
    apply Reading.Ensures.past
    apply (importDecl_brings (carries.onward (passes_of_next? found))).thenSemicolon.mapAt
    exact fun _ _ _ => trivial
  next found =>
    apply Reading.Ensures.past
    exact exported_brings signs (carries.onward (passes_of_next? found))
  next found =>
    apply Reading.Ensures.past
    exact function_brings signs (carries.onward (passes_of_next? found))
  next found =>
    apply Reading.Ensures.past
    apply (interfaceDecl_brings signs (carries.onward (passes_of_next? found))).mapAt
    exact fun _ _ good => good
  next found =>
    apply Reading.Ensures.past
    apply (aliasDecl_brings signs (carries.onward (passes_of_next? found))).thenSemicolon.mapAt
    exact fun _ _ good => good
  next c₁ _ _ found =>
    have carries : c₁.Carries Good := carries.onward (passes_of_next? found)
    apply Reading.Ensures.past
    apply (loopClauses_brings signs carries).andThen
    intro clauses c₂ _ looped carries
    exact (statement_brings signs carries).mapAt fun _ _ good => ⟨looped, good⟩
  next found =>
    apply Reading.Ensures.weaken
    apply (returnValue_brings signs (carries.onward (passes_of_next? found))).thenSemicolon.mapAt
    exact fun _ _ good => good
  next c₁ _ _ found =>
    have carries : c₁.Carries Good := carries.onward (passes_of_next? found)
    apply Reading.Ensures.past
    apply (condition_brings signs carries).andThen
    intro test c₂ _ tested carries
    apply (statement_brings signs carries).andMaybe
    intro thenBranch c₃ _ first carries
    split
    next c₄ _ taken =>
      have carries : c₄.Carries Good := carries.onward (passes_of_word? taken)
      apply Reading.Ensures.pastOptional
      apply (statement_brings signs carries).mapAt
      exact fun _ _ second => ⟨tested, first, second⟩
    · exact ⟨⟨tested, first⟩, carries⟩
  next c₁ _ _ found =>
    have carries : c₁.Carries Good := carries.onward (passes_of_next? found)
    apply Reading.Ensures.past
    apply (condition_brings signs carries).andThen
    intro test c₂ _ tested carries
    exact (statement_brings signs carries).mapAt fun _ _ good => ⟨tested, good⟩
  next c₁ _ _ found =>
    have carries : c₁.Carries Good := carries.onward (passes_of_next? found)
    apply Reading.Ensures.past
    apply (statement_brings signs carries).andThen
    intro body c₂ _ good carries
    apply (expectWord_brings carries).andThen
    intro _ c₃ _ _ carries
    exact (condition_brings signs carries).thenSemicolon.mapAt fun _ _ tested => ⟨tested, good⟩
  next found =>
    apply Reading.Ensures.past
    apply (statements_brings signs (carries.onward (passes_of_next? found))).mapAt
    exact fun _ _ good => good
  next found => exact ⟨trivial, carries.onward (passes_of_next? found)⟩
  · split
    next taken =>
      obtain ⟨_, -, passed⟩ := passes_of_take? taken
      apply Reading.Ensures.past
      apply (declarators_brings signs (carries.onward passed)).thenSemicolon.mapAt
      exact fun _ _ good => good
    · exact (expression_brings signs carries).thenSemicolon.mapAt fun _ _ good => good
termination_by 16 * c.size

theorem statements_brings (signs : IgnoresSign Good) {c : Cursor} (carries : c.Carries Good) :
    (statements c).Brings Good (Statement.AllTextsOf Good) := by
  rw [statements]
  split
  · exact (expectMark_brings carries).map fun _ _ => trivial
  · apply (statement_brings signs carries).andThen
    intro first c₁ _ good carries
    exact (statements_brings signs carries).map fun _ others => ⟨good, others⟩
termination_by 16 * c.size + 1

theorem function_brings (signs : IgnoresSign Good) {start : Nat} {isExported isDefault : Bool}
    {c : Cursor} (carries : c.Carries Good) :
    (function start isExported isDefault c).Brings Good (Statement.AllTexts Good) := by
  rw [function]
  apply (functionHead_brings signs carries).andMaybe
  intro head c₁ _ headed carries
  split
  next opened =>
    apply Reading.Ensures.pastOptional
    apply (statements_brings signs (carries.onward (passes_of_mark? opened))).mapAt
    exact fun _ _ good => ⟨headed, good⟩
  · have read : (Reading.stay head c₁).Brings Good (FunctionHead.AllTexts Good) := ⟨headed, carries⟩
    exact read.thenSemicolon.mapAt fun _ _ good => good
termination_by 16 * c.size

theorem exported_brings (signs : IgnoresSign Good) {start : Nat} {c : Cursor}
    (carries : c.Carries Good) : (exported start c).Brings Good (Statement.AllTexts Good) := by
  rw [exported]
  split
  next byDefault =>
    have carries := carries.onward (passes_of_word? byDefault)
    split
    next word =>
      apply Reading.Ensures.past
      apply Reading.Ensures.past
      exact function_brings signs (carries.onward (passes_of_word? word))
    · trivial
  split
  next found =>
    apply Reading.Ensures.past
    exact function_brings signs (carries.onward (passes_of_next? found))
  next found =>
    apply Reading.Ensures.past
    apply (interfaceDecl_brings signs (carries.onward (passes_of_next? found))).mapAt
    exact fun _ _ good => good
  next found =>
    apply Reading.Ensures.past
    apply (aliasDecl_brings signs (carries.onward (passes_of_next? found))).thenSemicolon.mapAt
    exact fun _ _ good => good
  · trivial
termination_by 16 * c.size

end

/-- Unless an error is found, all that is read comes from the tokens. -/
theorem program_allTexts (signs : IgnoresSign Good) {c : Cursor} (carries : c.Carries Good)
    (clean : (program c).errors = []) : Statement.AllTextsOf Good (program c).statements := by
  fun_induction program c with
  | case1 => trivial
  | case2 c _ first next shorter read others ih =>
    have good := statement_brings signs carries
    rw [read] at good
    exact ⟨good.1, ih good.2 clean⟩
  | case3 => cases clean
  | case4 => cases clean

end Grammar

theorem Program.allTexts_ofTokens {Good : String → Prop} (signs : IgnoresSign Good)
    {tokens : List Token} {program : Program} (lexical : Lexical tokens)
    (texts : TextsOf Good tokens) (h : Program.ofTokens tokens = .ok program) :
    Statement.AllTextsOf Good program := by
  obtain ⟨start, opened, read⟩ := Program.ofTokens_eq_ok_iff.1 h
  obtain rfl := Cursor.rest_of_ofTokens? opened
  have good := Grammar.program_allTexts signs ⟨lexical, texts⟩ (by rw [read])
  rwa [read] at good

theorem ignoresSign_oneLine : IgnoresSign Text.OneLine := fun _ =>
  Text.oneLine_append.trans (and_iff_right (by decide))

/-- No name, number or literal of a program has a line end in it. -/
theorem Program.oneLine_ofSource {source : String} {program : Program}
    (h : Program.ofSource source = .ok program) : Statement.AllTextsOf Text.OneLine program := by
  obtain ⟨tokens, tokenized, parsed⟩ := Program.ofSource_eq_ok_iff.1 h
  exact Program.allTexts_ofTokens ignoresSign_oneLine (lexical_of_tokenize tokenized).1
    (textsOf_of_tokenize tokenized) parsed

end ScriptToGo
