import ScriptToGo.Go.Statement
import ScriptToGo.Proofs.Program.Spans

/-! Where code is refused: always at a part of what is written. -/
namespace ScriptToGo

/-- Whether a cause is that an import leads nowhere. -/
def RefusalCause.isUnresolved : RefusalCause → Bool
  | unresolvedModule _ => true
  | _ => false

/-- The kinds of parts that are refused for a cause. -/
def RefusalCause.kinds : RefusalCause → List PartKind
  | noRule _ .expression => [.expression]
  | noRule _ .objectLiteral => [.property]
  | noRule .. | unmet .functionName | unresolvedModule _ => [.statement]
  | noOperator .. => [.operator]
  | unmet (.declaredResult _) | unmet (.functionBody _) => [.name]
  | unmet (.plainName _) => [.name, .expression]
  | unmet .singleLoopVariable => [.loopVariables]
  | unmet (.typeName ..) => [.expression, .declarator, .parameter, .writtenType]
  | unmet (.stated _) => []

/-- Each failure refuses one of the given parts, for a cause that is about parts of its kind and
other than an import that leads nowhere. -/
def RefusesWithin (v : View) (parts : List Part) {α : Type} (x : Except Failure α) : Prop :=
  ∀ failure, x = .error failure → ∃ part ∈ parts, ∃ cause, cause.isUnresolved = false ∧
    part.kind ∈ cause.kinds ∧ v.refuse part.span cause = (.error failure : Except Failure Unit)

theorem View.refusal_eq {v : View} {span : Span} {cause : RefusalCause} {α : Type} {refusal : Refusal}
    (h : v.refuse span cause = (.error (.refused refusal) : Except Failure α)) :
    refusal.cause = cause ∧ refusal.location.span = span ∧ refusal.location.path = v.module.path ∧
      Text.position? v.module.source span.start = some refusal.location.position := by
  rw [View.refuse, View.location] at h
  split at h
  · rename_i position found
    cases h
    exact ⟨rfl, rfl, rfl, found⟩
  · cases h

/-- Whatever would have been written, a refusal is the same. -/
theorem View.refuse_eq_error {v : View} {span : Span} {cause : RefusalCause} {α β : Type}
    {failure : Failure} :
    v.refuse span cause = (.error failure : Except Failure α) ↔
      v.refuse span cause = (.error failure : Except Failure β) := by
  rw [View.refuse, View.refuse]
  cases v.location span <;> constructor <;> intro h <;> cases h <;> rfl

namespace RefusesWithin

variable {v : View} {parts : List Part} {α β : Type}

theorem ok (a : α) : RefusesWithin v parts (.ok a) := by
  intro failure h
  cases h

theorem refuse {kind : PartKind} {span : Span} {cause : RefusalCause} (mem : ⟨kind, span⟩ ∈ parts)
    (other : cause.isUnresolved = false) (about : kind ∈ cause.kinds) :
    RefusesWithin v parts (v.refuse span cause : Except Failure α) := by
  intro failure h
  exact ⟨⟨kind, span⟩, mem, cause, other, about, View.refuse_eq_error.1 h⟩

theorem bind {x : Except Failure α} {f : α → Except Failure β} (first : RefusesWithin v parts x)
    (next : ∀ a, RefusesWithin v parts (f a)) : RefusesWithin v parts (x >>= f) := by
  intro failure h
  cases x with
  | error other =>
    cases h
    exact first _ rfl
  | ok a => exact next a failure h

theorem mono {x : Except Failure α} {more : List Part} (h : RefusesWithin v parts x)
    (sub : ∀ s ∈ parts, s ∈ more) : RefusesWithin v more x := by
  intro failure eq
  obtain ⟨part, mem, rest⟩ := h failure eq
  exact ⟨part, sub part mem, rest⟩

end RefusesWithin

namespace View

variable {v : View} {parts : List Part} {span : Span}

theorem refuses_plainName (name : String) (kind : PartKind) (mem : ⟨kind, span⟩ ∈ parts)
    (named : kind ∈ [.name, .expression]) : RefusesWithin v parts (v.plainName name span) := by
  rw [plainName]
  split
  · exact .refuse mem rfl named
  · exact .ok name

theorem refuses_typeName (what : String) (kind : PartKind) (mem : ⟨kind, span⟩ ∈ parts)
    (typed : kind ∈ [.expression, .declarator, .parameter, .writtenType]) :
    RefusesWithin v parts (v.typeName span what) := by
  rw [typeName]
  split
  · exact .ok _
  · exact .refuse mem rfl typed

end View

section

variable (v : View)

mutual

theorem Expr.refuses (e : Expr) : RefusesWithin v e.parts (e.toGo v) := by
  match e with
  | .array span elements =>
    rw [Expr.toGo, Expr.parts]
    refine .bind (View.refuses_typeName _ .expression (by simp) (.head _)) fun type => ?_
    exact .bind ((Expr.allRefuses elements).mono fun s hs => by simp [hs]) fun items => .ok _
  | .binary span left op opSpan right =>
    rw [Expr.toGo, Expr.parts]
    split
    · refine .bind ((Expr.refuses left).mono fun s hs => by simp [hs]) fun first => ?_
      exact .bind ((Expr.refuses right).mono fun s hs => by simp [hs]) fun second => .ok _
    · refine .bind (.refuse (by simp) rfl (.head _)) fun _ => ?_
      refine .bind ((Expr.refuses left).mono fun s hs => by simp [hs]) fun first => ?_
      exact .bind ((Expr.refuses right).mono fun s hs => by simp [hs]) fun second => .ok _
  | .call span callee args =>
    rw [Expr.toGo, Expr.parts]
    refine .bind ((Expr.refuses callee).mono fun s hs => by simp [hs]) fun function => ?_
    exact .bind ((Expr.allRefuses args).mono fun s hs => by simp [hs]) fun items => .ok _
  | .index span base place =>
    rw [Expr.toGo, Expr.parts]
    refine .bind ((Expr.refuses base).mono fun s hs => by simp [hs]) fun first => ?_
    exact .bind ((Expr.refuses place).mono fun s hs => by simp [hs]) fun second => .ok _
  | .ident span name =>
    rw [Expr.toGo, Expr.parts]
    exact .bind (View.refuses_plainName _ .expression (by simp) (by simp)) fun name => .ok _
  | .object span properties =>
    rw [Expr.toGo, Expr.parts]
    refine .bind (View.refuses_typeName _ .expression (by simp) (.head _)) fun type => ?_
    exact .bind ((Property.allRefuses properties).mono fun s hs => by simp [hs]) fun items => .ok _
  | .paren span inner =>
    rw [Expr.toGo, Expr.parts]
    exact .bind ((Expr.refuses inner).mono fun s hs => by simp [hs]) fun code => .ok _
  | .leading span op opSpan operand =>
    rw [Expr.toGo, Expr.parts]
    split
    · refine .bind (.refuse (by simp) rfl (.head _)) fun _ => ?_
      exact .bind ((Expr.refuses operand).mono fun s hs => by simp [hs]) fun code => .ok _
    · exact .bind ((Expr.refuses operand).mono fun s hs => by simp [hs]) fun code => .ok _
  | .trailing span operand op opSpan =>
    rw [Expr.toGo, Expr.parts]
    split
    · exact .bind ((Expr.refuses operand).mono fun s hs => by simp [hs]) fun code => .ok _
    · refine .bind (.refuse (by simp) rfl (.head _)) fun _ => ?_
      exact .bind ((Expr.refuses operand).mono fun s hs => by simp [hs]) fun code => .ok _
  | .member span base property =>
    rw [Expr.toGo, Expr.parts]
    split
    · exact .bind ((Expr.refuses base).mono fun s hs => by simp [hs]) fun code => .ok _
    · refine .bind (View.refuses_plainName _ .name (by simp) (.head _)) fun name => ?_
      exact .bind ((Expr.refuses base).mono fun s hs => by simp [hs]) fun code => .ok _
  | .template span head holes =>
    rw [Expr.toGo, Expr.parts]
    exact .bind ((TemplateHole.allRefuses holes).mono fun s hs => by simp [hs]) fun items => .ok _
  | .cast span operand type =>
    rw [Expr.toGo, Expr.parts]
    exact .refuse (by simp) rfl (.head _)
  | .conditional span condition whenTrue whenFalse =>
    rw [Expr.toGo, Expr.parts]
    exact .refuse (by simp) rfl (.head _)
  | .null span =>
    rw [Expr.toGo, Expr.parts]
    exact .refuse (by simp) rfl (.head _)
  | .number span text =>
    rw [Expr.toGo]
    exact .ok _
  | .string span body =>
    rw [Expr.toGo]
    exact .ok _
  | .boolean span value =>
    rw [Expr.toGo]
    exact .ok _

theorem Expr.allRefuses (elements : List Expr) :
    RefusesWithin v (Expr.allParts elements) (Expr.allToGo v elements) := by
  match elements with
  | [] =>
    rw [Expr.allToGo]
    exact .ok []
  | e :: rest =>
    rw [Expr.allToGo, Expr.allParts]
    refine .bind ((Expr.refuses e).mono fun s hs => by simp [hs]) fun first => ?_
    exact .bind ((Expr.allRefuses rest).mono fun s hs => by simp [hs]) fun others => .ok _

theorem Property.allRefuses (properties : List Property) :
    RefusesWithin v (Property.allParts properties) (Property.allToGo v properties) := by
  match properties with
  | [] =>
    rw [Property.allToGo]
    exact .ok []
  | .assign span name value :: rest =>
    rw [Property.allToGo, Property.allParts]
    refine .bind (View.refuses_plainName _ .name (by simp) (.head _)) fun field => ?_
    refine .bind ((Expr.refuses value).mono fun s hs => by simp [hs]) fun code => ?_
    exact .bind ((Property.allRefuses rest).mono fun s hs => by simp [hs]) fun others => .ok _
  | .shorthand span name :: rest =>
    rw [Property.allToGo, Property.allParts]
    refine .bind (View.refuses_plainName _ .name (by simp) (.head _)) fun field => ?_
    exact .bind ((Property.allRefuses rest).mono fun s hs => by simp [hs]) fun others => .ok _
  | .spread span value :: rest =>
    rw [Property.allToGo, Property.allParts]
    exact .refuse (by simp) rfl (.head _)

theorem TemplateHole.allRefuses (holes : List TemplateHole) :
    RefusesWithin v (TemplateHole.allParts holes) (TemplateHole.allToGo v holes) := by
  match holes with
  | [] =>
    rw [TemplateHole.allToGo]
    exact .ok []
  | .mk value _ :: rest =>
    rw [TemplateHole.allToGo, TemplateHole.allParts]
    refine .bind ((Expr.refuses value).mono fun s hs => by simp [hs]) fun first => ?_
    exact .bind ((TemplateHole.allRefuses rest).mono fun s hs => by simp [hs]) fun others => .ok _

end

theorem Declarator.refuses (d : Declarator) : RefusesWithin v d.parts (d.toGo v) := by
  rw [Declarator.toGo, Declarator.parts]
  refine .bind (View.refuses_plainName _ .name (by simp) (.head _)) fun name => ?_
  split
  · rename_i value eq
    have inner : RefusesWithin v (⟨.declarator, d.span⟩ :: ⟨.name, d.name.span⟩ :: (TypeExpr.optionalParts d.type?
        ++ Expr.optionalParts (some value))) (value.toGo v) :=
      (Expr.refuses v value).mono fun s hs => by simp [Expr.optionalParts, hs]
    simp only [eq]
    split
    · refine .bind (View.refuses_typeName _ .declarator (by simp) (by simp)) fun type => ?_
      exact .bind inner fun code => .ok _
    · exact .bind inner fun code => .ok _
  · exact .bind (View.refuses_typeName _ .declarator (by simp) (by simp)) fun type => .ok _

theorem LoopStart.refuses (start : LoopStart) :
    RefusesWithin v start.parts (start.toGo v) := by
  cases start with
  | nothing => exact .ok _
  | expression value => exact Expr.refuses v value
  | «variables» span list =>
    obtain ⟨keyword, declarators⟩ := list
    match declarators with
    | [d] => exact Declarator.refuses v d
    | [] | _ :: _ :: _ => exact .refuse List.mem_cons_self rfl (.head _)

theorem refuses_clause (clause? : Option Expr) :
    RefusesWithin v (Expr.optionalParts clause?) (clauseToGo v clause?) := by
  cases clause? with
  | none => exact .ok _
  | some e => exact Expr.refuses v e

theorem LoopClauses.refuses (clauses : LoopClauses) : RefusesWithin v clauses.parts (clauses.toGo v) := by
  rw [LoopClauses.toGo, LoopClauses.parts]
  refine .bind ((LoopStart.refuses v clauses.start).mono fun s hs => by simp [hs]) fun start => ?_
  refine .bind ((refuses_clause v clauses.condition?).mono fun s hs => by simp [hs]) fun condition => ?_
  exact .bind ((refuses_clause v clauses.step?).mono fun s hs => by simp [hs]) fun step => .ok _

theorem refuses_mapM {α β : Type} {parts : List Part} {f : α → Except Failure β} (list : List α)
    (each : ∀ a ∈ list, RefusesWithin v parts (f a)) : RefusesWithin v parts (list.mapM f) := by
  induction list with
  | nil => exact .ok []
  | cons a rest ih =>
    rw [List.mapM_cons]
    refine .bind (each a List.mem_cons_self) fun first => ?_
    exact .bind (ih fun b hb => each b (List.mem_cons_of_mem a hb)) fun others => .ok _

mutual

theorem Statement.refuses (s : Statement) : RefusesWithin v s.parts (s.toGo v) := by
  match s with
  | .block span body =>
    rw [Statement.toGo, Statement.parts]
    exact .bind ((Statement.allRefuses body).mono fun s hs => by simp [hs]) fun codes => .ok _
  | .expression span value =>
    rw [Statement.toGo, Statement.parts]
    exact .bind ((Expr.refuses v value).mono fun s hs => by simp [hs]) fun code => .ok _
  | .forLoop span clauses body =>
    have head : RefusesWithin v (Statement.forLoop span clauses body).parts (clauses.toGo v) :=
      (LoopClauses.refuses v clauses).mono fun s hs => by simp [Statement.parts, hs]
    have inner : RefusesWithin v (Statement.forLoop span clauses body).parts (body.toGo v) :=
      (Statement.refuses body).mono fun s hs => by
        rw [Statement.parts]
        simp [hs]
    cases body with
    | block span list =>
      rw [Statement.toGo]
      refine .bind head fun head => ?_
      exact .bind ((Statement.allRefuses list).mono fun s hs => by simp [Statement.parts, hs])
        fun codes => .ok _
    | _ =>
      rw [Statement.toGo]
      · exact .bind head fun head => .bind inner fun codes => .ok _
      · simp
  | .returning span value? =>
    cases value? with
    | none =>
      rw [Statement.toGo]
      exact .ok _
    | some value =>
      rw [Statement.toGo, Statement.parts, Expr.optionalParts]
      exact .bind ((Expr.refuses v value).mono fun s hs => by simp [hs]) fun code => .ok _
  | .«variables» span list =>
    rw [Statement.toGo, Statement.parts, VariableList.parts]
    refine refuses_mapM v list.declarators fun d hd => ?_
    refine .bind ((Declarator.refuses v d).mono fun s hs => ?_) fun code => .ok _
    exact List.mem_cons_of_mem _ (List.mem_flatMap.2 ⟨d, hd, hs⟩)
  | .function .. | .overload .. | .importing .. | .interface .. | .typeAlias .. | .ifThen ..
  | .ifElse .. | .whileLoop .. | .doLoop .. | .empty .. =>
    rw [Statement.toGo]
    · exact .refuse (Statement.self_mem_parts _) rfl (.head _)
    all_goals simp

theorem Statement.allRefuses (statements : List Statement) :
    RefusesWithin v (Statement.allParts statements) (Statement.allToGo v statements) := by
  match statements with
  | [] =>
    rw [Statement.allToGo]
    exact .ok []
  | s :: rest =>
    rw [Statement.allToGo, Statement.allParts]
    refine .bind ((Statement.refuses s).mono fun s hs => by simp [hs]) fun first => ?_
    exact .bind ((Statement.allRefuses rest).mono fun s hs => by simp [hs]) fun others => .ok _

end

theorem Param.refuses (p : Param) : RefusesWithin v p.parts (p.toGo v) := by
  rw [Param.toGo, Param.parts]
  refine .bind (View.refuses_plainName _ .name (by simp) (.head _)) fun name => ?_
  exact .bind (View.refuses_typeName _ .parameter (by simp) (by simp)) fun type => .ok _

theorem FunctionHead.refuses (span : Span) (head : FunctionHead) (body? : Option (List Statement)) :
    RefusesWithin v (⟨.statement, span⟩ :: (head.parts ++ Statement.allParts (body?.getD [])))
      (head.toGo v span body?) := by
  rw [FunctionHead.toGo, FunctionHead.parts]
  split
  · rename_i name named
    have here : ⟨.name, name.span⟩ ∈ Name.optionalParts head.name? := by
      simp [named, Name.optionalParts, Name.optionalSpans]
    refine .bind (View.refuses_plainName _ .name (by simp [here]) (.head _)) fun goName => ?_
    split
    · rename_i returns declared
      have result : ⟨.writtenType, returns.span⟩ ∈ TypeExpr.optionalParts head.returns? := by
        simp [declared, TypeExpr.optionalParts, TypeExpr.optionalSpans]
      split
      · rename_i body
        refine .bind (refuses_mapM v head.params fun p hp => ?_) fun params => ?_
        · refine (Param.refuses v p).mono fun s hs => ?_
          have := List.mem_flatMap.2 ⟨p, hp, hs⟩
          simp [this]
        refine .bind (View.refuses_typeName _ .writtenType (by simp [result]) (by simp)) fun type => ?_
        exact .bind ((Statement.allRefuses v body).mono fun s hs => by simp [hs]) fun codes => .ok _
      · exact .refuse (by simp [here]) rfl (.head _)
    · exact .refuse (by simp [here]) rfl (.head _)
  · exact .refuse (by simp) rfl (.head _)

/-- A statement that no other statement holds is refused at one of its parts, unless it is an
import. -/
theorem Statement.refusesTopLevel (s : Statement) (other : s.import? = none) :
    RefusesWithin v s.parts (s.toGoTopLevel v) := by
  cases s with
  | function span head bodySpan body =>
    rw [Statement.parts]
    exact FunctionHead.refuses v span head (some body)
  | overload span head =>
    refine (FunctionHead.refuses v span head none).mono fun s hs => ?_
    rw [Statement.parts]
    simpa [Statement.allParts] using hs
  | importing => cases other
  | _ => exact .refuse (Statement.self_mem_parts _) rfl (.head _)

theorem Statement.toGoTopLevel_import {s : Statement} {decl : ImportDecl}
    (importing : s.import? = some decl) :
    s.toGoTopLevel v = v.refuse s.span (.unresolvedModule decl.specifier.text) := by
  cases s <;> cases importing
  rfl

/-- A statement that no other statement holds is refused at one of its parts, for a cause that is
about parts of its kind. -/
theorem Statement.refusedPart {s : Statement} {failure : Failure}
    (failed : s.toGoTopLevel v = .error failure) :
    ∃ part ∈ s.parts, ∃ cause, part.kind ∈ cause.kinds ∧
      v.refuse part.span cause = (.error failure : Except Failure Code) := by
  cases importing : s.import? with
  | none =>
    obtain ⟨part, mem, cause, _, about, refused⟩ := Statement.refusesTopLevel v s importing _ failed
    exact ⟨part, mem, cause, about, View.refuse_eq_error.1 refused⟩
  | some decl =>
    rw [Statement.toGoTopLevel_import v importing] at failed
    exact ⟨_, s.self_mem_parts, _, .head _, failed⟩

end

end ScriptToGo
