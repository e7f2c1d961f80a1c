import ScriptToGo.Program.Statement

/-! What the parts of a program are, and where they are written. -/
namespace ScriptToGo

mutual

/-- The ranges of an expression and of all its parts. A written type counts as one part. -/
def Expr.spans : Expr → List Span
  | .array s elements => s :: Expr.allSpans elements
  | .cast s operand type => s :: type.span :: operand.spans
  | .binary s left _ opSpan right => s :: opSpan :: (left.spans ++ right.spans)
  | .call s callee args => s :: (callee.spans ++ Expr.allSpans args)
  | .conditional s condition whenTrue whenFalse =>
    s :: (condition.spans ++ (whenTrue.spans ++ whenFalse.spans))
  | .index s object index => s :: (object.spans ++ index.spans)
  | .ident s _ | .number s _ | .string s _ | .boolean s _ | .null s => [s]
  | .object s properties => s :: Property.allSpans properties
  | .paren s inner => s :: inner.spans
  | .leading s _ opSpan operand | .trailing s operand _ opSpan => s :: opSpan :: operand.spans
  | .member s object property => s :: property.span :: object.spans
  | .template s _ holes => s :: TemplateHole.allSpans holes

def Expr.allSpans : List Expr → List Span
  | [] => []
  | e :: rest => e.spans ++ Expr.allSpans rest

def Property.allSpans : List Property → List Span
  | [] => []
  | .assign s name value :: rest => s :: name.span :: (value.spans ++ Property.allSpans rest)
  | .shorthand s name :: rest => s :: name.span :: Property.allSpans rest
  | .spread s value :: rest => s :: (value.spans ++ Property.allSpans rest)

/-- The ranges of what a template interpolates. -/
def TemplateHole.allSpans : List TemplateHole → List Span
  | [] => []
  | .mk value _ :: rest => value.spans ++ TemplateHole.allSpans rest

end

/-- The range of a written type, if there is one. -/
def TypeExpr.optionalSpans : Option TypeExpr → List Span
  | none => []
  | some type => [type.span]

/-- The ranges of an expression, if there is one. -/
def Expr.optionalSpans : Option Expr → List Span
  | none => []
  | some e => e.spans

def Name.optionalSpans : Option Name → List Span
  | none => []
  | some name => [name.span]

def Param.spans (p : Param) : List Span := p.span :: p.name.span :: TypeExpr.optionalSpans p.type?

/-- The ranges of what a function shows before its body. -/
def FunctionHead.spans (head : FunctionHead) : List Span :=
  Name.optionalSpans head.name? ++ (head.params.flatMap Param.spans
    ++ TypeExpr.optionalSpans head.returns?)

def ImportDecl.spans (decl : ImportDecl) : List Span :=
  Name.optionalSpans decl.default? ++ (Name.optionalSpans decl.whole?
    ++ (decl.named.map ImportedName.span ++ [decl.specifier.span]))

def Member.spans (m : Member) : List Span := [m.span, m.type.span]

def Declarator.spans (d : Declarator) : List Span :=
  d.span :: d.name.span :: (TypeExpr.optionalSpans d.type? ++ Expr.optionalSpans d.initializer?)

/-- The ranges of variables declared together. -/
def VariableList.spans (list : VariableList) : List Span := list.declarators.flatMap Declarator.spans

def LoopStart.spans : LoopStart → List Span
  | .nothing => []
  | .«variables» s list => s :: list.spans
  | .expression value => value.spans

def LoopClauses.spans (clauses : LoopClauses) : List Span :=
  clauses.start.spans ++ (Expr.optionalSpans clauses.condition? ++ Expr.optionalSpans clauses.step?)

mutual

/-- The ranges of a statement and of all its parts. -/
def Statement.spans : Statement → List Span
  | .function s head bodySpan body => s :: bodySpan :: (head.spans ++ Statement.allSpans body)
  | .overload s head => s :: head.spans
  | .importing s decl => s :: decl.spans
  | .interface s decl => s :: decl.name.span :: decl.members.flatMap Member.spans
  | .typeAlias s decl => [s, decl.name.span, decl.type.span]
  | .block s body => s :: Statement.allSpans body
  | .expression s value => s :: value.spans
  | .forLoop s clauses body => s :: (clauses.spans ++ body.spans)
  | .returning s value? => s :: Expr.optionalSpans value?
  | .«variables» s list => s :: list.spans
  | .ifThen s condition thenBranch => s :: (condition.spans ++ thenBranch.spans)
  | .ifElse s condition thenBranch elseBranch =>
    s :: (condition.spans ++ (thenBranch.spans ++ elseBranch.spans))
  | .whileLoop s condition body => s :: (condition.spans ++ body.spans)
  | .doLoop s body condition => s :: (body.spans ++ condition.spans)
  | .empty s => [s]

def Statement.allSpans : List Statement → List Span
  | [] => []
  | s :: rest => s.spans ++ Statement.allSpans rest

end

theorem Expr.span_mem (e : Expr) : e.span ∈ e.spans := by
  cases e <;> simp [Expr.span, Expr.spans]

/-- The parts of a statement are parts of the statements around it. -/
theorem Statement.spans_subset {s : Statement} {statements : List Statement} (h : s ∈ statements) :
    s.spans ⊆ Statement.allSpans statements := by
  induction statements with
  | nil => cases h
  | cons first rest ih =>
    rw [Statement.allSpans]
    rcases List.mem_cons.1 h with rfl | h
    · exact List.subset_append_left _ _
    · exact List.subset_append_of_subset_right _ (ih h)

/-- The kinds of parts that a program has. -/
inductive PartKind
  | statement | expression | operator | name | parameter | declarator | property
  /-- A whole written type, not one inside of another. -/
  | writtenType
  /-- The variables that the first clause of a counted loop declares, if it is not a single one. -/
  | loopVariables
deriving DecidableEq

/-- A part of a program, known by its kind and by the range that it takes. -/
structure Part where
  kind : PartKind
  span : Span
deriving DecidableEq

mutual

/-- An expression and the parts inside of it. -/
def Expr.parts : Expr → List Part
  | .array s elements => ⟨.expression, s⟩ :: Expr.allParts elements
  | .cast s operand type => ⟨.expression, s⟩ :: ⟨.writtenType, type.span⟩ :: operand.parts
  | .binary s left _ opSpan right =>
    ⟨.expression, s⟩ :: ⟨.operator, opSpan⟩ :: (left.parts ++ right.parts)
  | .call s callee args => ⟨.expression, s⟩ :: (callee.parts ++ Expr.allParts args)
  | .conditional s condition whenTrue whenFalse =>
    ⟨.expression, s⟩ :: (condition.parts ++ (whenTrue.parts ++ whenFalse.parts))
  | .index s object index => ⟨.expression, s⟩ :: (object.parts ++ index.parts)
  | .ident s _ | .number s _ | .string s _ | .boolean s _ | .null s => [⟨.expression, s⟩]
  | .object s properties => ⟨.expression, s⟩ :: Property.allParts properties
  | .paren s inner => ⟨.expression, s⟩ :: inner.parts
  | .leading s _ opSpan operand | .trailing s operand _ opSpan =>
    ⟨.expression, s⟩ :: ⟨.operator, opSpan⟩ :: operand.parts
  | .member s object property => ⟨.expression, s⟩ :: ⟨.name, property.span⟩ :: object.parts
  | .template s _ holes => ⟨.expression, s⟩ :: TemplateHole.allParts holes

def Expr.allParts : List Expr → List Part
  | [] => []
  | e :: rest => e.parts ++ Expr.allParts rest

def Property.allParts : List Property → List Part
  | [] => []
  | .assign s name value :: rest =>
    ⟨.property, s⟩ :: ⟨.name, name.span⟩ :: (value.parts ++ Property.allParts rest)
  | .shorthand s name :: rest => ⟨.property, s⟩ :: ⟨.name, name.span⟩ :: Property.allParts rest
  | .spread s value :: rest => ⟨.property, s⟩ :: (value.parts ++ Property.allParts rest)

/-- The parts of what a template interpolates. -/
def TemplateHole.allParts : List TemplateHole → List Part
  | [] => []
  | .mk value _ :: rest => value.parts ++ TemplateHole.allParts rest

end

/-- The part that a written type is, if there is one. -/
def TypeExpr.optionalParts (type? : Option TypeExpr) : List Part :=
  (TypeExpr.optionalSpans type?).map (Part.mk .writtenType)

/-- The part that a name is, if there is one. -/
def Name.optionalParts (name? : Option Name) : List Part :=
  (Name.optionalSpans name?).map (Part.mk .name)

/-- The parts of an expression, if there is one. -/
def Expr.optionalParts : Option Expr → List Part
  | none => []
  | some e => e.parts

def Param.parts (p : Param) : List Part :=
  ⟨.parameter, p.span⟩ :: ⟨.name, p.name.span⟩ :: TypeExpr.optionalParts p.type?

/-- The parts of what a function shows before its body. -/
def FunctionHead.parts (head : FunctionHead) : List Part :=
  Name.optionalParts head.name? ++ (head.params.flatMap Param.parts
    ++ TypeExpr.optionalParts head.returns?)

/-- The names that an import holds, its specifier among them. -/
def ImportDecl.parts (decl : ImportDecl) : List Part := decl.spans.map (Part.mk .name)

def Member.parts (m : Member) : List Part := [⟨.property, m.span⟩, ⟨.writtenType, m.type.span⟩]

def Declarator.parts (d : Declarator) : List Part :=
  ⟨.declarator, d.span⟩ :: ⟨.name, d.name.span⟩
    :: (TypeExpr.optionalParts d.type? ++ Expr.optionalParts d.initializer?)

/-- The parts of variables declared together. -/
def VariableList.parts (list : VariableList) : List Part := list.declarators.flatMap Declarator.parts

/-- A variable that is the only one is a part of its own kind. Others are one together as well. -/
def LoopStart.parts : LoopStart → List Part
  | .nothing => []
  | .«variables» s list =>
    match list.declarators with
    | [d] => d.parts
    | _ => ⟨.loopVariables, s⟩ :: list.parts
  | .expression value => value.parts

def LoopClauses.parts (clauses : LoopClauses) : List Part :=
  clauses.start.parts ++ (Expr.optionalParts clauses.condition? ++ Expr.optionalParts clauses.step?)

mutual

/-- A statement and the parts inside of it. -/
def Statement.parts : Statement → List Part
  | .function s head _ body => ⟨.statement, s⟩ :: (head.parts ++ Statement.allParts body)
  | .overload s head => ⟨.statement, s⟩ :: head.parts
  | .importing s decl => ⟨.statement, s⟩ :: decl.parts
  | .interface s decl =>
    ⟨.statement, s⟩ :: ⟨.name, decl.name.span⟩ :: decl.members.flatMap Member.parts
  | .typeAlias s decl => [⟨.statement, s⟩, ⟨.name, decl.name.span⟩, ⟨.writtenType, decl.type.span⟩]
  | .block s body => ⟨.statement, s⟩ :: Statement.allParts body
  | .expression s value => ⟨.statement, s⟩ :: value.parts
  | .forLoop s clauses body => ⟨.statement, s⟩ :: (clauses.parts ++ body.parts)
  | .returning s value? => ⟨.statement, s⟩ :: Expr.optionalParts value?
  | .«variables» s list => ⟨.statement, s⟩ :: list.parts
  | .ifThen s condition thenBranch => ⟨.statement, s⟩ :: (condition.parts ++ thenBranch.parts)
  | .ifElse s condition thenBranch elseBranch =>
    ⟨.statement, s⟩ :: (condition.parts ++ (thenBranch.parts ++ elseBranch.parts))
  | .whileLoop s condition body => ⟨.statement, s⟩ :: (condition.parts ++ body.parts)
  | .doLoop s body condition => ⟨.statement, s⟩ :: (body.parts ++ condition.parts)
  | .empty s => [⟨.statement, s⟩]

def Statement.allParts : List Statement → List Part
  | [] => []
  | s :: rest => s.parts ++ Statement.allParts rest

end

mutual

theorem Expr.map_parts (e : Expr) : e.parts.map Part.span = e.spans := by
  match e with
  | .ident .. | .number .. | .string .. | .boolean .. | .null .. => rfl
  | .array _ elements => simp [Expr.parts, Expr.spans, Expr.map_allParts elements]
  | .cast _ operand type => simp [Expr.parts, Expr.spans, Expr.map_parts operand]
  | .binary _ left _ _ right =>
    simp [Expr.parts, Expr.spans, Expr.map_parts left, Expr.map_parts right]
  | .call _ callee args =>
    simp [Expr.parts, Expr.spans, Expr.map_parts callee, Expr.map_allParts args]
  | .conditional _ condition whenTrue whenFalse =>
    simp [Expr.parts, Expr.spans, Expr.map_parts condition, Expr.map_parts whenTrue,
      Expr.map_parts whenFalse]
  | .index _ target place =>
    simp [Expr.parts, Expr.spans, Expr.map_parts target, Expr.map_parts place]
  | .object _ properties => simp [Expr.parts, Expr.spans, Property.map_allParts properties]
  | .paren _ inner => simp [Expr.parts, Expr.spans, Expr.map_parts inner]
  | .leading _ _ _ operand | .trailing _ operand _ _ =>
    simp [Expr.parts, Expr.spans, Expr.map_parts operand]
  | .member _ target _ => simp [Expr.parts, Expr.spans, Expr.map_parts target]
  | .template _ _ holes => simp [Expr.parts, Expr.spans, TemplateHole.map_allParts holes]

theorem Expr.map_allParts (elements : List Expr) :
    (Expr.allParts elements).map Part.span = Expr.allSpans elements := by
  match elements with
  | [] => rfl
  | e :: rest => simp [Expr.allParts, Expr.allSpans, Expr.map_parts e, Expr.map_allParts rest]

theorem Property.map_allParts (properties : List Property) :
    (Property.allParts properties).map Part.span = Property.allSpans properties := by
  match properties with
  | [] => rfl
  | .assign _ _ value :: rest =>
    simp [Property.allParts, Property.allSpans, Expr.map_parts value, Property.map_allParts rest]
  | .shorthand .. :: rest =>
    simp [Property.allParts, Property.allSpans, Property.map_allParts rest]
  | .spread _ value :: rest =>
    simp [Property.allParts, Property.allSpans, Expr.map_parts value, Property.map_allParts rest]

theorem TemplateHole.map_allParts (holes : List TemplateHole) :
    (TemplateHole.allParts holes).map Part.span = TemplateHole.allSpans holes := by
  match holes with
  | [] => rfl
  | .mk value _ :: rest =>
    simp [TemplateHole.allParts, TemplateHole.allSpans, Expr.map_parts value,
      TemplateHole.map_allParts rest]

end

@[simp] theorem Part.span_comp_mk (kind : PartKind) : Part.span ∘ Part.mk kind = id := rfl

theorem Expr.map_optionalParts (e? : Option Expr) :
    (Expr.optionalParts e?).map Part.span = Expr.optionalSpans e? := by
  cases e? with
  | none => rfl
  | some e => exact e.map_parts

theorem map_flatMap_parts {α : Type} {parts : α → List Part} {spans : α → List Span}
    (each : ∀ a, (parts a).map Part.span = spans a) (list : List α) :
    (list.flatMap parts).map Part.span = list.flatMap spans := by
  rw [List.map_flatMap, funext each]

theorem FunctionHead.map_parts (head : FunctionHead) : head.parts.map Part.span = head.spans := by
  have params : (head.params.flatMap Param.parts).map Part.span = head.params.flatMap Param.spans :=
    map_flatMap_parts (fun p => by simp [Param.parts, Param.spans, TypeExpr.optionalParts]) _
  simp [FunctionHead.parts, FunctionHead.spans, Name.optionalParts, TypeExpr.optionalParts, params]

theorem Declarator.map_parts (d : Declarator) : d.parts.map Part.span = d.spans := by
  simp [Declarator.parts, Declarator.spans, TypeExpr.optionalParts, Expr.map_optionalParts]

theorem VariableList.map_parts (list : VariableList) : list.parts.map Part.span = list.spans :=
  map_flatMap_parts Declarator.map_parts _

theorem LoopStart.parts_sublist (start : LoopStart) :
    (start.parts.map Part.span).Sublist start.spans := by
  cases start with
  | nothing => exact .refl []
  | expression value => exact value.map_parts ▸ .refl _
  | «variables» span list =>
    rw [parts, spans]
    split
    next d alone =>
      rw [d.map_parts, VariableList.spans, alone, List.flatMap_singleton]
      exact List.sublist_cons_self span d.spans
    next => exact list.map_parts ▸ .refl (span :: _)

theorem LoopClauses.parts_sublist (clauses : LoopClauses) :
    (clauses.parts.map Part.span).Sublist clauses.spans := by
  simpa [LoopClauses.parts, LoopClauses.spans, Expr.map_optionalParts] using
    clauses.start.parts_sublist

mutual

/-- The body of a function, and a loop variable with its keyword, are the ranges that are not those of
a part. -/
theorem Statement.parts_sublist (s : Statement) : (s.parts.map Part.span).Sublist s.spans := by
  match s with
  | .function _ head bodySpan body =>
    simpa [Statement.parts, Statement.spans, head.map_parts] using
      ((Statement.allParts_sublist body).append_left head.spans).cons bodySpan
  | .overload _ head => simp [Statement.parts, Statement.spans, head.map_parts]
  | .importing _ decl => simp [Statement.parts, Statement.spans, ImportDecl.parts]
  | .interface _ decl =>
    have members : (decl.members.flatMap Member.parts).map Part.span
        = decl.members.flatMap Member.spans := map_flatMap_parts (fun m => rfl) _
    simp [Statement.parts, Statement.spans, members]
  | .block _ body =>
    simpa [Statement.parts, Statement.spans] using Statement.allParts_sublist body
  | .expression _ value => simp [Statement.parts, Statement.spans, value.map_parts]
  | .forLoop _ clauses body =>
    simpa [Statement.parts, Statement.spans] using
      clauses.parts_sublist.append (Statement.parts_sublist body)
  | .returning _ value? => simp [Statement.parts, Statement.spans, Expr.map_optionalParts]
  | .«variables» _ list => simp [Statement.parts, Statement.spans, list.map_parts]
  | .ifThen _ condition thenBranch =>
    simpa [Statement.parts, Statement.spans, condition.map_parts] using
      Statement.parts_sublist thenBranch
  | .ifElse _ condition thenBranch elseBranch =>
    simpa [Statement.parts, Statement.spans, condition.map_parts] using
      (Statement.parts_sublist thenBranch).append (Statement.parts_sublist elseBranch)
  | .whileLoop _ condition body =>
    simpa [Statement.parts, Statement.spans, condition.map_parts] using Statement.parts_sublist body
  | .doLoop _ body condition =>
    simpa [Statement.parts, Statement.spans, condition.map_parts] using Statement.parts_sublist body
  | .typeAlias .. | .empty _ => simp [Statement.parts, Statement.spans]

theorem Statement.allParts_sublist (statements : List Statement) :
    ((Statement.allParts statements).map Part.span).Sublist (Statement.allSpans statements) := by
  match statements with
  | [] => exact .refl []
  | s :: rest =>
    simpa [Statement.allParts, Statement.allSpans] using
      (Statement.parts_sublist s).append (Statement.allParts_sublist rest)

end

theorem Statement.self_mem_parts (s : Statement) : ⟨.statement, s.span⟩ ∈ s.parts := by
  cases s <;> simp [Statement.span, Statement.parts]

/-- The parts of a statement are parts of the statements around it. -/
theorem Statement.parts_subset {s : Statement} {statements : List Statement} (h : s ∈ statements) :
    s.parts ⊆ Statement.allParts statements := by
  induction statements with
  | nil => cases h
  | cons first rest ih =>
    rw [Statement.allParts]
    rcases List.mem_cons.1 h with rfl | h
    · exact List.subset_append_left _ _
    · exact List.subset_append_of_subset_right _ (ih h)

end ScriptToGo
