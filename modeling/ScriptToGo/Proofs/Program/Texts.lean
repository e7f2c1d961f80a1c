import ScriptToGo.Program.Statement

/-! The texts that code may take over from a program. -/
namespace ScriptToGo

variable (Good : String → Prop)

/-- What is demanded of a number does not depend on its sign. -/
def IgnoresSign : Prop := ∀ text, Good ("-" ++ text) ↔ Good text

mutual

/-- All names and texts in a type are good. -/
def TypeExpr.AllTexts : TypeExpr → Prop
  | .named _ name args => Good name ∧ TypeExpr.AllTextsOf args
  | .array _ element => element.AllTexts
  | .string _ text | .number _ text => Good text
  | .boolean .. | .null _ => True
  | .object _ members => Member.AllTextsOf members

def TypeExpr.AllTextsOf : List TypeExpr → Prop
  | [] => True
  | type :: rest => type.AllTexts ∧ TypeExpr.AllTextsOf rest

def Member.AllTextsOf : List Member → Prop
  | [] => True
  | .mk _ name _ type :: rest => Good name ∧ type.AllTexts ∧ Member.AllTextsOf rest

end

mutual

/-- All names and texts in an expression are good. -/
def Expr.AllTexts : Expr → Prop
  | .array _ elements => Expr.AllTextsOf elements
  | .cast _ operand type => operand.AllTexts ∧ type.AllTexts Good
  | .binary _ left _ _ right => left.AllTexts ∧ right.AllTexts
  | .call _ callee args => callee.AllTexts ∧ Expr.AllTextsOf args
  | .conditional _ condition whenTrue whenFalse =>
    condition.AllTexts ∧ whenTrue.AllTexts ∧ whenFalse.AllTexts
  | .index _ object index => object.AllTexts ∧ index.AllTexts
  | .ident _ text | .number _ text | .string _ text => Good text
  | .object _ properties => Property.AllTextsOf properties
  | .paren _ inner | .leading _ _ _ inner | .trailing _ inner _ _ => inner.AllTexts
  | .member _ object property => object.AllTexts ∧ Good property.text
  | .template _ head holes => Good head ∧ TemplateHole.AllTextsOf holes
  | .boolean .. | .null _ => True

def Expr.AllTextsOf : List Expr → Prop
  | [] => True
  | e :: rest => e.AllTexts ∧ Expr.AllTextsOf rest

def Property.AllTextsOf : List Property → Prop
  | [] => True
  | .assign _ name value :: rest => Good name.text ∧ value.AllTexts ∧ Property.AllTextsOf rest
  | .shorthand _ name :: rest => Good name.text ∧ Property.AllTextsOf rest
  | .spread _ value :: rest => value.AllTexts ∧ Property.AllTextsOf rest

def TemplateHole.AllTextsOf : List TemplateHole → Prop
  | [] => True
  | .mk value after :: rest => value.AllTexts ∧ Good after ∧ TemplateHole.AllTextsOf rest

end

structure Param.AllTexts (p : Param) : Prop where
  name : Good p.name.text
  type : ∀ type ∈ p.type?, type.AllTexts Good

structure FunctionHead.AllTexts (head : FunctionHead) : Prop where
  name : ∀ name ∈ head.name?, Good name.text
  params : ∀ p ∈ head.params, p.AllTexts Good
  returns : ∀ type ∈ head.returns?, type.AllTexts Good

structure Declarator.AllTexts (d : Declarator) : Prop where
  name : Good d.name.text
  type : ∀ type ∈ d.type?, type.AllTexts Good
  initializer : ∀ e ∈ d.initializer?, e.AllTexts Good

def LoopStart.AllTexts : LoopStart → Prop
  | .nothing => True
  | .«variables» _ list => ∀ d ∈ list.declarators, d.AllTexts Good
  | .expression value => value.AllTexts Good

structure LoopClauses.AllTexts (clauses : LoopClauses) : Prop where
  start : clauses.start.AllTexts Good
  condition : ∀ e ∈ clauses.condition?, e.AllTexts Good
  step : ∀ e ∈ clauses.step?, e.AllTexts Good

mutual

/-- All names and texts in a statement are good. An import adds none of its own to the code. -/
def Statement.AllTexts : Statement → Prop
  | .function _ head _ body => head.AllTexts Good ∧ Statement.AllTextsOf body
  | .overload _ head => head.AllTexts Good
  | .importing .. | .empty _ => True
  | .interface _ decl => Good decl.name.text ∧ Member.AllTextsOf Good decl.members
  | .typeAlias _ decl => Good decl.name.text ∧ decl.type.AllTexts Good
  | .block _ body => Statement.AllTextsOf body
  | .expression _ value => value.AllTexts Good
  | .forLoop _ clauses body => clauses.AllTexts Good ∧ body.AllTexts
  | .returning _ value? => ∀ value ∈ value?, value.AllTexts Good
  | .«variables» _ list => ∀ d ∈ list.declarators, d.AllTexts Good
  | .ifThen _ condition thenBranch => condition.AllTexts Good ∧ thenBranch.AllTexts
  | .ifElse _ condition thenBranch elseBranch =>
    condition.AllTexts Good ∧ thenBranch.AllTexts ∧ elseBranch.AllTexts
  | .whileLoop _ condition body | .doLoop _ body condition =>
    condition.AllTexts Good ∧ body.AllTexts

def Statement.AllTextsOf : List Statement → Prop
  | [] => True
  | s :: rest => s.AllTexts ∧ Statement.AllTextsOf rest

end

variable {Good}

theorem TypeExpr.allTexts_withSpan (type : TypeExpr) (span : Span) :
    (type.withSpan span).AllTexts Good ↔ type.AllTexts Good := by
  cases type <;> rfl

theorem Property.allTextsOf_cons (p : Property) (rest : List Property) :
    AllTextsOf Good (p :: rest) ↔ AllTextsOf Good [p] ∧ AllTextsOf Good rest := by
  cases p <;> simp [AllTextsOf, and_assoc]

theorem Statement.AllTextsOf.of_mem {statements : List Statement} (h : AllTextsOf Good statements) :
    ∀ s ∈ statements, s.AllTexts Good := by
  induction statements with
  | nil => exact List.forall_mem_nil _
  | cons s rest ih => exact List.forall_mem_cons.2 ⟨h.1, ih h.2⟩

mutual

theorem TypeExpr.allTexts_of_forall (all : ∀ text, Good text) (type : TypeExpr) :
    type.AllTexts Good := by
  match type with
  | .named _ name args => exact ⟨all name, TypeExpr.allTextsOf_of_forall all args⟩
  | .array _ element => exact (TypeExpr.allTexts_of_forall all element :)
  | .string _ text | .number _ text => exact all text
  | .boolean .. | .null _ => trivial
  | .object _ members => exact (Member.allTextsOf_of_forall all members :)

theorem TypeExpr.allTextsOf_of_forall (all : ∀ text, Good text) (types : List TypeExpr) :
    TypeExpr.AllTextsOf Good types := by
  match types with
  | [] => trivial
  | type :: rest =>
    exact ⟨TypeExpr.allTexts_of_forall all type, TypeExpr.allTextsOf_of_forall all rest⟩

theorem Member.allTextsOf_of_forall (all : ∀ text, Good text) (members : List Member) :
    Member.AllTextsOf Good members := by
  match members with
  | [] => trivial
  | .mk _ name _ type :: rest =>
    exact ⟨all name, TypeExpr.allTexts_of_forall all type, Member.allTextsOf_of_forall all rest⟩

end

mutual

theorem Expr.allTexts_of_forall (all : ∀ text, Good text) (e : Expr) : e.AllTexts Good := by
  match e with
  | .array _ elements => exact (Expr.allTextsOf_of_forall all elements :)
  | .cast _ operand type =>
    exact ⟨Expr.allTexts_of_forall all operand, type.allTexts_of_forall all⟩
  | .binary _ left _ _ right =>
    exact ⟨Expr.allTexts_of_forall all left, Expr.allTexts_of_forall all right⟩
  | .call _ callee args =>
    exact ⟨Expr.allTexts_of_forall all callee, Expr.allTextsOf_of_forall all args⟩
  | .conditional _ condition whenTrue whenFalse =>
    exact ⟨Expr.allTexts_of_forall all condition, Expr.allTexts_of_forall all whenTrue,
      Expr.allTexts_of_forall all whenFalse⟩
  | .index _ object index =>
    exact ⟨Expr.allTexts_of_forall all object, Expr.allTexts_of_forall all index⟩
  | .ident _ text | .number _ text | .string _ text => exact all text
  | .object _ properties => exact (Property.allTextsOf_of_forall all properties :)
  | .paren _ inner | .leading _ _ _ inner | .trailing _ inner _ _ =>
    exact (Expr.allTexts_of_forall all inner :)
  | .member _ object property => exact ⟨Expr.allTexts_of_forall all object, all property.text⟩
  | .template _ head holes => exact ⟨all head, TemplateHole.allTextsOf_of_forall all holes⟩
  | .boolean .. | .null _ => trivial

theorem Expr.allTextsOf_of_forall (all : ∀ text, Good text) (elements : List Expr) :
    Expr.AllTextsOf Good elements := by
  match elements with
  | [] => trivial
  | e :: rest => exact ⟨Expr.allTexts_of_forall all e, Expr.allTextsOf_of_forall all rest⟩

theorem Property.allTextsOf_of_forall (all : ∀ text, Good text) (properties : List Property) :
    Property.AllTextsOf Good properties := by
  match properties with
  | [] => trivial
  | .assign _ name value :: rest =>
    exact ⟨all name.text, Expr.allTexts_of_forall all value, Property.allTextsOf_of_forall all rest⟩
  | .shorthand _ name :: rest => exact ⟨all name.text, Property.allTextsOf_of_forall all rest⟩
  | .spread _ value :: rest =>
    exact ⟨Expr.allTexts_of_forall all value, Property.allTextsOf_of_forall all rest⟩

theorem TemplateHole.allTextsOf_of_forall (all : ∀ text, Good text) (holes : List TemplateHole) :
    TemplateHole.AllTextsOf Good holes := by
  match holes with
  | [] => trivial
  | .mk value after :: rest =>
    exact ⟨Expr.allTexts_of_forall all value, all after, TemplateHole.allTextsOf_of_forall all rest⟩

end

theorem Param.allTexts_of_forall (all : ∀ text, Good text) (p : Param) : p.AllTexts Good where
  name := all p.name.text
  type type _ := type.allTexts_of_forall all

theorem FunctionHead.allTexts_of_forall (all : ∀ text, Good text) (head : FunctionHead) :
    head.AllTexts Good where
  name name _ := all name.text
  params p _ := p.allTexts_of_forall all
  returns type _ := type.allTexts_of_forall all

theorem Declarator.allTexts_of_forall (all : ∀ text, Good text) (d : Declarator) :
    d.AllTexts Good where
  name := all d.name.text
  type type _ := type.allTexts_of_forall all
  initializer e _ := e.allTexts_of_forall all

theorem LoopClauses.allTexts_of_forall (all : ∀ text, Good text) (clauses : LoopClauses) :
    clauses.AllTexts Good where
  start := by
    cases clauses.start with
    | nothing => trivial
    | «variables» _ list => exact fun d _ => d.allTexts_of_forall all
    | expression value => exact value.allTexts_of_forall all
  condition e _ := e.allTexts_of_forall all
  step e _ := e.allTexts_of_forall all

mutual

theorem Statement.allTexts_of_forall (all : ∀ text, Good text) (s : Statement) :
    s.AllTexts Good := by
  match s with
  | .function _ head _ body =>
    exact ⟨head.allTexts_of_forall all, Statement.allTextsOf_of_forall all body⟩
  | .overload _ head => exact head.allTexts_of_forall all
  | .importing .. | .empty _ => trivial
  | .interface _ decl => exact ⟨all decl.name.text, Member.allTextsOf_of_forall all decl.members⟩
  | .typeAlias _ decl => exact ⟨all decl.name.text, decl.type.allTexts_of_forall all⟩
  | .block _ body => exact (Statement.allTextsOf_of_forall all body :)
  | .expression _ value => exact value.allTexts_of_forall all
  | .forLoop _ clauses body =>
    exact ⟨clauses.allTexts_of_forall all, Statement.allTexts_of_forall all body⟩
  | .returning _ value? => exact fun value _ => value.allTexts_of_forall all
  | .«variables» _ list => exact fun d _ => d.allTexts_of_forall all
  | .ifThen _ condition body | .whileLoop _ condition body | .doLoop _ body condition =>
    exact ⟨condition.allTexts_of_forall all, Statement.allTexts_of_forall all body⟩
  | .ifElse _ condition thenBranch elseBranch =>
    exact ⟨condition.allTexts_of_forall all, Statement.allTexts_of_forall all thenBranch,
      Statement.allTexts_of_forall all elseBranch⟩

theorem Statement.allTextsOf_of_forall (all : ∀ text, Good text) (statements : List Statement) :
    Statement.AllTextsOf Good statements := by
  match statements with
  | [] => trivial
  | s :: rest =>
    exact ⟨Statement.allTexts_of_forall all s, Statement.allTextsOf_of_forall all rest⟩

end

end ScriptToGo
