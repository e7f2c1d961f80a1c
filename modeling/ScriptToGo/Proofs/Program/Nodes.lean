import ScriptToGo.Program.Statement

/-! The parts of a program that have a type. -/
namespace ScriptToGo

/-- What the table of types knows by the range that it takes. -/
inductive Node
  | expression (e : Expr)
  /-- A whole written type, not one inside of another. -/
  | writtenType (type : TypeExpr)
  | param (p : Param)
  | declarator (d : Declarator)
  /-- The name of a property that takes the value of the variable of that name. -/
  | shorthand (name : Name)

/-- The node that a property of an object literal holds. -/
def Property.node : Property → Node
  | assign _ _ value | spread _ value => .expression value
  | shorthand _ name => .shorthand name

/-- The nodes right inside of an expression, in source order. -/
def Expr.inner : Expr → List Node
  | .array _ elements => elements.map .expression
  | .cast _ operand type => [.expression operand, .writtenType type]
  | .binary _ left _ _ right => [.expression left, .expression right]
  | .call _ callee args => .expression callee :: args.map .expression
  | .conditional _ condition whenTrue whenFalse =>
    [.expression condition, .expression whenTrue, .expression whenFalse]
  | .index _ target place => [.expression target, .expression place]
  | .object _ properties => properties.map Property.node
  | .paren _ inner => [.expression inner]
  | .leading _ _ _ operand | .trailing _ operand _ _ => [.expression operand]
  | .member _ target _ => [.expression target]
  | .template _ _ holes => holes.map fun hole => .expression hole.value
  | .ident .. | .number .. | .string .. | .boolean .. | .null .. => []

namespace Node

def span : Node → Span
  | expression e => e.span
  | writtenType type => type.span
  | param p => p.span
  | declarator d => d.span
  | shorthand name => name.span

/-- The nodes of a written type, if there is one. -/
def ofType? (type? : Option TypeExpr) : List Node := (type?.map writtenType).toList

/-- The nodes of an expression, if there is one. -/
def ofExpr? (e? : Option Expr) : List Node := (e?.map expression).toList

/-- The nodes right inside of a node, in source order. -/
def inner : Node → List Node
  | expression e => e.inner
  | writtenType _ | shorthand _ => []
  | param p => ofType? p.type?
  | declarator d => ofType? d.type? ++ ofExpr? d.initializer?

theorem sizeOf_property (p : Property) : sizeOf p.node ≤ sizeOf p := by
  cases p <;> simp only [Property.node, expression.sizeOf_spec, shorthand.sizeOf_spec,
    Property.assign.sizeOf_spec, Property.shorthand.sizeOf_spec, Property.spread.sizeOf_spec] <;>
    omega

theorem sizeOf_hole (hole : TemplateHole) : sizeOf hole.value < sizeOf hole := by
  cases hole
  simp only [TemplateHole.value, TemplateHole.mk.sizeOf_spec]
  omega

theorem sizeOf_lt_of_mem_inner {n child : Node} (h : child ∈ n.inner) :
    sizeOf child < sizeOf n := by
  cases n with
  | writtenType | shorthand => cases h
  | param p =>
    obtain ⟨span, name, type?⟩ := p
    cases type? with
    | none => cases h
    | some type =>
      obtain rfl := List.mem_singleton.1 h
      simp
      omega
  | declarator d =>
    obtain ⟨span, name, type?, initializer?⟩ := d
    cases type? <;> cases initializer? <;> simp [inner, ofType?, ofExpr?] at h
    all_goals rcases h with rfl | rfl <;> simp <;> omega
  | expression e =>
    cases e with
    | ident | number | string | boolean | null => cases h
    | array s elements =>
      obtain ⟨e, mem, rfl⟩ := List.mem_map.1 h
      have := List.sizeOf_lt_of_mem mem
      simp
      omega
    | call s callee args =>
      rcases List.mem_cons.1 h with rfl | h
      · simp
        omega
      · obtain ⟨e, mem, rfl⟩ := List.mem_map.1 h
        have := List.sizeOf_lt_of_mem mem
        simp
        omega
    | object s properties =>
      obtain ⟨p, mem, rfl⟩ := List.mem_map.1 h
      have := List.sizeOf_lt_of_mem mem
      have := sizeOf_property p
      simp
      omega
    | template s head holes =>
      obtain ⟨hole, mem, rfl⟩ := List.mem_map.1 h
      have := List.sizeOf_lt_of_mem mem
      have := sizeOf_hole hole
      simp
      omega
    | cast | binary | conditional | index | paren | leading | trailing | member =>
      simp only [inner, Expr.inner, List.mem_cons, List.not_mem_nil, or_false] at h
      rcases h with rfl | rfl | rfl <;> simp <;> omega

/-- A node and all nodes inside of it, each before those inside of it. -/
def all (n : Node) : List Node := n :: n.inner.attach.flatMap fun child => child.1.all
termination_by sizeOf n
decreasing_by exact sizeOf_lt_of_mem_inner child.2

theorem all_eq (n : Node) : n.all = n :: n.inner.flatMap all := by
  rw [all, List.flatMap_subtype fun _ _ => rfl, List.unattach_attach]

end Node

/-- The outermost nodes of what a function shows before its body. -/
def FunctionHead.outerNodes (head : FunctionHead) : List Node :=
  head.params.map .param ++ Node.ofType? head.returns?

/-- The outermost nodes of variables declared together. -/
def VariableList.outerNodes (list : VariableList) : List Node := list.declarators.map .declarator

def LoopStart.outerNodes : LoopStart → List Node
  | .nothing => []
  | .«variables» _ list => list.outerNodes
  | .expression value => [.expression value]

def LoopClauses.outerNodes (clauses : LoopClauses) : List Node :=
  clauses.start.outerNodes ++ (Node.ofExpr? clauses.condition? ++ Node.ofExpr? clauses.step?)

mutual

/-- The nodes of a statement that are not inside of others, in source order. -/
def Statement.outerNodes : Statement → List Node
  | .function _ head _ body => head.outerNodes ++ Statement.allOuterNodes body
  | .overload _ head => head.outerNodes
  | .importing .. | .empty _ => []
  | .interface _ decl => decl.members.map fun member => .writtenType member.type
  | .typeAlias _ decl => [.writtenType decl.type]
  | .block _ body => Statement.allOuterNodes body
  | .expression _ value => [.expression value]
  | .forLoop _ clauses body => clauses.outerNodes ++ body.outerNodes
  | .returning _ value? => Node.ofExpr? value?
  | .«variables» _ list => list.outerNodes
  | .ifThen _ condition thenBranch => .expression condition :: thenBranch.outerNodes
  | .ifElse _ condition thenBranch elseBranch =>
    .expression condition :: (thenBranch.outerNodes ++ elseBranch.outerNodes)
  | .whileLoop _ condition body => .expression condition :: body.outerNodes
  | .doLoop _ body condition => body.outerNodes ++ [.expression condition]

def Statement.allOuterNodes : List Statement → List Node
  | [] => []
  | s :: rest => s.outerNodes ++ Statement.allOuterNodes rest

end

namespace Program

/-- The nodes of a program that are not inside of others, in source order. -/
def outerNodes (program : Program) : List Node := Statement.allOuterNodes program

/-- The nodes of a program. -/
def nodes (program : Program) : List Node := program.outerNodes.flatMap Node.all

end Program

end ScriptToGo
