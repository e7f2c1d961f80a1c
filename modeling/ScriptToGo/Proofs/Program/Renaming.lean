import ScriptToGo.Proofs.Check.Outlook

/-! Giving what a module imports another name there, with everything that refers to it. Under its old name
everything stays as it is, and under any other every node stays where it is. -/
namespace ScriptToGo

mutual

/-- A written type with other names. Those of wrappers always stand for these. -/
def TypeExpr.renamed (f : String → String) : TypeExpr → TypeExpr
  | .named span name args =>
    .named span (if TypeExpr.isWrapper name then name else f name) (TypeExpr.renamedAll f args)
  | .array span element => .array span (element.renamed f)
  | .object span members => .object span (Member.renamedAll f members)
  | .string span body => .string span body
  | .number span text => .number span text
  | .boolean span value => .boolean span value
  | .null span => .null span

def TypeExpr.renamedAll (f : String → String) : List TypeExpr → List TypeExpr
  | [] => []
  | t :: rest => t.renamed f :: TypeExpr.renamedAll f rest

/-- Members of an object type keep their own names. -/
def Member.renamedAll (f : String → String) : List Member → List Member
  | [] => []
  | .mk span name isOptional t :: rest =>
    .mk span name isOptional (t.renamed f) :: Member.renamedAll f rest

end

mutual

/-- An expression that refers to other names. Properties keep their own names, so that one which takes
the value of the variable of its name is written out if that has another name. -/
def Expr.renamed (f : String → String) : Expr → Expr
  | .array span elements => .array span (Expr.renamedAll f elements)
  | .cast span operand type => .cast span (operand.renamed f) (type.renamed f)
  | .binary span left op opSpan right => .binary span (left.renamed f) op opSpan (right.renamed f)
  | .call span callee args => .call span (callee.renamed f) (Expr.renamedAll f args)
  | .conditional span condition whenTrue whenFalse =>
    .conditional span (condition.renamed f) (whenTrue.renamed f) (whenFalse.renamed f)
  | .index span object index => .index span (object.renamed f) (index.renamed f)
  | .ident span name => .ident span (f name)
  | .object span properties => .object span (Property.renamedAll f properties)
  | .paren span inner => .paren span (inner.renamed f)
  | .leading span op opSpan operand => .leading span op opSpan (operand.renamed f)
  | .trailing span operand op opSpan => .trailing span (operand.renamed f) op opSpan
  | .member span object property => .member span (object.renamed f) property
  | .template span head holes => .template span head (TemplateHole.renamedAll f holes)
  | .number span text => .number span text
  | .string span body => .string span body
  | .boolean span value => .boolean span value
  | .null span => .null span

def Expr.renamedAll (f : String → String) : List Expr → List Expr
  | [] => []
  | e :: rest => e.renamed f :: Expr.renamedAll f rest

def Property.renamedAll (f : String → String) : List Property → List Property
  | [] => []
  | .assign span name value :: rest =>
    .assign span name (value.renamed f) :: Property.renamedAll f rest
  | .shorthand span name :: rest =>
    (if f name.text = name.text then .shorthand span name
      else .assign span name (.ident name.span (f name.text))) :: Property.renamedAll f rest
  | .spread span value :: rest => .spread span (value.renamed f) :: Property.renamedAll f rest

def TemplateHole.renamedAll (f : String → String) : List TemplateHole → List TemplateHole
  | [] => []
  | .mk value after :: rest => .mk (value.renamed f) after :: TemplateHole.renamedAll f rest

end

def Param.renamed (f : String → String) (p : Param) : Param :=
  { p with type? := p.type?.map (·.renamed f) }

/-- A function whose types have other names. -/
def FunctionHead.renamed (f : String → String) (head : FunctionHead) : FunctionHead :=
  { head with
    params := head.params.map (·.renamed f)
    returns? := head.returns?.map (·.renamed f) }

def Declarator.renamed (f : String → String) (d : Declarator) : Declarator :=
  { d with
    type? := d.type?.map (·.renamed f)
    initializer? := d.initializer?.map (·.renamed f) }

namespace Sight

/-- Outside of all scopes that it holds, a sight shows no definitions. -/
theorem foldl_define_nil {α : Type} (name : α → String) (binding : α → Binding) (list : List α) :
    list.foldl (fun sight a => define sight (name a) (binding a)) [] = [] := by
  induction list with
  | nil => rfl
  | cons a rest ih => exact ih

theorem defineFunction_nil (head : FunctionHead) : defineFunction [] head = [] := by
  rw [defineFunction]
  split <;> rfl

end Sight

theorem Statement.after_nil (s : Statement) : s.after [] = [] := by
  cases s with
  | function | overload => exact Sight.defineFunction_nil _
  | «variables» => exact Sight.foldl_define_nil _ _ _
  | _ => rfl

/-- Another local name for what a module imports. -/
structure LocalName where
  old : String
  new : String

namespace LocalName

/-- What refers to the import at a place is what has its old name, unless that is hidden there. -/
def inSight (r : LocalName) (sight : Sight) (name : String) : String :=
  if name = r.old ∧ (sight.local? r.old).isNone then r.new else name

end LocalName

variable (r : LocalName)

/-- Each declarator may hide the import from those after it. -/
def Declarator.renamedAll (keyword : VariableKeyword) (sight : Sight) :
    List Declarator → List Declarator
  | [] => []
  | d :: rest => d.renamed (r.inSight sight) ::
    renamedAll keyword (sight.define d.name.text (.variable (some keyword))) rest

def VariableList.renamed (sight : Sight) (list : VariableList) : VariableList :=
  { list with declarators := Declarator.renamedAll r list.keyword sight list.declarators }

def LoopStart.renamed (sight : Sight) : LoopStart → LoopStart
  | .nothing => .nothing
  | .«variables» span list => .«variables» span (list.renamed r sight)
  | .expression value => .expression (value.renamed (r.inSight sight))

def LoopClauses.renamed (sight : Sight) (clauses : LoopClauses) : LoopClauses :=
  let inside := clauses.start.after sight
  { start := clauses.start.renamed r sight
    condition? := clauses.condition?.map (·.renamed (r.inSight inside))
    step? := clauses.step?.map (·.renamed (r.inSight inside)) }

mutual

/-- A statement with another name for the import, wherever that can be seen. The sight only holds the
scopes inside of the module, so that what other modules declare, and what the module itself declares
for them, has none of it. -/
def Statement.renamed (sight : Sight) : Statement → Statement
  | .function span head bodySpan body =>
    .function span (head.renamed (r.inSight sight)) bodySpan
      (Statement.renamedAll ((sight.defineFunction head).enterFunction head) body)
  | .overload span head => .overload span (head.renamed (r.inSight sight))
  | .importing span decl => .importing span decl
  | .interface span decl =>
    .interface span { decl with members := Member.renamedAll (r.inSight sight) decl.members }
  | .typeAlias span decl => .typeAlias span { decl with type := decl.type.renamed (r.inSight sight) }
  | .block span body => .block span (Statement.renamedAll ([] :: sight) body)
  | .expression span value => .expression span (value.renamed (r.inSight sight))
  | .forLoop span clauses body =>
    .forLoop span (clauses.renamed r ([] :: sight))
      (body.renamed ((clauses.start.after ([] :: sight)).enterBranch body))
  | .returning span value? => .returning span (value?.map (·.renamed (r.inSight sight)))
  | .«variables» span list => .«variables» span (list.renamed r sight)
  | .ifThen span condition thenBranch =>
    .ifThen span (condition.renamed (r.inSight sight)) (thenBranch.renamed (sight.enterBranch thenBranch))
  | .ifElse span condition thenBranch elseBranch =>
    .ifElse span (condition.renamed (r.inSight sight)) (thenBranch.renamed (sight.enterBranch thenBranch))
      (elseBranch.renamed (sight.enterBranch elseBranch))
  | .whileLoop span condition body =>
    .whileLoop span (condition.renamed (r.inSight sight)) (body.renamed (sight.enterBranch body))
  | .doLoop span body condition =>
    .doLoop span (body.renamed (sight.enterBranch body)) (condition.renamed (r.inSight sight))
  | .empty span => .empty span

def Statement.renamedAll (sight : Sight) : List Statement → List Statement
  | [] => []
  | s :: rest => s.renamed sight :: Statement.renamedAll (s.after sight) rest

end

def FunctionHead.declared (head : FunctionHead) : List String :=
  (head.name?.map Name.text).toList ++ head.params.map (·.name.text)

def VariableList.declared (list : VariableList) : List String :=
  list.declarators.map (·.name.text)

def LoopStart.declared : LoopStart → List String
  | .«variables» _ list => list.declared
  | .nothing | .expression _ => []

mutual

/-- The functions, parameters and variables that a statement declares, also inside of it. -/
def Statement.declared : Statement → List String
  | .function _ head _ body => head.declared ++ Statement.allDeclared body
  | .overload _ head => head.declared
  | .block _ body => Statement.allDeclared body
  | .forLoop _ clauses body => clauses.start.declared ++ body.declared
  | .«variables» _ list => list.declared
  | .ifThen _ _ body | .whileLoop _ _ body | .doLoop _ body _ => body.declared
  | .ifElse _ _ thenBranch elseBranch => thenBranch.declared ++ elseBranch.declared
  | .importing .. | .interface .. | .typeAlias .. | .expression .. | .returning .. | .empty _ => []

def Statement.allDeclared : List Statement → List String
  | [] => []
  | s :: rest => s.declared ++ Statement.allDeclared rest

end

/-- The names that a node itself refers to, those of nodes inside of it aside. -/
def Node.mentions : Node → List String
  | .expression (.ident _ name) => [name]
  | .writtenType type => type.mentions
  | .shorthand name => [name.text]
  | .expression _ | .param _ | .declarator _ => []

mutual

/-- A written type stays as it is if the names that it mentions do. -/
theorem TypeExpr.renamed_eq_self {f : String → String} (t : TypeExpr)
    (same : ∀ name ∈ t.mentions, f name = name) : t.renamed f = t := by
  match t with
  | .named span name args =>
    have inner := TypeExpr.renamedAll_eq_self args fun other mem =>
      same other (TypeExpr.mentionsOf_subset mem)
    rw [TypeExpr.renamed, inner]
    split
    · rfl
    next noWrapper =>
      have here : f name = name := by
        refine same name ?_
        rw [TypeExpr.mentions, if_neg noWrapper]
        exact List.mem_cons_self
      rw [here]
  | .array span element =>
    rw [TypeExpr.mentions] at same
    rw [TypeExpr.renamed, TypeExpr.renamed_eq_self element same]
  | .object span members =>
    rw [TypeExpr.mentions] at same
    rw [TypeExpr.renamed, Member.renamedAll_eq_self members same]
  | .string .. | .number .. | .boolean .. | .null .. => rw [TypeExpr.renamed]

theorem TypeExpr.renamedAll_eq_self {f : String → String} (types : List TypeExpr)
    (same : ∀ name ∈ TypeExpr.mentionsOf types, f name = name) :
    TypeExpr.renamedAll f types = types := by
  match types with
  | [] => rfl
  | t :: rest =>
    rw [TypeExpr.mentionsOf] at same
    obtain ⟨here, others⟩ := List.forall_mem_append.1 same
    rw [TypeExpr.renamedAll, TypeExpr.renamed_eq_self t here,
      TypeExpr.renamedAll_eq_self rest others]

theorem Member.renamedAll_eq_self {f : String → String} (members : List Member)
    (same : ∀ name ∈ TypeExpr.memberMentions members, f name = name) :
    Member.renamedAll f members = members := by
  match members with
  | [] => rfl
  | .mk span name isOptional t :: rest =>
    rw [TypeExpr.memberMentions] at same
    obtain ⟨here, others⟩ := List.forall_mem_append.1 same
    rw [Member.renamedAll, TypeExpr.renamed_eq_self t here, Member.renamedAll_eq_self rest others]

end

theorem TypeExpr.renamed_of_id {f : String → String} (same : ∀ name, f name = name)
    (t : TypeExpr) : t.renamed f = t := t.renamed_eq_self fun name _ => same name

mutual

theorem Expr.renamed_of_id {f : String → String} (same : ∀ name, f name = name) (e : Expr) :
    e.renamed f = e := by
  match e with
  | .array span elements => rw [Expr.renamed, Expr.renamedAll_of_id same elements]
  | .cast span operand type =>
    rw [Expr.renamed, Expr.renamed_of_id same operand, type.renamed_of_id same]
  | .binary span left op opSpan right =>
    rw [Expr.renamed, Expr.renamed_of_id same left, Expr.renamed_of_id same right]
  | .call span callee args =>
    rw [Expr.renamed, Expr.renamed_of_id same callee, Expr.renamedAll_of_id same args]
  | .conditional span condition whenTrue whenFalse =>
    rw [Expr.renamed, Expr.renamed_of_id same condition, Expr.renamed_of_id same whenTrue,
      Expr.renamed_of_id same whenFalse]
  | .index span object index =>
    rw [Expr.renamed, Expr.renamed_of_id same object, Expr.renamed_of_id same index]
  | .ident span name => rw [Expr.renamed, same]
  | .object span properties => rw [Expr.renamed, Property.renamedAll_of_id same properties]
  | .paren span inner => rw [Expr.renamed, Expr.renamed_of_id same inner]
  | .leading span op opSpan operand | .trailing span operand op opSpan =>
    rw [Expr.renamed, Expr.renamed_of_id same operand]
  | .member span object property => rw [Expr.renamed, Expr.renamed_of_id same object]
  | .template span head holes => rw [Expr.renamed, TemplateHole.renamedAll_of_id same holes]
  | .number .. | .string .. | .boolean .. | .null .. => rw [Expr.renamed]

theorem Expr.renamedAll_of_id {f : String → String} (same : ∀ name, f name = name)
    (elements : List Expr) : Expr.renamedAll f elements = elements := by
  match elements with
  | [] => rfl
  | e :: rest => rw [Expr.renamedAll, Expr.renamed_of_id same e, Expr.renamedAll_of_id same rest]

theorem Property.renamedAll_of_id {f : String → String} (same : ∀ name, f name = name)
    (properties : List Property) : Property.renamedAll f properties = properties := by
  match properties with
  | [] => rfl
  | .assign span name value :: rest | .spread span value :: rest =>
    rw [Property.renamedAll, Expr.renamed_of_id same value, Property.renamedAll_of_id same rest]
  | .shorthand span name :: rest =>
    rw [Property.renamedAll, if_pos (same _), Property.renamedAll_of_id same rest]

theorem TemplateHole.renamedAll_of_id {f : String → String} (same : ∀ name, f name = name)
    (holes : List TemplateHole) : TemplateHole.renamedAll f holes = holes := by
  match holes with
  | [] => rfl
  | .mk value after :: rest =>
    rw [TemplateHole.renamedAll, Expr.renamed_of_id same value,
      TemplateHole.renamedAll_of_id same rest]

end

namespace LocalName

/-- A name that stays the same is the same wherever it is seen. -/
theorem inSight_of_same {r : LocalName} (same : r.new = r.old) (sight : Sight) (name : String) :
    r.inSight sight name = name := by
  rw [inSight]
  split
  next is => rw [same, is.1]
  · rfl

end LocalName

theorem Option.map_renamed_type {f : String → String} (same : ∀ name, f name = name)
    (type? : Option TypeExpr) : type?.map (·.renamed f) = type? := by
  cases type? with
  | none => rfl
  | some type => rw [Option.map_some, type.renamed_of_id same]

theorem Option.map_renamed_expr {f : String → String} (same : ∀ name, f name = name)
    (e? : Option Expr) : e?.map (·.renamed f) = e? := by
  cases e? with
  | none => rfl
  | some e => rw [Option.map_some, e.renamed_of_id same]

theorem FunctionHead.renamed_of_id {f : String → String} (same : ∀ name, f name = name)
    (head : FunctionHead) : head.renamed f = head := by
  have params : head.params.map (·.renamed f) = head.params := by
    refine (List.map_congr_left fun p _ => ?_).trans (List.map_id _)
    rw [Param.renamed, Option.map_renamed_type same]
    rfl
  rw [FunctionHead.renamed, params, Option.map_renamed_type same]

section

variable {r : LocalName} (same : r.new = r.old)
include same

theorem Declarator.renamedAll_of_same (keyword : VariableKeyword) (sight : Sight)
    (declarators : List Declarator) :
    Declarator.renamedAll r keyword sight declarators = declarators := by
  induction declarators generalizing sight with
  | nil => rfl
  | cons d rest ih =>
    rw [renamedAll, ih, Declarator.renamed, Option.map_renamed_type (LocalName.inSight_of_same same _),
      Option.map_renamed_expr (LocalName.inSight_of_same same _)]

theorem VariableList.renamed_of_same (sight : Sight) (list : VariableList) :
    list.renamed r sight = list := by
  rw [VariableList.renamed, Declarator.renamedAll_of_same same]

theorem LoopClauses.renamed_of_same (sight : Sight) (clauses : LoopClauses) :
    clauses.renamed r sight = clauses := by
  have start : clauses.start.renamed r sight = clauses.start := by
    cases clauses.start with
    | nothing => rfl
    | «variables» _ list => rw [LoopStart.renamed, list.renamed_of_same same]
    | expression value =>
      rw [LoopStart.renamed, value.renamed_of_id (LocalName.inSight_of_same same _)]
  rw [LoopClauses.renamed, start, Option.map_renamed_expr (LocalName.inSight_of_same same _),
    Option.map_renamed_expr (LocalName.inSight_of_same same _)]

end

mutual

theorem Statement.renamed_of_same {r : LocalName} (same : r.new = r.old) (sight : Sight)
    (s : Statement) : s.renamed r sight = s := by
  have id := LocalName.inSight_of_same same
  match s with
  | .function _ head _ body =>
    rw [Statement.renamed, head.renamed_of_id (id _), Statement.renamedAll_of_same same]
  | .overload _ head => rw [Statement.renamed, head.renamed_of_id (id _)]
  | .interface _ decl =>
    rw [Statement.renamed, Member.renamedAll_eq_self _ fun name _ => id _ name]
  | .typeAlias _ decl => rw [Statement.renamed, decl.type.renamed_of_id (id _)]
  | .block _ body => rw [Statement.renamed, Statement.renamedAll_of_same same]
  | .expression _ value => rw [Statement.renamed, value.renamed_of_id (id _)]
  | .forLoop _ clauses body =>
    rw [Statement.renamed, clauses.renamed_of_same same, Statement.renamed_of_same same]
  | .returning _ value? => rw [Statement.renamed, Option.map_renamed_expr (id _)]
  | .«variables» _ list => rw [Statement.renamed, list.renamed_of_same same]
  | .ifThen _ condition body | .whileLoop _ condition body | .doLoop _ body condition =>
    rw [Statement.renamed, condition.renamed_of_id (id _), Statement.renamed_of_same same]
  | .ifElse _ condition thenBranch elseBranch =>
    rw [Statement.renamed, condition.renamed_of_id (id _), Statement.renamed_of_same same,
      Statement.renamed_of_same same]
  | .importing .. | .empty _ => rw [Statement.renamed]

theorem Statement.renamedAll_of_same {r : LocalName} (same : r.new = r.old) (sight : Sight)
    (statements : List Statement) : Statement.renamedAll r sight statements = statements := by
  match statements with
  | [] => rfl
  | s :: rest =>
    rw [Statement.renamedAll, Statement.renamed_of_same same, Statement.renamedAll_of_same same]

end

section

variable (f : String → String)

@[simp]
theorem TypeExpr.span_renamed (t : TypeExpr) : (t.renamed f).span = t.span := by
  cases t <;> rfl

@[simp]
theorem Expr.span_renamed (e : Expr) : (e.renamed f).span = e.span := by
  cases e <;> rfl

theorem Expr.renamedAll_eq_map (elements : List Expr) :
    Expr.renamedAll f elements = elements.map (·.renamed f) := by
  induction elements with
  | nil => rfl
  | cons e rest ih => rw [renamedAll, ih, List.map_cons]

/-- A node that refers to other names. -/
def Node.renamed : Node → Node
  | .expression e => .expression (e.renamed f)
  | .writtenType type => .writtenType (type.renamed f)
  | .param p => .param (p.renamed f)
  | .declarator d => .declarator (d.renamed f)
  | .shorthand name =>
    if f name.text = name.text then .shorthand name else .expression (.ident name.span (f name.text))

theorem Property.map_node_renamedAll (properties : List Property) :
    (Property.renamedAll f properties).map Property.node
      = (properties.map Property.node).map (·.renamed f) := by
  induction properties with
  | nil => rfl
  | cons p rest ih =>
    cases p with
    | assign | spread =>
      rw [renamedAll, List.map_cons, ih]
      rfl
    | shorthand span name =>
      rw [renamedAll, List.map_cons, ih, List.map_cons, List.map_cons]
      congr 1
      change _ = Node.renamed f (.shorthand name)
      rw [Node.renamed]
      split <;> rfl

theorem TemplateHole.map_value_renamedAll (holes : List TemplateHole) :
    ((TemplateHole.renamedAll f holes).map fun hole => Node.expression hole.value)
      = (holes.map fun hole => Node.expression hole.value).map (·.renamed f) := by
  induction holes with
  | nil => rfl
  | cons hole rest ih =>
    obtain ⟨value, after⟩ := hole
    rw [renamedAll, List.map_cons, ih]
    rfl

theorem Node.ofType?_renamed (type? : Option TypeExpr) :
    Node.ofType? (type?.map (·.renamed f)) = (Node.ofType? type?).map (·.renamed f) := by
  cases type? <;> rfl

theorem Node.ofExpr?_renamed (e? : Option Expr) :
    Node.ofExpr? (e?.map (·.renamed f)) = (Node.ofExpr? e?).map (·.renamed f) := by
  cases e? <;> rfl

theorem Expr.map_expression_renamedAll (elements : List Expr) :
    (Expr.renamedAll f elements).map Node.expression
      = (elements.map Node.expression).map (·.renamed f) := by
  rw [renamedAll_eq_map, List.map_map, List.map_map]
  rfl

theorem Expr.inner_renamed (e : Expr) : (e.renamed f).inner = e.inner.map (·.renamed f) := by
  cases e with
  | array _ elements => exact map_expression_renamedAll f elements
  | call _ callee args => exact congrArg (_ :: ·) (map_expression_renamedAll f args)
  | object _ properties => exact Property.map_node_renamedAll f properties
  | template _ _ holes => exact TemplateHole.map_value_renamedAll f holes
  | _ => rfl

theorem Node.span_renamed (n : Node) : (n.renamed f).span = n.span := by
  cases n with
  | expression e => exact e.span_renamed f
  | writtenType type => exact type.span_renamed f
  | param | declarator => rfl
  | shorthand name =>
    rw [renamed]
    split <;> rfl

theorem Node.inner_renamed (n : Node) : (n.renamed f).inner = n.inner.map (·.renamed f) := by
  cases n with
  | expression e => exact e.inner_renamed f
  | writtenType type => rfl
  | param p => exact ofType?_renamed f p.type?
  | declarator d =>
    change Node.ofType? (d.type?.map (·.renamed f)) ++ Node.ofExpr? (d.initializer?.map (·.renamed f))
      = (Node.ofType? d.type? ++ Node.ofExpr? d.initializer?).map (·.renamed f)
    rw [ofType?_renamed, ofExpr?_renamed, List.map_append]
  | shorthand name =>
    rw [renamed]
    split <;> rfl

/-- The ranges of a node and of all nodes inside of it. -/
theorem Node.map_span_all_renamed (n : Node) :
    (n.renamed f).all.map Node.span = n.all.map Node.span := by
  rw [all_eq, all_eq n, List.map_cons, List.map_cons, span_renamed, inner_renamed, List.flatMap_map,
    List.map_flatMap, List.map_flatMap]
  refine congrArg (n.span :: ·) (List.flatMap_congr fun child mem => ?_)
  exact Node.map_span_all_renamed child
termination_by sizeOf n
decreasing_by exact sizeOf_lt_of_mem_inner mem

end

/-- The ranges of nodes and of all nodes inside of them. -/
def Node.spans (nodes : List Node) : List Span := (nodes.flatMap Node.all).map Node.span

namespace Node

theorem spans_append (nodes more : List Node) : spans (nodes ++ more) = spans nodes ++ spans more := by
  rw [spans, List.flatMap_append, List.map_append]
  rfl

theorem spans_cons (n : Node) (rest : List Node) : spans (n :: rest) = spans [n] ++ spans rest :=
  spans_append [n] rest

theorem spans_renamed (f : String → String) (nodes : List Node) :
    spans (nodes.map (·.renamed f)) = spans nodes := by
  rw [spans, spans, List.flatMap_map, List.map_flatMap, List.map_flatMap]
  exact List.flatMap_congr fun n _ => n.map_span_all_renamed f

theorem spans_expression (f : String → String) (e : Expr) :
    spans [.expression (e.renamed f)] = spans [.expression e] := spans_renamed f [.expression e]

theorem spans_ofExpr? (f : String → String) (e? : Option Expr) :
    spans (ofExpr? (e?.map (·.renamed f))) = spans (ofExpr? e?) := by
  rw [ofExpr?_renamed, spans_renamed]

end Node

open Node

theorem FunctionHead.spans_renamed (f : String → String) (head : FunctionHead) :
    Node.spans (head.renamed f).outerNodes = Node.spans head.outerNodes := by
  have nodes : (head.renamed f).outerNodes = head.outerNodes.map (·.renamed f) := by
    rw [outerNodes, outerNodes, List.map_append, FunctionHead.renamed]
    dsimp only
    rw [ofType?_renamed, List.map_map, List.map_map]
    rfl
  rw [nodes, Node.spans_renamed]

theorem Declarator.spans_renamedAll (keyword : VariableKeyword) (sight : Sight)
    (declarators : List Declarator) :
    Node.spans ((Declarator.renamedAll r keyword sight declarators).map .declarator)
      = Node.spans (declarators.map .declarator) := by
  induction declarators generalizing sight with
  | nil => rfl
  | cons d rest ih =>
    rw [renamedAll, List.map_cons, List.map_cons, spans_cons, ih, spans_cons (.declarator d)]
    exact congrArg (· ++ _) (Node.spans_renamed _ [.declarator d])

theorem VariableList.spans_renamed (sight : Sight) (list : VariableList) :
    Node.spans (list.renamed r sight).outerNodes = Node.spans list.outerNodes :=
  Declarator.spans_renamedAll r list.keyword sight list.declarators

theorem LoopClauses.spans_renamed (sight : Sight) (clauses : LoopClauses) :
    Node.spans (clauses.renamed r sight).outerNodes = Node.spans clauses.outerNodes := by
  have start : Node.spans (clauses.start.renamed r sight).outerNodes = Node.spans clauses.start.outerNodes := by
    cases clauses.start with
    | nothing => rfl
    | «variables» _ list => exact list.spans_renamed r sight
    | expression value => exact spans_expression _ value
  rw [LoopClauses.outerNodes, LoopClauses.outerNodes, LoopClauses.renamed]
  simp only [spans_append, spans_ofExpr?, start]

theorem Member.spans_renamedAll (f : String → String) (members : List Member) :
    Node.spans ((Member.renamedAll f members).map fun member => .writtenType member.type)
      = Node.spans (members.map fun member => .writtenType member.type) := by
  induction members with
  | nil => rfl
  | cons member rest ih =>
    obtain ⟨span, name, isOptional, type⟩ := member
    have here := Node.spans_renamed f [.writtenType type]
    exact (spans_cons _ _).trans ((congrArg₂ (· ++ ·) here ih).trans (spans_cons _ _).symm)

mutual

theorem Statement.spans_renamed (sight : Sight) (s : Statement) :
    Node.spans (s.renamed r sight).outerNodes = Node.spans s.outerNodes := by
  match s with
  | .function _ head _ body =>
    rw [renamed, outerNodes, outerNodes, spans_append, spans_append, head.spans_renamed,
      Statement.spans_renamedAll]
  | .overload _ head => exact head.spans_renamed _
  | .interface _ decl => exact Member.spans_renamedAll _ decl.members
  | .typeAlias _ decl => exact Node.spans_renamed _ [.writtenType decl.type]
  | .block _ body =>
    rw [renamed, outerNodes, outerNodes, Statement.spans_renamedAll]
  | .expression _ value => exact spans_expression _ value
  | .forLoop _ clauses body =>
    rw [renamed, outerNodes, outerNodes, spans_append, spans_append, clauses.spans_renamed,
      Statement.spans_renamed]
  | .returning _ value? => exact spans_ofExpr? _ value?
  | .«variables» _ list => exact list.spans_renamed r sight
  | .ifThen _ condition body | .whileLoop _ condition body =>
    rw [renamed, outerNodes, outerNodes, spans_cons, spans_expression, Statement.spans_renamed,
      ← spans_cons]
  | .ifElse _ condition thenBranch elseBranch =>
    rw [renamed, outerNodes, outerNodes, spans_cons, spans_expression, spans_append,
      Statement.spans_renamed, Statement.spans_renamed, ← spans_append, ← spans_cons]
  | .doLoop _ body condition =>
    rw [renamed, outerNodes, outerNodes, spans_append, spans_append, spans_expression,
      Statement.spans_renamed]
  | .importing .. | .empty _ => rfl

theorem Statement.spans_renamedAll (sight : Sight) (statements : List Statement) :
    Node.spans (Statement.allOuterNodes (Statement.renamedAll r sight statements))
      = Node.spans (Statement.allOuterNodes statements) := by
  match statements with
  | [] => rfl
  | s :: rest =>
    rw [renamedAll, allOuterNodes, allOuterNodes, spans_append, spans_append,
      Statement.spans_renamed, Statement.spans_renamedAll]

end

end ScriptToGo
