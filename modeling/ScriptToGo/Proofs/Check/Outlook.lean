import ScriptToGo.Proofs.Check.Meaning
import ScriptToGo.Proofs.Program.Signatures

/-! What the names in a module stand for, read off the scopes around each place. -/
namespace ScriptToGo

/-- What a name stands for at some place in a module. -/
inductive Binding
  /-- A parameter, or a variable together with the word that declares it. -/
  | variable (keyword? : Option VariableKeyword)
  /-- A function that is imported, or declared inside of another statement. -/
  | function
  /-- What all modules know. -/
  | shared (meaning : Meaning)
  /-- A type that is imported under another name, and what its own name stands for there. -/
  | renamed (own : Binding)

/-- The names that the scopes around a place define, those of the innermost scope first and those of
the module last. In a scope, later definitions stand before earlier ones. -/
abbrev Sight := List (List (String × Binding))

namespace Sight

/-- Defines a name in the innermost scope. -/
def define (sight : Sight) (name : String) (binding : Binding) : Sight :=
  sight.modifyHead ((name, binding) :: ·)

/-- What a name stands for in the module. -/
def local? (sight : Sight) (name : String) : Option Binding := sight.findSome? (·.lookup name)

/-- A function inside of another statement can be seen from its declaration on. -/
def defineFunction (sight : Sight) (head : FunctionHead) : Sight :=
  match head.name? with
  | none => sight
  | some name => sight.define name.text .function

/-- A variable can be seen after its declarator. -/
def defineVariables (sight : Sight) (list : VariableList) : Sight :=
  list.declarators.foldl
    (fun sight d => sight.define d.name.text (.variable (some list.keyword))) sight

/-- The body of a function is in the scope of its parameters. -/
def enterFunction (sight : Sight) (head : FunctionHead) : Sight :=
  head.params.foldl (fun sight p => sight.define p.name.text (.variable none)) ([] :: sight)

/-- The body of a loop and a branch have a scope even without braces. -/
def enterBranch (sight : Sight) : Statement → Sight
  | .block .. => sight
  | _ => [] :: sight

end Sight

/-- Nodes that are all seen from the same place. -/
def seenFrom (sight : Sight) (nodes : List Node) : List (Sight × Node) := nodes.map (sight, ·)

theorem map_snd_seenFrom (sight : Sight) (nodes : List Node) :
    (seenFrom sight nodes).map Prod.snd = nodes := by
  rw [seenFrom, List.map_map]
  exact List.map_id nodes

/-- Nodes and all nodes inside of them, seen from the same place. -/
def seenAll (sight : Sight) (nodes : List Node) : List (Sight × Node) :=
  seenFrom sight (nodes.flatMap Node.all)

theorem seenAll_append (sight : Sight) (nodes more : List Node) :
    seenAll sight (nodes ++ more) = seenAll sight nodes ++ seenAll sight more := by
  rw [seenAll, List.flatMap_append, seenFrom, List.map_append]
  rfl

theorem seenAll_cons (sight : Sight) (n : Node) (rest : List Node) :
    seenAll sight (n :: rest) = seenAll sight [n] ++ seenAll sight rest :=
  seenAll_append sight [n] rest

theorem seenAll_singleton (sight : Sight) (n : Node) :
    seenAll sight [n] = (sight, n) :: seenAll sight n.inner := by
  rw [seenAll, List.flatMap_singleton, Node.all_eq]
  rfl

/-- Outer nodes and all nodes inside of them, which see what the outer ones see. -/
def withInner (outer : List (Sight × Node)) : List (Sight × Node) :=
  outer.flatMap fun v => seenAll v.1 [v.2]

theorem withInner_append (outer more : List (Sight × Node)) :
    withInner (outer ++ more) = withInner outer ++ withInner more := List.flatMap_append

theorem withInner_cons (sight : Sight) (n : Node) (rest : List (Sight × Node)) :
    withInner ((sight, n) :: rest) = seenAll sight [n] ++ withInner rest := List.flatMap_cons

theorem withInner_singleton (sight : Sight) (n : Node) :
    withInner [(sight, n)] = seenAll sight [n] := List.flatMap_singleton _ _

theorem withInner_seenFrom (sight : Sight) (nodes : List Node) :
    withInner (seenFrom sight nodes) = seenAll sight nodes := by
  induction nodes with
  | nil => rfl
  | cons n rest ih =>
    rw [seenAll_cons, ← ih]
    rfl

theorem map_snd_withInner (outer : List (Sight × Node)) :
    (withInner outer).map Prod.snd = (outer.map Prod.snd).flatMap Node.all := by
  rw [withInner, List.map_flatMap, List.flatMap_map]
  refine congrArg (outer.flatMap ·) (funext fun v => ?_)
  rw [seenAll, map_snd_seenFrom, List.flatMap_singleton]

/-- Each declarator with what can be seen from it, which are those before it but not itself. -/
def Declarator.outlooks (keyword : VariableKeyword) (sight : Sight) :
    List Declarator → List (Sight × Node)
  | [] => []
  | d :: rest =>
    (sight, .declarator d) ::
      outlooks keyword (sight.define d.name.text (.variable (some keyword))) rest

def VariableList.outlooks (sight : Sight) (list : VariableList) : List (Sight × Node) :=
  Declarator.outlooks list.keyword sight list.declarators

namespace LoopStart

def outlooks (sight : Sight) : LoopStart → List (Sight × Node)
  | .«variables» _ list => list.outlooks sight
  | start => seenFrom sight start.outerNodes

/-- What can be seen after the first clause of a loop. -/
def after (sight : Sight) : LoopStart → Sight
  | .«variables» _ list => sight.defineVariables list
  | _ => sight

end LoopStart

def LoopClauses.outlooks (sight : Sight) (clauses : LoopClauses) : List (Sight × Node) :=
  clauses.start.outlooks sight ++ seenFrom (clauses.start.after sight)
    (Node.ofExpr? clauses.condition? ++ Node.ofExpr? clauses.step?)

/-- What can be seen after a statement inside of another one. -/
def Statement.after (sight : Sight) : Statement → Sight
  | .function _ head _ _ | .overload _ head => sight.defineFunction head
  | .«variables» _ list => sight.defineVariables list
  | _ => sight

mutual

/-- The outermost nodes of a statement inside of another one, each with what can be seen from it. -/
def Statement.outlooks (sight : Sight) : Statement → List (Sight × Node)
  | .function _ head _ body =>
    seenFrom sight head.outerNodes
      ++ Statement.allOutlooks ((sight.defineFunction head).enterFunction head) body
  | .block _ body => Statement.allOutlooks ([] :: sight) body
  | .forLoop _ clauses body =>
    clauses.outlooks ([] :: sight)
      ++ body.outlooks ((clauses.start.after ([] :: sight)).enterBranch body)
  | .«variables» _ list => list.outlooks sight
  | .ifThen _ condition thenBranch =>
    (sight, .expression condition) :: thenBranch.outlooks (sight.enterBranch thenBranch)
  | .ifElse _ condition thenBranch elseBranch =>
    (sight, .expression condition) :: (thenBranch.outlooks (sight.enterBranch thenBranch)
      ++ elseBranch.outlooks (sight.enterBranch elseBranch))
  | .whileLoop _ condition body =>
    (sight, .expression condition) :: body.outlooks (sight.enterBranch body)
  | .doLoop _ body condition =>
    body.outlooks (sight.enterBranch body) ++ [(sight, .expression condition)]
  | .overload _ head => seenFrom sight head.outerNodes
  | .interface _ decl => seenFrom sight (decl.members.map fun member => .writtenType member.type)
  | .typeAlias _ decl => [(sight, .writtenType decl.type)]
  | .expression _ value => [(sight, .expression value)]
  | .returning _ value? => seenFrom sight (Node.ofExpr? value?)
  | .importing .. | .empty _ => []

/-- The outermost nodes of statements that follow each other, each with what can be seen from it. -/
def Statement.allOutlooks (sight : Sight) : List Statement → List (Sight × Node)
  | [] => []
  | s :: rest => s.outlooks sight ++ Statement.allOutlooks (s.after sight) rest

end

namespace ModuleGraph

variable (g : ModuleGraph)

/-- What a name stands for at a place: what the innermost scope that defines it says, or else what
all modules know. -/
def binding? (sight : Sight) (name : String) : Option Binding :=
  (sight.local? name).or ((g.meaning? name).map .shared)

/-- What can be seen when one of the names that an import lists is defined. A type is known under
its own name everywhere, so that only another name for it is new. -/
def afterImported (m : Module) (sight : Sight) (entry : ImportedName) : Sight :=
  match m.program.findSome? (Statement.export? entry.imported) with
  | some (.function ..) => sight.define entry.localName .function
  | some (.type name) =>
    if entry.localName = name then sight
    else
      match g.binding? sight name with
      | some own => sight.define entry.localName (.renamed own)
      | none => sight
  | none => sight

def afterImport (file : FileId) (sight : Sight) (decl : ImportDecl) : Sight :=
  match g.resolveImport file decl.specifier.text with
  | none => sight
  | some m =>
    decl.named.foldl (g.afterImported m)
      (decl.default?.elim sight fun name => sight.define name.text .function)

/-- What can be seen after a statement that no other one holds. What it declares for all modules can
be seen everywhere. -/
def sightAfter (file : FileId) (sight : Sight) : Statement → Sight
  | .importing _ decl => g.afterImport file sight decl
  | .function .. | .overload .. => sight
  | s => s.after sight

end ModuleGraph

/-- The outermost nodes of a statement that no other one holds, but for those of what it declares
for all modules, each with what can be seen from it. -/
def Statement.topOutlooks (sight : Sight) : Statement → List (Sight × Node)
  | .function _ head _ body => Statement.allOutlooks (sight.enterFunction head) body
  | .overload .. | .interface .. | .typeAlias .. => []
  | s => s.outlooks sight

namespace ModuleGraph

variable (g : ModuleGraph)

/-- The outermost nodes of the statements of a module, each with what can be seen from it. -/
def outerOutlooks (file : FileId) (sight : Sight) : List Statement → List (Sight × Node)
  | [] => []
  | s :: rest => s.topOutlooks sight ++ outerOutlooks file (g.sightAfter file sight s) rest

/-- The nodes of a module that get their types when it is checked, each with what can be seen from
it. Nodes inside of a node see the same. -/
def outlooks (m : Module) : List (Sight × Node) :=
  withInner (g.outerOutlooks m.id [[]] m.program)

end ModuleGraph

theorem Declarator.map_snd_outlooks (keyword : VariableKeyword) (sight : Sight)
    (declarators : List Declarator) :
    (Declarator.outlooks keyword sight declarators).map Prod.snd = declarators.map .declarator := by
  induction declarators generalizing sight with
  | nil => rfl
  | cons d rest ih => rw [outlooks, List.map_cons, List.map_cons, ih]

theorem LoopStart.map_snd_outlooks (sight : Sight) (start : LoopStart) :
    (start.outlooks sight).map Prod.snd = start.outerNodes := by
  cases start with
  | «variables» span list => exact Declarator.map_snd_outlooks _ _ _
  | nothing | expression => exact map_snd_seenFrom _ _

theorem LoopClauses.map_snd_outlooks (sight : Sight) (clauses : LoopClauses) :
    (clauses.outlooks sight).map Prod.snd = clauses.outerNodes := by
  rw [outlooks, List.map_append, LoopStart.map_snd_outlooks, map_snd_seenFrom, outerNodes]

mutual

/-- Every node of a statement is seen from somewhere. -/
theorem Statement.map_snd_outlooks (sight : Sight) (s : Statement) :
    (s.outlooks sight).map Prod.snd = s.outerNodes := by
  match s with
  | .function _ head _ body =>
    rw [outlooks, List.map_append, map_snd_seenFrom, Statement.map_snd_allOutlooks, outerNodes]
  | .block _ body => rw [outlooks, Statement.map_snd_allOutlooks, outerNodes]
  | .forLoop _ clauses body =>
    rw [outlooks, List.map_append, LoopClauses.map_snd_outlooks, Statement.map_snd_outlooks,
      outerNodes]
  | .«variables» _ list => rw [outlooks, outerNodes]; exact Declarator.map_snd_outlooks _ _ _
  | .ifThen _ condition thenBranch =>
    rw [outlooks, List.map_cons, Statement.map_snd_outlooks, outerNodes]
  | .ifElse _ condition thenBranch elseBranch =>
    rw [outlooks, List.map_cons, List.map_append, Statement.map_snd_outlooks,
      Statement.map_snd_outlooks, outerNodes]
  | .whileLoop _ condition body =>
    rw [outlooks, List.map_cons, Statement.map_snd_outlooks, outerNodes]
  | .doLoop _ body condition =>
    rw [outlooks, List.map_append, Statement.map_snd_outlooks, outerNodes]
    rfl
  | .overload .. | .interface .. | .returning .. =>
    rw [outlooks, map_snd_seenFrom, outerNodes]
  | .typeAlias .. | .expression .. | .importing .. | .empty _ =>
    rw [outlooks, outerNodes]
    rfl

theorem Statement.map_snd_allOutlooks (sight : Sight) (statements : List Statement) :
    (Statement.allOutlooks sight statements).map Prod.snd = Statement.allOuterNodes statements := by
  match statements with
  | [] => rfl
  | s :: rest =>
    rw [allOutlooks, List.map_append, Statement.map_snd_outlooks, Statement.map_snd_allOutlooks,
      allOuterNodes]

end

theorem Statement.map_snd_topOutlooks (sight : Sight) (s : Statement) :
    (s.topOutlooks sight).map Prod.snd = s.checkedNodes := by
  cases s with
  | function _ head _ body => exact Statement.map_snd_allOutlooks _ _
  | overload | interface | typeAlias => rfl
  | _ => exact Statement.map_snd_outlooks _ _

namespace ModuleGraph

/-- Every node that gets its type when a module is checked is seen from somewhere. -/
theorem map_snd_outlooks (g : ModuleGraph) (m : Module) :
    (g.outlooks m).map Prod.snd = m.program.checkedNodes := by
  have outer (sight : Sight) (program : List Statement) :
      (g.outerOutlooks m.id sight program).map Prod.snd
        = program.flatMap Statement.checkedNodes := by
    induction program generalizing sight with
    | nil => rfl
    | cons s rest ih =>
      rw [outerOutlooks, List.map_append, Statement.map_snd_topOutlooks, ih, List.flatMap_cons]
  rw [outlooks, map_snd_withInner, outer, List.flatMap_assoc, Program.checkedNodes]

/-- Every expression of a module is seen from somewhere. -/
theorem exists_sight {g : ModuleGraph} {m : Module} {e : Expr}
    (mem : Node.expression e ∈ m.program.nodes) :
    ∃ sight, (sight, .expression e) ∈ g.outlooks m := by
  have checked := Program.expression_mem_checkedNodes mem
  rw [← g.map_snd_outlooks m] at checked
  obtain ⟨⟨sight, _⟩, seen, rfl⟩ := List.mem_map.1 checked
  exact ⟨sight, seen⟩

/-- An outermost node is among those that are seen. -/
theorem mem_outlooks {g : ModuleGraph} {m : Module} {v : Sight × Node}
    (mem : v ∈ g.outerOutlooks m.id [[]] m.program) : v ∈ g.outlooks m := by
  refine List.mem_flatMap.2 ⟨v, mem, ?_⟩
  rw [seenAll_singleton]
  exact List.mem_cons_self

end ModuleGraph

end ScriptToGo
