import ScriptToGo.Check.Module
import ScriptToGo.Proofs.Program.Renaming
import ScriptToGo.Proofs.Check.Independence

/-! Another local name for one of the names that an import lists. What a program shows to other modules
is not renamed, and they only see what is shown to them. -/
namespace ScriptToGo

/-- A program that imports another module, and one of the names that the import lists. -/
structure ListedName where
  before : List Statement
  span : Span
  default? : Option Name
  whole? : Option Name
  specifier : Name
  earlier : List ImportedName
  entry : ImportedName
  later : List ImportedName
  after : List Statement

namespace ListedName

variable (l : ListedName)

def program : Program :=
  l.before ++ .importing l.span ⟨l.default?, l.whole?, l.earlier ++ l.entry :: l.later, l.specifier⟩ ::
    l.after

/-- What comes before the name, as statements of their own. -/
def first : List Statement :=
  l.before ++ [.importing l.span ⟨l.default?, l.whole?, l.earlier, l.specifier⟩]

/-- What comes after the name, as statements of their own. -/
def rest : List Statement := .importing l.span ⟨none, none, l.later, l.specifier⟩ :: l.after

/-- The import has another local name, and so has all that refers to it. -/
def renamed (name : String) : ListedName :=
  { l with
    entry := { l.entry with localName := name }
    after := Statement.renamedAll ⟨l.entry.localName, name⟩ [] l.after }

end ListedName

theorem Statement.allOuterNodes_append (statements more : List Statement) :
    allOuterNodes (statements ++ more) = allOuterNodes statements ++ allOuterNodes more := by
  induction statements with
  | nil => rfl
  | cons s rest ih =>
    rw [List.cons_append, allOuterNodes, ih, allOuterNodes, List.append_assoc]

/-- The nodes of the renamed program are where those of the program are. -/
theorem ListedName.spans_renamed (l : ListedName) (name : String) :
    (l.renamed name).program.nodes.map Node.span = l.program.nodes.map Node.span := by
  change Node.spans (Statement.allOuterNodes (l.renamed name).program)
    = Node.spans (Statement.allOuterNodes l.program)
  rw [program, program, Statement.allOuterNodes_append, Statement.allOuterNodes_append,
    Node.spans_append, Node.spans_append, Statement.allOuterNodes, Statement.allOuterNodes,
    Node.spans_append, Node.spans_append]
  dsimp only [renamed]
  rw [Statement.spans_renamedAll]
  rfl

namespace Statement

/-- The outermost nodes of what a statement declares for all modules. -/
def shownNodes : Statement → List Node
  | .function _ head _ _ | .overload _ head => head.outerNodes
  | .interface _ decl => decl.members.map fun member => .writtenType member.type
  | .typeAlias _ decl => [.writtenType decl.type]
  | _ => []

/-- What a statement shows to other modules. -/
def shown : Statement → Statement
  | .function span head bodySpan _ => .function span head bodySpan []
  | .overload span head => .overload span head
  | .interface span decl => .interface span decl
  | .typeAlias span decl => .typeAlias span decl
  | _ => .empty .zero

theorem export?_shown (name : String) (s : Statement) : s.shown.export? name = s.export? name := by
  cases s <;> rfl

theorem defaultExport?_shown (s : Statement) : s.shown.defaultExport? = s.defaultExport? := by
  cases s <;> rfl

end Statement

theorem TypeExpr.memberMentions_eq (members : List Member) :
    memberMentions members = members.flatMap fun member => member.type.mentions := by
  induction members with
  | nil => rfl
  | cons member rest ih =>
    obtain ⟨span, name, isOptional, type⟩ := member
    rw [memberMentions, ih]
    rfl

section

variable {f : String → String}

theorem Option.map_renamed_of_mentions {type? : Option TypeExpr}
    (same : ∀ n ∈ Node.ofType? type?, ∀ name ∈ n.mentions, f name = name) :
    type?.map (·.renamed f) = type? := by
  cases type? with
  | none => rfl
  | some type => rw [Option.map_some, type.renamed_eq_self (same _ List.mem_cons_self)]

/-- The head of a function stays as it is if the names that it mentions do. -/
theorem FunctionHead.renamed_eq_self {head : FunctionHead}
    (same : ∀ n ∈ head.outerNodes.flatMap Node.all, ∀ name ∈ n.mentions, f name = name) :
    head.renamed f = head := by
  have params : head.params.map (·.renamed f) = head.params := by
    refine (List.map_congr_left fun p mem => ?_).trans (List.map_id _)
    have type : p.type?.map (·.renamed f) = p.type? := by
      refine Option.map_renamed_of_mentions fun n inside => same n ?_
      refine List.mem_flatMap.2 ⟨.param p, List.mem_append_left _ (List.mem_map_of_mem mem), ?_⟩
      rw [Node.all_eq]
      refine List.mem_cons_of_mem _ (List.mem_flatMap.2 ⟨n, inside, ?_⟩)
      rw [Node.all_eq]
      exact List.mem_cons_self
    rw [Param.renamed, type]
    rfl
  have returns : head.returns?.map (·.renamed f) = head.returns? := by
    refine Option.map_renamed_of_mentions fun n inside => same n ?_
    refine List.mem_flatMap.2 ⟨n, List.mem_append_right _ inside, ?_⟩
    rw [Node.all_eq]
    exact List.mem_cons_self
  rw [FunctionHead.renamed, params, returns]

end

/-- A statement shows the same to other modules under another name for an import that this does not
mention. -/
theorem Statement.shown_renamed {r : LocalName} {s : Statement}
    (same : ∀ n ∈ s.shownNodes.flatMap Node.all, r.old ∉ n.mentions) :
    (s.renamed r []).shown = s.shown := by
  have keeps (n : Node) (shown : n ∈ s.shownNodes.flatMap Node.all) (name : String)
      (mentioned : name ∈ n.mentions) : r.inSight [] name = name :=
    if_neg fun (is : name = r.old ∧ _) => same n shown (is.1 ▸ mentioned)
  cases s with
  | function _ head _ body =>
    rw [renamed, shown, FunctionHead.renamed_eq_self keeps]
    rfl
  | overload _ head => rw [renamed, shown, FunctionHead.renamed_eq_self keeps]; rfl
  | interface _ decl =>
    have members : Member.renamedAll (r.inSight []) decl.members = decl.members := by
      refine Member.renamedAll_eq_self _ fun name mentioned => ?_
      rw [TypeExpr.memberMentions_eq] at mentioned
      obtain ⟨member, mem, mentioned⟩ := List.mem_flatMap.1 mentioned
      refine keeps (.writtenType member.type) ?_ name mentioned
      refine List.mem_flatMap.2 ⟨_, List.mem_map_of_mem mem, ?_⟩
      rw [Node.all_eq]
      exact List.mem_cons_self
    rw [renamed, members]
  | typeAlias _ decl =>
    have type : decl.type.renamed (r.inSight []) = decl.type := by
      refine decl.type.renamed_eq_self (keeps (.writtenType decl.type) ?_)
      refine List.mem_flatMap.2 ⟨_, List.mem_cons_self, ?_⟩
      rw [Node.all_eq]
      exact List.mem_cons_self
    rw [renamed, type]
  | _ => rfl

/-- The renamed program shows the same to other modules, if this does not mention the old name. -/
theorem ListedName.shown_renamed (l : ListedName) (name : String)
    (same : ∀ s ∈ l.after, ∀ n ∈ s.shownNodes.flatMap Node.all, l.entry.localName ∉ n.mentions) :
    (l.renamed name).program.map Statement.shown = l.program.map Statement.shown := by
  have each (statements : List Statement)
      (same : ∀ s ∈ statements, ∀ n ∈ s.shownNodes.flatMap Node.all, l.entry.localName ∉ n.mentions) :
      (Statement.renamedAll ⟨l.entry.localName, name⟩ [] statements).map Statement.shown
        = statements.map Statement.shown := by
    induction statements with
    | nil => rfl
    | cons s rest ih =>
      obtain ⟨here, others⟩ := List.forall_mem_cons.1 same
      rw [Statement.renamedAll, Statement.after_nil, List.map_cons, List.map_cons,
        Statement.shown_renamed here, ih others]
  rw [program, program, List.map_append, List.map_append, List.map_cons, List.map_cons]
  dsimp only [renamed]
  rw [each l.after same]
  rfl

namespace Check

theorem collectTypeName_shown (file : FileId) (s : Statement) :
    collectTypeName file s.shown = collectTypeName file s := by
  cases s <;> rfl

theorem collectDeclaration_shown (file : FileId) (s : Statement) :
    collectDeclaration file s.shown = collectDeclaration file s := by
  cases s <;> rfl

/-- Work that only looks at what statements show is the same for programs that show the same. -/
theorem forM_congr_shown {f : Statement → Check PUnit} (shown : ∀ s, f s.shown = f s)
    {program program' : Program} (same : program'.map Statement.shown = program.map Statement.shown) :
    program'.forM f = program.forM f := by
  have each (program : Program) : program.forM f = (program.map Statement.shown).forM f := by
    refine Eq.trans ?_ List.forM_map.symm
    exact congrArg program.forM (funext fun s => (shown s).symm)
  rw [each program', same, ← each]

end Check

theorem Program.findSome?_congr_shown {β : Type} {f : Statement → Option β}
    (shown : ∀ s, f s.shown = f s) {program program' : Program}
    (same : program'.map Statement.shown = program.map Statement.shown) :
    program'.findSome? f = program.findSome? f := by
  have each (program : Program) : program.findSome? f = (program.map Statement.shown).findSome? f := by
    rw [List.findSome?_map]
    exact congrArg (List.findSome? · program) (funext fun s => (shown s).symm)
  rw [each program', same, ← each]

namespace ModuleGraph

open Check

/-- The graph in which a module has another program. -/
def withProgram (g : ModuleGraph) (file : FileId) (program : Program) : ModuleGraph where
  modules := g.modules.map fun m => if m.id = file then { m with program } else m
  names := g.names
  ne_nil := by simpa using g.ne_nil

variable (g : ModuleGraph) (file : FileId) (program : Program)

/-- What becomes of a module if one of them gets another program. -/
def replaced (m : Module) : Module := if m.id = file then { m with program } else m

@[simp]
theorem id_replaced (m : Module) : (replaced file program m).id = m.id := by
  rw [replaced]
  split <;> rfl

@[simp]
theorem path_replaced (m : Module) : (replaced file program m).path = m.path := by
  rw [replaced]
  split <;> rfl

theorem modules_withProgram :
    (g.withProgram file program).modules = g.modules.map (replaced file program) := rfl

theorem resolveImport_withProgram (importer : FileId) (specifier : String) :
    (g.withProgram file program).resolveImport importer specifier
      = (g.resolveImport importer specifier).map (replaced file program) := by
  have module? (id : FileId) :
      (g.withProgram file program).module? id = (g.module? id).map (replaced file program) :=
    List.getElem?_map
  have lookup (p : Path) :
      (g.withProgram file program).lookup p = (g.lookup p).map (replaced file program) := by
    rw [ModuleGraph.lookup, ModuleGraph.lookup, Option.map_bind]
    exact congrArg (Option.bind _) (funext module?)
  rw [resolveImport, resolveImport, module?, Option.bind_map, Option.map_bind]
  refine congrArg (Option.bind _) (funext fun m => ?_)
  rw [Function.comp, path_replaced, lookup]
  rfl

variable {g file program}

theorem mem_modules_of_resolveImport {importer : FileId} {specifier : String} {m : Module}
    (h : g.resolveImport importer specifier = some m) : m ∈ g.modules := by
  obtain ⟨_, -, found⟩ := Option.bind_eq_some_iff.1 h
  obtain ⟨_, -, found⟩ := Option.bind_eq_some_iff.1 found
  exact List.mem_of_getElem? found

section

variable {u : Module} (ids : (g.modules.map Module.id).Nodup) (mem : u ∈ g.modules)
  (same : program.map Statement.shown = u.program.map Statement.shown)
include ids mem same

/-- Every module shows the same as before. -/
theorem shown_replaced {m : Module} (among : m ∈ g.modules) :
    (replaced u.id program m).program.map Statement.shown = m.program.map Statement.shown := by
  rw [replaced]
  split
  next is =>
    obtain rfl : m = u := List.inj_on_of_nodup_map ids among mem is
    exact same
  · rfl

theorem collect_withProgram : collect (g.withProgram u.id program) = collect g := by
  have pass {f : FileId → Statement → Check PUnit} (shown : ∀ file s, f file s.shown = f file s) :
      ((g.withProgram u.id program).modules.forM fun m => m.program.forM (f m.id))
        = g.modules.forM fun m => m.program.forM (f m.id) := by
    rw [modules_withProgram]
    refine List.forM_map.trans ?_
    have each (list : List Module) (among : ∀ m ∈ list, m ∈ g.modules) :
        (list.forM fun m => (replaced u.id program m).program.forM (f (replaced u.id program m).id))
          = list.forM fun m => m.program.forM (f m.id) := by
      induction list with
      | nil => rfl
      | cons m rest ih =>
        obtain ⟨here, others⟩ := List.forall_mem_cons.1 among
        have first := forM_congr_shown (shown m.id) (shown_replaced ids mem same here)
        rw [← id_replaced u.id program m] at first
        exact congrArg₂ (fun x y => x >>= fun _ => y) (first.trans (by rw [id_replaced])) (ih others)
    exact each g.modules fun _ mem => mem
  rw [collect, collect, pass collectTypeName_shown, pass collectDeclaration_shown]

theorem checkImport_withProgram (file : FileId) (decl : ImportDecl) :
    checkImport (g.withProgram u.id program) file decl = checkImport g file decl := by
  rw [checkImport, checkImport, resolveImport_withProgram]
  cases resolved : g.resolveImport file decl.specifier.text with
  | none => rfl
  | some m =>
    have shown := shown_replaced ids mem same (mem_modules_of_resolveImport resolved)
    have exports (name : String) := Program.findSome?_congr_shown (Statement.export?_shown name) shown
    have default := Program.findSome?_congr_shown Statement.defaultExport?_shown shown
    have entry : checkImportedName file decl.specifier.text (replaced u.id program m)
        = checkImportedName file decl.specifier.text m := by
      funext entry
      rw [checkImportedName, checkImportedName, exports, id_replaced]
    rw [Option.map_some]
    dsimp only
    rw [entry, default, id_replaced]

theorem checkTopLevel_withProgram (file : FileId) :
    checkTopLevel (g.withProgram u.id program) file = checkTopLevel g file := by
  funext s
  cases s with
  | importing _ decl => exact checkImport_withProgram ids mem same file decl
  | _ => rfl

/-- Modules have different numbers and nodes different ranges, as before. -/
theorem isNumbered_withProgram (numbered : g.IsNumbered)
    (spans : program.nodes.map Node.span = u.program.nodes.map Node.span) :
    (g.withProgram u.id program).IsNumbered where
  ids := by
    rw [modules_withProgram, List.map_map]
    exact (List.map_congr_left fun m _ => id_replaced u.id program m) ▸ numbered.ids
  spans := by
    rw [modules_withProgram]
    refine List.forall_mem_map.2 fun m among => ?_
    rw [replaced]
    split
    next is =>
      obtain rfl : m = u := List.inj_on_of_nodup_map ids among mem is
      exact spans ▸ numbered.spans m among
    · exact numbered.spans m among

end

/-- A program is accepted if nothing is wrong with what is collected, and with none of its modules. -/
theorem isOk_check_iff (numbered : g.IsNumbered) : g.check.isOk ↔
    g.collected.errors = [] ∧ ∀ m ∈ g.modules, (g.checkedAfter [m]).errors = [] := by
  have checked := hasChecked numbered (fun m mem => mem) numbered.ids
  constructor
  · intro accepted
    obtain ⟨first, each⟩ := checked.not_failed (not_failed_of_check accepted)
    exact ⟨not_not.1 first, fun m mem => not_not.1 (each m mem)⟩
  · rintro ⟨first, each⟩
    have none : (g.checkedAfter g.modules).errors = [] := by
      rw [checked.errors, first, List.nil_append, List.flatMap_eq_nil_iff]
      intro m mem
      have alone := (g.errors_alone m).1
      rw [each m mem, first, List.nil_append] at alone
      exact alone.symm
    rw [check_eq, none]
    rfl

end ModuleGraph

end ScriptToGo
