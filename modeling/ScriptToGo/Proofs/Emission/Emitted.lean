import ScriptToGo.Proofs.Emission.Document
import ScriptToGo.Proofs.Emission.Supported
import ScriptToGo.Proofs.Grammar.NodePlaces
import ScriptToGo.Proofs.Safety

/-! A program is written in Go just when all that is met on the way is supported, and once it has been
checked it is never refused because a type is not known. -/
namespace ScriptToGo

theorem codesOf_isOk {types : TypeTable} {statements : List (Module × Statement)} :
    (∃ codes, codesOf types statements = .ok codes) ↔
      ∀ w ∈ statements, ∃ code, w.2.toGoTopLevel ⟨w.1, types⟩ = .ok code := by
  induction statements with
  | nil => exact iff_of_true ⟨[], rfl⟩ (List.forall_mem_nil _)
  | cons w rest ih =>
    obtain ⟨m, s⟩ := w
    rw [codesOf_cons, List.forall_mem_cons, ← ih]
    cases s.toGoTopLevel ⟨m, types⟩ with
    | error failure => exact iff_of_false nofun fun h => nomatch h.1
    | ok code =>
      rw [and_iff_right ⟨code, rfl⟩]
      cases codesOf types rest with
      | error failure => exact iff_of_false nofun nofun
      | ok codes => exact iff_of_true ⟨_, rfl⟩ ⟨_, rfl⟩

namespace ModuleGraph

/-- The modules that a walk visits, each with the chain of imports that leads there, the last module
first. It starts in the entry and follows every import to a module that is not on the chain. -/
inductive Visits (g : ModuleGraph) : List FileId → Module → Prop
  | entry : g.Visits [g.entry.id] g.entry
  | follow {chain m decl target} : g.Visits chain m → decl ∈ m.program.imports →
      g.resolveImport m.id decl.specifier.text = some target → target.id ∉ chain →
      g.Visits (target.id :: chain) target

/-- A statement of a module is an import that leads to a module. -/
def Resolves (g : ModuleGraph) (m : Module) (s : Statement) : Prop :=
  ∃ decl target, s.import? = some decl ∧
    g.resolveImport m.id decl.specifier.text = some target

/-- Each statement that is met is an import that resolves or a supported function. -/
def Supports (g : ModuleGraph) (types : TypeTable) : Prop :=
  ∀ chain m, g.Visits chain m → ∀ s ∈ m.program,
    g.Resolves m s ∨ s.IsSupportedFunction ⟨m, types⟩

variable {g : ModuleGraph} {chain : List FileId} {m target : Module} {s : Statement}
  {decl : ImportDecl}

/-- What a walk writes for some statements is what it writes for each of them. -/
theorem written_eq_flatMap (chain : List FileId) (m : Module) (statements : List Statement) :
    WalkStep.written m [] (g.walkFrom chain m statements)
      = statements.flatMap fun s => WalkStep.written m [] (g.walkFrom chain m [s]) := by
  induction statements with
  | nil => rw [walkFrom_nil, WalkStep.written, List.flatMap_nil]
  | cons s rest ih =>
    rw [List.flatMap_cons, ← ih]
    cases importing : s.import? with
    | none =>
      rw [walkFrom_other importing, walkFrom_other importing, walkFrom_nil]
      rfl
    | some decl =>
      cases resolved : g.resolveImport m.id decl.specifier.text with
      | none =>
        rw [walkFrom_unresolved importing resolved, walkFrom_unresolved importing resolved,
          walkFrom_nil]
        rfl
      | some target =>
        by_cases seen : target.id ∈ chain
        · rw [walkFrom_skipped importing resolved seen, walkFrom_skipped importing resolved seen,
            walkFrom_nil]
          rfl
        · rw [walkFrom_entered importing resolved seen, walkFrom_entered importing resolved seen,
            WalkStep.written_enter, WalkStep.written_enter, walkFrom_nil, WalkStep.written,
            List.append_nil]

theorem written_of_not_resolves (other : ¬g.Resolves m s) :
    WalkStep.written m [] (g.walkFrom chain m [s]) = [(m, s)] := by
  cases importing : s.import? with
  | none =>
    rw [walkFrom_other importing, walkFrom_nil]
    rfl
  | some decl =>
    cases resolved : g.resolveImport m.id decl.specifier.text with
    | none =>
      rw [walkFrom_unresolved importing resolved, walkFrom_nil]
      rfl
    | some target => exact (other ⟨decl, target, importing, resolved⟩).elim

/-- What is written is what stands in a visited module and is no import that resolves. -/
theorem visits_of_written (chain : List FileId) (m : Module) (statements : List Statement)
    (visited : g.Visits chain m) (own : statements ⊆ m.program) :
    ∀ w ∈ WalkStep.written m [] (g.walkFrom chain m statements),
      (∃ chain, g.Visits chain w.1) ∧ w.2 ∈ w.1.program ∧ ¬g.Resolves w.1 w.2 := by
  induction chain, m, statements using walkFrom.induct g with
  | case1 chain m => simp [WalkStep.written]
  | case2 chain m s rest other ih =>
    rw [walkFrom_other other, WalkStep.written]
    refine List.forall_mem_cons.2 ⟨⟨⟨chain, visited⟩, own List.mem_cons_self, ?_⟩,
      ih visited (List.subset_of_cons_subset own)⟩
    rintro ⟨decl, target, importing, _⟩
    cases other.symm.trans importing
  | case3 chain m s rest decl importing unresolved ih =>
    rw [walkFrom_unresolved importing unresolved, WalkStep.written]
    refine List.forall_mem_cons.2 ⟨⟨⟨chain, visited⟩, own List.mem_cons_self, ?_⟩,
      ih visited (List.subset_of_cons_subset own)⟩
    rintro ⟨decl', target, same, resolved⟩
    obtain rfl := Option.some.inj (importing.symm.trans same)
    cases unresolved.symm.trans resolved
  | case4 chain m s rest decl importing target resolved new ihInner ih =>
    rw [walkFrom_entered importing resolved new, WalkStep.written_enter]
    have imported : decl ∈ m.program.imports :=
      List.mem_filterMap.2 ⟨s, own List.mem_cons_self, importing⟩
    exact List.forall_mem_append.2 ⟨ihInner (visited.follow imported resolved new) (fun _ => id),
      ih visited (List.subset_of_cons_subset own)⟩
  | case5 chain m s rest decl importing target resolved seen ih =>
    rw [walkFrom_skipped importing resolved (Decidable.not_not.1 seen)]
    exact ih visited (List.subset_of_cons_subset own)

/-- All that a walk writes once it is in a visited module is written. -/
theorem Visits.written_subset (h : g.Visits chain m) :
    WalkStep.written m [] (g.walkFrom chain m m.program) ⊆ g.written := by
  induction h with
  | entry => exact fun _ => id
  | @follow chain m decl target _ imported resolved new ih =>
    obtain ⟨s, here, importing⟩ := List.mem_filterMap.1 imported
    refine fun w mem => ih ?_
    rw [written_eq_flatMap]
    refine List.mem_flatMap.2 ⟨s, here, ?_⟩
    rw [walkFrom_entered importing resolved new, WalkStep.written_enter]
    exact List.mem_append_left _ mem

theorem mem_written {w : Module × Statement} :
    w ∈ g.written ↔
      (∃ chain, g.Visits chain w.1) ∧ w.2 ∈ w.1.program ∧ ¬g.Resolves w.1 w.2 := by
  constructor
  · exact visits_of_written _ _ _ .entry (fun _ => id) w
  · rintro ⟨⟨chain, visited⟩, own, other⟩
    refine visited.written_subset ?_
    rw [written_eq_flatMap]
    refine List.mem_flatMap.2 ⟨w.2, own, ?_⟩
    rw [written_of_not_resolves other]
    exact List.mem_singleton_self w

theorem supports_iff {types : TypeTable} :
    g.Supports types ↔ ∀ w ∈ g.written, w.2.IsSupportedFunction ⟨w.1, types⟩ := by
  constructor
  · intro supports w mem
    obtain ⟨⟨chain, visited⟩, own, other⟩ := mem_written.1 mem
    exact (supports chain w.1 visited w.2 own).resolve_left other
  · intro written chain m visited s own
    by_cases resolves : g.Resolves m s
    · exact .inl resolves
    · exact .inr (written (m, s) (mem_written.2 ⟨⟨chain, visited⟩, own, resolves⟩))

end ModuleGraph

theorem Statement.outerNodes_subset {s : Statement} {statements : List Statement}
    (mem : s ∈ statements) : s.outerNodes ⊆ Statement.allOuterNodes statements := by
  induction statements with
  | nil => cases mem
  | cons first rest ih =>
    rw [Statement.allOuterNodes]
    rcases List.mem_cons.1 mem with rfl | mem
    · exact List.subset_append_left _ _
    · exact List.subset_append_of_subset_right _ (ih mem)

/-- The nodes of a statement are nodes of the program that it is in. -/
theorem Statement.nodes_subset {s : Statement} {program : Program} (mem : s ∈ program) :
    s.outerNodes.flatMap Node.all ⊆ program.nodes := by
  intro n inside
  obtain ⟨outer, isOuter, within⟩ := List.mem_flatMap.1 inside
  exact List.mem_flatMap.2 ⟨outer, outerNodes_subset mem isOuter, within⟩

/-- The grammar allows only operators that count up or down behind an operand. -/
theorem Program.trailsUpdate {source : String} {program : Program}
    (parsed : Program.ofSource source = .ok program) {s : Statement} (mem : s ∈ program) :
    ∀ n ∈ s.outerNodes.flatMap Node.all, n.TrailsUpdate := by
  obtain ⟨tokens, lexed, read⟩ := Program.ofSource_eq_ok_iff.1 parsed
  intro n inside
  obtain ⟨own, _, _, written⟩ :=
    Program.node_writtenBy lexed read (Statement.nodes_subset mem inside)
  cases written with
  | expression written leveled =>
    cases ‹Expr› with
    | trailing => exact leveled.2.2
    | _ => trivial
  | _ => trivial

namespace ModuleGraph

variable {sources : Sources} {entry : Path} {g : ModuleGraph}

/-- A loaded program is written in Go, whatever the types and the options, just when each statement
that is met is an import that resolves or a supported function; otherwise it is refused. -/
theorem toGo_isOk_iff_supports (loaded : load sources entry = .ok g) (types : TypeTable)
    (options : Options) :
    ((∃ code, g.toGo types options = .ok code) ↔ g.Supports types) ∧
      (¬g.Supports types → ∃ refusal, g.toGo types options = .error (.refused refusal)) := by
  have isOk : (∃ code, g.toGo types options = .ok code) ↔ g.Supports types := by
    have functions : ∀ w ∈ g.written, (∃ code, w.2.toGoTopLevel ⟨w.1, types⟩ = .ok code) ↔
        w.2.IsSupportedFunction ⟨w.1, types⟩ := by
      intro w mem
      have written := isWritten mem
      have parsed := (isFrom_of_load loaded written.mem).program
      exact (w.2.decidesTopLevel ⟨w.1, types⟩).isOk (Program.trailsUpdate parsed written.statement)
    rw [supports_iff, ← forall₂_congr functions, ← codesOf_isOk, toGo_eq]
    cases codesOf types g.written with
    | error failure => exact iff_of_false nofun nofun
    | ok codes => exact iff_of_true ⟨_, rfl⟩ ⟨_, rfl⟩
  refine ⟨isOk, fun unsupported => ?_⟩
  cases emitted : g.toGo types options with
  | ok code => exact (unsupported (isOk.1 ⟨code, emitted⟩)).elim
  | error failure =>
    cases failure with
    | refused refusal => exact ⟨refusal, rfl⟩
    | misused misuse => exact (toGo_ne_misused loaded types options misuse emitted).elim

/-- The functions of both files are supported, because they are written. -/
theorem halves_supported :
    load (.ofFiles [(⟨"main.ts"⟩, halvesSource), (⟨"half.ts"⟩, halfSource)] []) ⟨"main.ts"⟩
        = .ok halvesGraph ∧
      halvesGraph.toGo halvesTypes .standard = .ok halvesCode ∧ halvesGraph.Supports halvesTypes :=
  ⟨halves_loads, halves_emits,
    (toGo_isOk_iff_supports halves_loads halvesTypes .standard).1.1 ⟨_, halves_emits⟩⟩

/-- A statement whose nodes have types is not refused for want of a type. -/
theorem not_isUntyped_of_toGoTopLevel {types : TypeTable} {m : Module} {s : Statement}
    (typed : (∀ span decl, s ≠ .typeAlias span decl) →
      ∀ n ∈ s.outerNodes.flatMap Node.all, n.IsTyped types m.id)
    {failure : Failure} (h : s.toGoTopLevel ⟨m, types⟩ = .error failure) :
    ¬failure.IsUntyped := by
  by_cases isAlias : ∃ span decl, s = .typeAlias span decl
  · obtain ⟨span, decl, rfl⟩ := isAlias
    have refused : Decides ⟨m, types⟩ [] False
        ((Statement.typeAlias span decl).toGoTopLevel ⟨m, types⟩) := .refuse (by simp)
    exact refused.typed (List.forall_mem_nil _) failure h
  · refine (s.decidesTopLevel ⟨m, types⟩).typed (typed fun span decl same => ?_) failure h
    exact isAlias ⟨span, decl, same⟩

/-- When checking succeeds, each expression, declared variable, parameter, written type and property
that is only a name has a type at its place. Only what a type alias stands for is left out, since
another module may have taken its name. So a checked program is never refused because no type is
recorded for a part of it. -/
theorem nodes_typed_of_check {types : TypeTable} (checked : g.check = .ok types) :
    (∀ m ∈ g.modules, ∀ s ∈ m.program, (∀ span decl, s ≠ .typeAlias span decl) →
      ∀ n ∈ s.outerNodes.flatMap Node.all, ∃ type, types.typeAt m.id n.span = some type) ∧
    ∀ options refusal what, g.toGo types options = .error (.refused refusal) →
      refusal.cause ≠ .unmet (.typeName what .missing) := by
  have typed {m : Module} (hm : m ∈ g.modules) {s : Statement} (hs : s ∈ m.program)
      (notAlias : ∀ span decl, s ≠ .typeAlias span decl) :
      ∀ n ∈ s.outerNodes.flatMap Node.all, n.IsTyped types m.id :=
    isTyped_of_check checked hm hs notAlias
  refine ⟨fun m hm s hs => typed hm hs, fun options refusal what failed cause => ?_⟩
  obtain ⟨w, written, refused⟩ := exists_of_toGo_error failed
  refine not_isUntyped_of_toGoTopLevel (typed written.mem written.statement) refused ?_
  obtain ⟨location, _⟩ := refusal
  exact ⟨location, what, congrArg (fun cause => Failure.refused ⟨location, cause⟩) cause⟩

/-- All parts of the two files have types: what functions take and return, the variable and the clauses
of the loop, and each call with what it calls. -/
theorem halves_nodes_typed :
    halvesGraph.check = .ok halvesTypes ∧
      (halvesGraph.modules.map fun m => m.program.nodes.length) = [17, 6] ∧
      ∀ m ∈ halvesGraph.modules, ∀ s ∈ m.program, (∀ span decl, s ≠ .typeAlias span decl) →
        ∀ n ∈ s.outerNodes.flatMap Node.all, ∃ type, halvesTypes.typeAt m.id n.span = some type :=
  ⟨halves_checks, by decide +kernel, (nodes_typed_of_check halves_checks).1⟩

end ModuleGraph

end ScriptToGo
