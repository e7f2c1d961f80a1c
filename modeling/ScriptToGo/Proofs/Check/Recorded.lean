import ScriptToGo.Proofs.Check.Sound
import ScriptToGo.Proofs.Check.Traversal
import ScriptToGo.Proofs.Program.Nodes

/-! Unless checking fails, it gives a type to every part of a program that can have one. -/
namespace ScriptToGo
open Check

/-- A type is recorded for a node of a module. -/
def Node.IsTyped (types : TypeTable) (file : FileId) (n : Node) : Prop :=
  ∃ type, types.typeAt file n.span = some type

theorem TypeTable.exists_typeAt_record {types : TypeTable} {file other : FileId} {span place : Span}
    {type : Ty} (h : ∃ known, types.typeAt other place = some known) :
    ∃ known, (types.record file span type).typeAt other place = some known := by
  rw [typeAt, record, List.lookup_cons]
  split
  · exact ⟨type, rfl⟩
  · exact h

theorem TypeTable.typeAt_record (types : TypeTable) (file : FileId) (span : Span) (type : Ty) :
    (types.record file span type).typeAt file span = some type := List.lookup_cons_self

/-- What is true at a later moment of checking: errors stay, and what has a type keeps having one. -/
structure CheckState.Grows (s t : CheckState) : Prop where
  failed : s.Failed → t.Failed
  typed : ∀ file (n : Node), n.IsTyped s.types file → n.IsTyped t.types file

theorem CheckState.grows_report (s : CheckState) (e : TypeError) : s.Grows (s.report e) where
  failed _ := s.failed_report e
  typed _ _ := id

theorem CheckState.stepRelation_grows : StepRelation CheckState.Grows where
  refl _ := ⟨id, fun _ _ => id⟩
  trans first second :=
    ⟨fun h => second.failed (first.failed h), fun file n h => second.typed file n (first.typed file n h)⟩
  report s e _ := s.grows_report e
  record _ _ _ _ := ⟨id, fun _ _ => TypeTable.exists_typeAt_record⟩
  define _ _ _ _ _ := ⟨id, fun _ _ => id⟩
  setKind _ _ _ := ⟨id, fun _ _ => id⟩
  setReturnType _ _ := ⟨id, fun _ _ => id⟩
  scope _ _ _ inside := ⟨inside.failed, inside.typed⟩

open CheckState (stepRelation_grows)

namespace Check

/-- Work after which nodes of a module have types, unless an error has been reported. -/
structure Records (file : FileId) (nodes : List Node) {α : Type} (work : Check α) : Prop where
  grows : Keeps CheckState.Grows work
  typed : ∀ s, ¬(work.run s).2.Failed → ∀ n ∈ nodes, n.IsTyped (work.run s).2.types file

namespace Records

variable {file : FileId} {nodes first second more : List Node} {α β : Type} {x : Check α}
  {f : α → Check β}

theorem nothing (h : Keeps CheckState.Grows x) : Records file [] x :=
  ⟨h, fun _ _ => List.forall_mem_nil _⟩

theorem pure (a : α) : Records file [] (Pure.pure a) := nothing (keeps_pure stepRelation_grows a)

theorem of_subset (h : Records file more x) (sub : nodes ⊆ more) : Records file nodes x :=
  ⟨h.grows, fun s clean n mem => h.typed s clean n (sub mem)⟩

theorem bind (before : Records file first x) (after : ∀ a, Records file second (f a)) :
    Records file (first ++ second) (x >>= f) where
  grows := keeps_bind stepRelation_grows before.grows fun a => (after a).grows
  typed s clean n mem := by
    have grows := (after (x.run s).1).grows (x.run s).2
    rcases List.mem_append.1 mem with mem | mem
    · exact grows.typed file n (before.typed s (fun failed => clean (grows.failed failed)) n mem)
    · exact (after _).typed _ clean n mem

/-- Work that is done before adds nothing. -/
theorem andThen (before : Keeps CheckState.Grows x) (after : ∀ a, Records file nodes (f a)) :
    Records file nodes (x >>= f) := (nothing before).bind after

theorem thenNothing (before : Records file nodes x) (after : ∀ a, Records file [] (f a)) :
    Records file nodes (x >>= f) := (before.bind after).of_subset (by simp)

/-- Work that is done afterwards takes nothing away. -/
theorem followed (before : Records file nodes x) (after : ∀ a, Keeps CheckState.Grows (f a)) :
    Records file nodes (x >>= f) := before.thenNothing fun a => nothing (after a)

theorem returns (h : Records file nodes x) {g : α → β} :
    Records file nodes (x >>= fun a => Pure.pure (g a)) :=
  h.followed fun _ => keeps_pure stepRelation_grows _

theorem discard (h : Records file nodes x) : Records file nodes (Functor.discard x) :=
  ⟨h.grows, h.typed⟩

/-- Once an error has been reported, nothing needs to be recorded. -/
theorem report {fault : TypeFault} {other : FileId} {span : Span} :
    Records file nodes (Check.report other fault span) :=
  ⟨fun s => s.grows_report _, fun s clean => (clean (s.failed_report _)).elim⟩

theorem fault {fault : TypeFault} {other : FileId} {span : Span} :
    Records file nodes (Check.fault other fault span) :=
  report.followed fun _ => keeps_pure stepRelation_grows _

/-- A node that gets its type after the nodes inside of it. -/
theorem recording {n : Node} {find : Check Ty} (h : Records file (n.inner.flatMap Node.all) find) :
    Records file n.all (Check.recording file n.span find) where
  grows := keeps_recording stepRelation_grows file n.span h.grows
  typed s clean m mem := by
    rw [Node.all_eq] at mem
    rcases List.mem_cons.1 mem with rfl | mem
    · exact ⟨_, TypeTable.typeAt_record _ file m.span _⟩
    · exact TypeTable.exists_typeAt_record (h.typed s clean m mem)

theorem settle {use : Use} {n : Node} {find : Check Ty}
    (h : Records file (n.inner.flatMap Node.all) find) :
    Records file n.all (Check.settle file use n.span find) := by
  refine h.recording.thenNothing fun type => ?_
  split
  · exact pure _
  · exact fault

theorem inScope {kind : ScopeKind} {work : Check PUnit} (h : Records file nodes work) :
    Records file nodes (Check.inScope kind work) :=
  ⟨keeps_inScope stepRelation_grows kind h.grows, fun _ => h.typed _⟩

theorem optionForM {a? : Option α} {nodesOf : α → List Node} {f : α → Check PUnit}
    (h : ∀ a, Records file (nodesOf a) (f a)) :
    Records file (a?.toList.flatMap nodesOf) (a?.forM f) := by
  cases a? with
  | none => exact pure _
  | some a => exact (h a).of_subset (by simp)

theorem optionMapM {a? : Option α} {nodesOf : α → List Node} {f : α → Check β}
    (h : ∀ a, Records file (nodesOf a) (f a)) :
    Records file (a?.toList.flatMap nodesOf) (a?.mapM f) := by
  cases a? with
  | none => exact pure _
  | some a => exact ⟨(h a).grows, fun _ clean n mem => (h a).typed _ clean n (by simpa using mem)⟩

theorem forM {list : List α} {nodesOf : α → List Node} {f : α → Check PUnit}
    (h : ∀ a, Records file (nodesOf a) (f a)) :
    Records file (list.flatMap nodesOf) (list.forM f) := by
  induction list with
  | nil => exact pure _
  | cons a rest ih => exact (h a).bind fun _ => ih

/-- What one of several pieces of work records is recorded when all are done. -/
theorem forM_of_mem {list : List α} {f : α → Check PUnit} {a : α} (mem : a ∈ list)
    (keeps : ∀ b ∈ list, Keeps CheckState.Grows (f b)) (h : Records file nodes (f a)) :
    Records file nodes (list.forM f) := by
  induction list with
  | nil => cases mem
  | cons b rest ih =>
    obtain ⟨here, others⟩ := List.forall_mem_cons.1 keeps
    rcases List.mem_cons.1 mem with rfl | mem
    · exact h.followed fun _ => keeps_forM stepRelation_grows others
    · exact andThen here fun _ => ih mem others

end Records

end Check

theorem Node.ofType?_eq_flatMap (type? : Option TypeExpr) :
    (Node.ofType? type?).flatMap Node.all
      = type?.toList.flatMap fun type => (Node.writtenType type).all := by
  cases type? <;> rfl

theorem Node.ofExpr?_eq_flatMap (e? : Option Expr) :
    (Node.ofExpr? e?).flatMap Node.all = e?.toList.flatMap fun e => (Node.expression e).all := by
  cases e? <;> rfl

namespace Check

theorem records_resolveType (file : FileId) (type : TypeExpr) :
    Records file (Node.writtenType type).all (resolveType file type) := by
  refine .andThen (keeps_definedNames stepRelation_grows) fun free => .recording (.nothing ?_)
  exact keeps_typeOf stepRelation_grows file
    (fun name span => keeps_aliasType stepRelation_grows free file name span) type

theorem records_resolveOptional (file : FileId) (type? : Option TypeExpr) :
    Records file ((Node.ofType? type?).flatMap Node.all) (resolveOptional file type?) := by
  rw [Node.ofType?_eq_flatMap]
  cases type? with
  | none => exact .pure _
  | some type => exact (records_resolveType file type).of_subset (by simp)

end Check

mutual

theorem Expr.records_check (file : FileId) (use : Use) (e : Expr) :
    Records file (Node.expression e).all (e.check file use) := by
  match e with
  | .ident span name =>
    rw [Expr.check]
    have typed : Records file (Node.expression (.ident span name)).all
        (recording file span (typeOfName file name span)) :=
      .recording (.nothing (keeps_typeOfName stepRelation_grows _ _ _))
    refine typed.followed fun type => ?_
    split
    · exact keeps_pure stepRelation_grows _
    · exact keeps_bind stepRelation_grows (keeps_requireWritable stepRelation_grows _ _ _) fun _ =>
        keeps_pure stepRelation_grows _
  | .member span object property =>
    rw [Expr.check]
    refine .recording ?_
    simp only [Node.inner, Expr.inner, List.flatMap_singleton]
    exact (Expr.records_check file (.value none) object).followed fun _ =>
      keeps_typeOfMember stepRelation_grows _ _ _
  | .index span object index =>
    rw [Expr.check]
    refine .recording ?_
    simp only [Node.inner, Expr.inner, List.flatMap_cons, List.flatMap_nil, List.append_nil]
    refine (Expr.records_check file (.value none) object).bind fun type => ?_
    exact (Expr.records_check file (.value none) index).discard.returns
  | .paren span inner =>
    rw [Expr.check]
    refine .recording ?_
    simp only [Node.inner, Expr.inner, List.flatMap_singleton]
    exact Expr.records_check file use inner
  | .number .. | .string .. | .boolean .. | .null .. =>
    rw [Expr.check]
    exact .settle (.pure _)
  | .template span head holes =>
    rw [Expr.check]
    exact .settle (TemplateHole.records_checkAll file holes).returns
  | .array span elements =>
    rw [Expr.check]
    refine .settle ((Expr.records_checkElements file _ elements).followed fun _ => ?_)
    split <;> exact keeps_pure stepRelation_grows _
  | .object span properties =>
    rw [Expr.check]
    exact .settle (Property.records_checkAll file [] properties).returns
  | .leading span op opSpan operand =>
    rw [Expr.check]
    refine .settle ?_
    simp only [Node.inner, Expr.inner, List.flatMap_singleton]
    refine (Expr.records_check file _ operand).followed fun _ => ?_
    split <;> exact keeps_pure stepRelation_grows _
  | .trailing span operand op opSpan =>
    rw [Expr.check]
    refine .settle ?_
    simp only [Node.inner, Expr.inner, List.flatMap_singleton]
    exact (Expr.records_check file _ operand).discard.returns
  | .binary span left op opSpan right =>
    rw [Expr.check]
    refine .settle ?_
    simp only [Node.inner, Expr.inner, List.flatMap_cons, List.flatMap_nil, List.append_nil]
    split
    · refine (Expr.records_check file _ left).bind fun target => ?_
      exact (Expr.records_check file _ right).returns
    · refine (Expr.records_check file _ left).bind fun target => ?_
      exact (Expr.records_check file _ right).returns
  | .call span callee args =>
    rw [Expr.check]
    refine .settle ?_
    simp only [Node.inner, Expr.inner, List.flatMap_cons]
    refine (Expr.records_check file (.value none) callee).bind fun type => ?_
    split
    · refine .andThen (keeps_callsGlobal stepRelation_grows _ _) fun _ => ?_
      split
      · refine .andThen (keeps_report stepRelation_grows (by simp)) fun _ => ?_
        exact (Expr.records_checkArgs file _ args).returns
      · exact (Expr.records_checkArgs file _ args).returns
    · refine (Expr.records_checkArgs file _ args).followed fun _ => ?_
      split
      · exact keeps_pure stepRelation_grows _
      · exact keeps_fault stepRelation_grows (by simp)
  | .conditional span condition whenTrue whenFalse =>
    rw [Expr.check]
    refine .settle ?_
    simp only [Node.inner, Expr.inner, List.flatMap_cons, List.flatMap_nil, List.append_nil]
    refine (Expr.records_check file (.value none) condition).discard.bind fun _ => ?_
    refine (Expr.records_check file _ whenTrue).bind fun _ => ?_
    exact (Expr.records_check file _ whenFalse).discard.returns
  | .cast span operand type =>
    rw [Expr.check]
    refine .settle ?_
    simp only [Node.inner, Expr.inner, List.flatMap_cons, List.flatMap_nil, List.append_nil]
    exact (Expr.records_check file (.value none) operand).discard.bind fun _ =>
      records_resolveType file type

theorem Expr.records_checkElements (file : FileId) (expected? : Option Ty) (elements : List Expr) :
    Records file ((elements.map Node.expression).flatMap Node.all)
      (Expr.checkElements file expected? elements) := by
  match elements with
  | [] =>
    rw [Expr.checkElements]
    exact .pure _
  | e :: rest =>
    rw [Expr.checkElements, List.map_cons, List.flatMap_cons]
    refine (Expr.records_check file _ e).bind fun _ => ?_
    exact (Expr.records_checkElements file _ rest).returns

theorem Expr.records_checkArgs (file : FileId) (params : List Field) (args : List Expr) :
    Records file ((args.map Node.expression).flatMap Node.all)
      (Expr.checkArgs file params args) := by
  match args with
  | [] =>
    rw [Expr.checkArgs]
    exact .pure _
  | e :: rest =>
    rw [Expr.checkArgs, List.map_cons, List.flatMap_cons]
    exact (Expr.records_check file _ e).discard.bind fun _ => Expr.records_checkArgs file _ rest

theorem Property.records_checkAll (file : FileId) (fields : List Field)
    (properties : List Property) :
    Records file ((properties.map Property.node).flatMap Node.all)
      (Property.checkAll file fields properties) := by
  match properties with
  | [] =>
    rw [Property.checkAll]
    exact .pure _
  | .assign _ name value :: rest =>
    rw [Property.checkAll, List.map_cons, List.flatMap_cons]
    exact (Expr.records_check file _ value).bind fun _ => Property.records_checkAll file _ rest
  | .shorthand _ name :: rest =>
    rw [Property.checkAll, List.map_cons, List.flatMap_cons]
    have typed : Keeps CheckState.Grows (do return (← typeOfName file name.text name.span).widened) :=
      keeps_bind stepRelation_grows (keeps_typeOfName stepRelation_grows _ _ _) fun _ =>
        keeps_pure stepRelation_grows _
    exact (Records.recording (n := .shorthand name) (.nothing typed)).bind fun _ =>
      Property.records_checkAll file _ rest
  | .spread _ value :: rest =>
    rw [Property.checkAll, List.map_cons, List.flatMap_cons]
    refine (Expr.records_check file _ value).bind fun _ => ?_
    refine .andThen (keeps_fields? stepRelation_grows _) fun _ => ?_
    split
    · exact Property.records_checkAll file _ rest
    · split
      · exact Property.records_checkAll file _ rest
      · exact .andThen (keeps_report stepRelation_grows (by simp)) fun _ => Property.records_checkAll file _ rest

theorem TemplateHole.records_checkAll (file : FileId) (holes : List TemplateHole) :
    Records file ((holes.map fun hole => Node.expression hole.value).flatMap Node.all)
      (TemplateHole.checkAll file holes) := by
  match holes with
  | [] =>
    rw [TemplateHole.checkAll]
    exact .pure _
  | .mk value _ :: rest =>
    rw [TemplateHole.checkAll, List.map_cons, List.flatMap_cons]
    exact (Expr.records_check file _ value).discard.bind fun _ =>
      TemplateHole.records_checkAll file rest

end

namespace Check

theorem records_checkValue (file : FileId) (e : Expr) :
    Records file (Node.expression e).all (checkValue file e) := (e.records_check file _).discard

theorem records_collectParams (file : FileId) (params : List Param) :
    Records file ((params.map Node.param).flatMap Node.all) (collectParams file params) := by
  induction params with
  | nil => exact .pure _
  | cons p rest ih =>
    rw [List.map_cons, List.flatMap_cons]
    refine (Records.recording (n := .param p) (records_resolveOptional file p.type?)).bind fun _ => ?_
    exact ih.returns

theorem records_collectFunction (file : FileId) (head : FunctionHead) (hasBody : Bool) :
    Records file (head.outerNodes.flatMap Node.all) (collectFunction file head hasBody) := by
  rw [collectFunction_eq, FunctionHead.outerNodes, List.flatMap_append]
  refine (records_collectParams file head.params).bind fun params => ?_
  refine (records_resolveOptional file head.returns?).followed fun returns => ?_
  exact keeps_optionForM stepRelation_grows fun name =>
    keeps_defineFunction stepRelation_grows file name params returns hasBody

theorem records_collectMembers (file : FileId) (members : List Member) :
    Records file ((members.map fun m => Node.writtenType m.type).flatMap Node.all)
      (collectMembers file members) := by
  induction members with
  | nil => exact .pure _
  | cons m rest ih =>
    rw [List.map_cons, List.flatMap_cons]
    exact (records_resolveType file m.type).bind fun _ => ih.returns

namespace Records

variable {file : FileId} {nodes : List Node} {work : Check PUnit}

theorem inFunction (head : FunctionHead) (h : Records file nodes work) :
    Records file nodes (Check.inFunction file head work) := by
  refine .andThen (keeps_recordedParams stepRelation_grows _ _) fun params => ?_
  refine .andThen (keeps_recordedReturns stepRelation_grows _ _) fun returns => .inScope ?_
  refine .andThen (keeps_setReturnType stepRelation_grows _) fun _ => ?_
  exact .andThen (keeps_bindParams stepRelation_grows _ _ _) fun _ => h

theorem inBranch (branch : Statement) (h : Records file nodes work) :
    Records file nodes (Check.inBranch branch work) := by
  rw [Check.inBranch.eq_def]
  split
  · exact h
  · exact h.inScope

end Records

end Check

theorem Declarator.records_check (file : FileId) (keyword : VariableKeyword) (d : Declarator) :
    Records file (Node.declarator d).all (d.check file keyword) := by
  have typed (type : Ty) : Records file [.declarator d] (record file d.span type) :=
    ⟨keeps_record stepRelation_grows file d.span type, fun s _ => List.forall_mem_singleton.2
      ⟨_, TypeTable.typeAt_record _ file d.span type⟩⟩
  have known (type : Ty) : Records file [.declarator d] (do
      record file d.span type
      Check.bind file d.name type (some keyword)) :=
    (typed type).followed fun _ => keeps_bindName stepRelation_grows _ _ _ _
  have whole : Records file ((d.type?.toList.flatMap fun type => (Node.writtenType type).all) ++
      ((d.initializer?.toList.flatMap fun e => (Node.expression e).all) ++ [.declarator d]))
      (d.check file keyword) := by
    refine (Records.optionMapM fun type => records_resolveType file type).bind fun written? => ?_
    refine (Records.optionMapM fun e => e.records_check file _).bind fun inferred? => ?_
    split
    · exact .andThen (keeps_report stepRelation_grows (by simp)) fun _ => known _
    · exact known _
  refine whole.of_subset ?_
  rw [Node.all_eq, Node.inner, List.flatMap_append, Node.ofType?_eq_flatMap,
    Node.ofExpr?_eq_flatMap, ← List.append_assoc]
  exact List.cons_subset.2 ⟨by simp, List.subset_append_left _ _⟩

theorem VariableList.records_check (file : FileId) (list : VariableList) :
    Records file (list.outerNodes.flatMap Node.all) (list.check file) := by
  rw [VariableList.outerNodes, List.flatMap_map]
  exact .forM fun d => d.records_check file list.keyword

theorem LoopStart.records_check (file : FileId) (start : LoopStart) :
    Records file (start.outerNodes.flatMap Node.all) (start.check file) := by
  cases start with
  | nothing => exact .pure _
  | «variables» _ list => exact list.records_check file
  | expression value => exact (records_checkValue file value).of_subset (by simp [LoopStart.outerNodes])

theorem LoopClauses.records_check (file : FileId) (clauses : LoopClauses) :
    Records file (clauses.outerNodes.flatMap Node.all) (clauses.check file) := by
  rw [LoopClauses.outerNodes, List.flatMap_append, List.flatMap_append, Node.ofExpr?_eq_flatMap,
    Node.ofExpr?_eq_flatMap]
  refine (clauses.start.records_check file).bind fun _ => ?_
  refine (Records.optionForM fun e => records_checkValue file e).bind fun _ => ?_
  exact .optionForM fun e => records_checkValue file e

mutual

theorem Statement.records_check (file : FileId) (s : Statement) :
    Records file (s.outerNodes.flatMap Node.all) (s.check file) := by
  match s with
  | .function _ head _ body =>
    rw [Statement.check, Statement.outerNodes, List.flatMap_append]
    exact (records_collectFunction file head true).bind fun _ =>
      (Statement.records_checkAll file body).inFunction head
  | .overload _ head =>
    rw [Statement.check, Statement.outerNodes]
    exact (records_collectFunction file head false).followed fun _ =>
      keeps_inFunction stepRelation_grows _ _ (keeps_pure stepRelation_grows _)
  | .importing .. | .interface .. | .typeAlias .. =>
    rw [Statement.check]
    exact .report
  | .block _ body =>
    rw [Statement.check, Statement.outerNodes]
    exact (Statement.records_checkAll file body).inScope
  | .expression _ value =>
    rw [Statement.check, Statement.outerNodes, List.flatMap_singleton]
    exact records_checkValue file value
  | .forLoop _ clauses body =>
    rw [Statement.check, Statement.outerNodes, List.flatMap_append]
    refine .inScope ((clauses.records_check file).bind fun _ => ?_)
    exact (Statement.records_check file body).inBranch body
  | .returning _ value? =>
    rw [Statement.check, Statement.outerNodes, Node.ofExpr?_eq_flatMap]
    refine .andThen (keeps_get stepRelation_grows) fun s => ?_
    have value : Records file (value?.toList.flatMap fun e => (Node.expression e).all)
        (value?.forM fun value => discard (value.check file (.value s.symbols.returnType?))) :=
      .optionForM fun e => (e.records_check file _).discard
    dsimp only
    split
    · exact .andThen (keeps_report stepRelation_grows (by simp)) fun _ => value
    · exact value
  | .«variables» _ list =>
    rw [Statement.check, Statement.outerNodes]
    exact list.records_check file
  | .ifThen _ condition thenBranch =>
    rw [Statement.check, Statement.outerNodes, List.flatMap_cons]
    refine (records_checkValue file condition).bind fun _ => ?_
    exact (Statement.records_check file thenBranch).inBranch thenBranch
  | .ifElse _ condition thenBranch elseBranch =>
    rw [Statement.check, Statement.outerNodes, List.flatMap_cons, List.flatMap_append]
    refine (records_checkValue file condition).bind fun _ => ?_
    refine ((Statement.records_check file thenBranch).inBranch thenBranch).bind fun _ => ?_
    exact (Statement.records_check file elseBranch).inBranch elseBranch
  | .whileLoop _ condition body =>
    rw [Statement.check, Statement.outerNodes, List.flatMap_cons]
    refine (records_checkValue file condition).bind fun _ => ?_
    exact (Statement.records_check file body).inBranch body
  | .doLoop _ body condition =>
    rw [Statement.check, Statement.outerNodes, List.flatMap_append, List.flatMap_singleton]
    refine ((Statement.records_check file body).inBranch body).bind fun _ => ?_
    exact records_checkValue file condition
  | .empty _ =>
    rw [Statement.check]
    exact .pure _

theorem Statement.records_checkAll (file : FileId) (statements : List Statement) :
    Records file ((Statement.allOuterNodes statements).flatMap Node.all)
      (Statement.checkAll file statements) := by
  match statements with
  | [] =>
    rw [Statement.checkAll]
    exact .pure _
  | s :: rest =>
    rw [Statement.checkAll, Statement.allOuterNodes, List.flatMap_append]
    exact (Statement.records_check file s).bind fun _ => Statement.records_checkAll file rest

end

namespace Check

variable {g : ModuleGraph} {m : Module} {s : Statement} {nodes : List Node}

/-- What the declaration of one statement records is recorded when all are collected. -/
theorem records_collect_of_mem (hm : m ∈ g.modules) (hs : s ∈ m.program)
    (h : Records m.id nodes (collectDeclaration m.id s)) : Records m.id nodes (collect g) := by
  have keeps (file : FileId) (program : Program) :
      Keeps CheckState.Grows (program.forM (collectDeclaration file)) :=
    keeps_forM stepRelation_grows fun s _ => keeps_collectDeclaration stepRelation_grows file s
  have names : Keeps CheckState.Grows
      (g.modules.forM fun m => m.program.forM (collectTypeName m.id)) :=
    keeps_forM stepRelation_grows fun m _ => keeps_forM stepRelation_grows fun s _ =>
      keeps_collectTypeName stepRelation_grows m.id s
  refine .andThen names fun _ => .forM_of_mem hm (fun m _ => keeps m.id m.program) ?_
  exact .forM_of_mem hs (fun s _ => keeps_collectDeclaration stepRelation_grows m.id s) h

theorem grows_checkTopLevel (g : ModuleGraph) (file : FileId) (s : Statement) :
    Keeps CheckState.Grows (checkTopLevel g file s) :=
  keeps_checkTopLevel stepRelation_grows g file s fun _ _ _ s => s.grows_report _

theorem grows_checkModule (g : ModuleGraph) (m : Module) :
    Keeps CheckState.Grows (checkModule g m) :=
  keeps_checkModule stepRelation_grows g m fun _ _ _ s => s.grows_report _

/-- What one statement records is recorded when all modules are checked. -/
theorem records_modules_of_mem (hm : m ∈ g.modules) (hs : s ∈ m.program)
    (h : Records m.id nodes (checkTopLevel g m.id s)) :
    Records m.id nodes (g.modules.forM (checkModule g)) := by
  refine .forM_of_mem hm (fun m _ => grows_checkModule g m) (.inScope ?_)
  exact .forM_of_mem hs (fun s _ => grows_checkTopLevel g m.id s) h

/-- Checking gives types to all nodes of a statement. The written type of a type alias may be that
of a name which another module has taken before, and then it is not looked at. -/
theorem records_checkModules (hm : m ∈ g.modules) (hs : s ∈ m.program)
    (notAlias : ∀ span decl, s ≠ .typeAlias span decl) :
    Records m.id (s.outerNodes.flatMap Node.all) (checkModules g) := by
  have collected {nodes : List Node} (h : Records m.id nodes (collectDeclaration m.id s)) :
      Records m.id nodes (checkModules g) :=
    (records_collect_of_mem hm hs h).followed fun _ =>
      keeps_forM stepRelation_grows fun m _ => grows_checkModule g m
  have inside {nodes : List Node} (h : Records m.id nodes (checkTopLevel g m.id s)) :
      Records m.id nodes (checkModules g) :=
    .andThen (keeps_collect stepRelation_grows g) fun _ => records_modules_of_mem hm hs h
  match s with
  | .function _ head _ body =>
    rw [Statement.outerNodes, List.flatMap_append]
    refine (records_collect_of_mem hm hs (records_collectFunction m.id head true)).bind fun _ => ?_
    exact records_modules_of_mem hm hs ((Statement.records_checkAll m.id body).inFunction head)
  | .overload _ head => exact collected (records_collectFunction m.id head false)
  | .importing .. => exact inside (.nothing (grows_checkTopLevel g m.id _))
  | .interface _ decl =>
    rw [Statement.outerNodes]
    refine collected ((records_collectMembers m.id decl.members).followed fun members => ?_)
    refine keeps_bind stepRelation_grows (keeps_ownGlobal? stepRelation_grows _ _) fun own => ?_
    split
    · exact keeps_pure stepRelation_grows _
    · refine keeps_bind stepRelation_grows (keeps_get stepRelation_grows) fun t => ?_
      split
      · exact keeps_setKind stepRelation_grows _ _
      · exact keeps_pure stepRelation_grows _
  | .typeAlias span decl => exact (notAlias span decl rfl).elim
  | .block .. | .expression .. | .forLoop .. | .returning .. | .«variables» .. | .ifThen ..
  | .ifElse .. | .whileLoop .. | .doLoop .. | .empty .. =>
    exact inside (Statement.records_check m.id _)

end Check

/-- When checking succeeds, all nodes of a statement have types. -/
theorem ModuleGraph.isTyped_of_check {g : ModuleGraph} {types : TypeTable} (h : g.check = .ok types)
    {m : Module} (hm : m ∈ g.modules) {s : Statement} (hs : s ∈ m.program)
    (notAlias : ∀ span decl, s ≠ .typeAlias span decl) :
    ∀ n ∈ s.outerNodes.flatMap Node.all, n.IsTyped types m.id := by
  rw [ModuleGraph.check] at h
  split at h
  next clean =>
    cases h
    exact (Check.records_checkModules hm hs notAlias).typed _
      fun failed => failed (List.isEmpty_iff.1 clean)
  · cases h

end ScriptToGo
