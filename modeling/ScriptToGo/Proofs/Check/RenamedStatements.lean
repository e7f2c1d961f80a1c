import ScriptToGo.Proofs.Check.Noted
import ScriptToGo.Proofs.Check.RenamedExprs

/-! Statements, and whole modules, are checked alike whatever local name an import has. -/
namespace ScriptToGo

namespace Sight

variable {sight : Sight}

/-- A definition opens and closes no scopes. -/
theorem define_ne_nil (inside : sight ≠ []) (name : String) (binding : Binding) :
    sight.define name binding ≠ [] := by
  rwa [define, Ne, List.modifyHead_eq_nil_iff]

theorem defineFunction_ne_nil (inside : sight ≠ []) (head : FunctionHead) :
    sight.defineFunction head ≠ [] := by
  rw [defineFunction]
  split
  · exact inside
  · exact define_ne_nil inside _ _

theorem foldl_ne_nil {α : Type} {f : Sight → α → Sight}
    (h : ∀ sight a, sight ≠ [] → f sight a ≠ []) (inside : sight ≠ []) (list : List α) :
    list.foldl f sight ≠ [] := by
  induction list generalizing sight with
  | nil => exact inside
  | cons a rest ih => exact ih (h sight a inside)

theorem defineVariables_ne_nil (inside : sight ≠ []) (list : VariableList) :
    sight.defineVariables list ≠ [] :=
  foldl_ne_nil (fun _ _ inside => define_ne_nil inside _ _) inside list.declarators

theorem enterFunction_ne_nil (sight : Sight) (head : FunctionHead) : sight.enterFunction head ≠ [] :=
  foldl_ne_nil (fun _ _ inside => define_ne_nil inside _ _) (List.cons_ne_nil _ _) head.params

end Sight

open Sight

theorem LoopStart.after_ne_nil {sight : Sight} (inside : sight ≠ []) (start : LoopStart) :
    start.after sight ≠ [] := by
  cases start with
  | «variables» => exact defineVariables_ne_nil inside _
  | nothing | expression => exact inside

theorem Statement.after_ne_nil {sight : Sight} (inside : sight ≠ []) (s : Statement) :
    s.after sight ≠ [] := by
  cases s with
  | function | overload => exact defineFunction_ne_nil inside _
  | «variables» => exact defineVariables_ne_nil inside _
  | _ => exact inside

theorem Statement.afterAll_ne_nil {sight : Sight} (inside : sight ≠ []) (statements : List Statement) :
    statements.foldl Statement.after sight ≠ [] :=
  foldl_ne_nil (fun _ s inside => s.after_ne_nil inside) inside statements

namespace Rerun

/-- Names that may be defined inside of the module: none is the fresh one, and the import may only be
hidden where that does no harm. -/
def Allows (p : Rerun) (names : List String) : Prop :=
  ∀ name ∈ names, name ≠ p.fresh ∧ (name = p.old → p.MayHide)

variable {p : Rerun} {sight : Sight} {names more : List String}

theorem allows_append : p.Allows (names ++ more) ↔ p.Allows names ∧ p.Allows more :=
  List.forall_mem_append

theorem Allows.mayDefine (h : p.Allows names) (inside : sight ≠ []) {name : String}
    (mem : name ∈ names) : Tables.MayDefine p sight name :=
  ⟨(h name mem).1, fun is => ⟨(h name mem).2 is, inside⟩⟩

theorem Tables.MayDefine.after_define {name : String} (may : Tables.MayDefine p sight name)
    (other : String) (binding : Binding) : Tables.MayDefine p (sight.define other binding) name :=
  ⟨may.notFresh, fun is => (may.hides is).imp_right (define_ne_nil · other binding)⟩

end Rerun

namespace Check

variable {p : Rerun} {sight later : Sight} {file : FileId}

namespace Agrees

theorem optionMapM {α : Type} {a? : Option α} {f g : α → Check Ty} {change : α → α}
    (h : ∀ a ∈ a?, Agrees p sight sight (Ty.Alike p.back) (f a) (g (change a))) :
    Agrees p sight sight (Ty.OptionAlike p.back) (a?.mapM f) ((a?.map change).mapM g) := by
  cases a? with
  | none => exact .pure .none
  | some a =>
    intro s t alike
    obtain ⟨same, later⟩ := h a rfl s t alike
    exact ⟨same.some, later⟩

end Agrees

theorem agrees_checkValue (e : Expr) (lacks : p.Lacks [.expression e]) :
    Agrees p sight sight Whatever (checkValue file e)
      (checkValue file (e.renamed (p.inSight sight))) := (e.agrees_check .free lacks).discard

theorem agrees_optionCheckValue (e? : Option Expr) (lacks : p.Lacks (Node.ofExpr? e?)) :
    Agrees p sight sight Whatever (e?.forM (checkValue file))
      ((e?.map (·.renamed (p.inSight sight))).forM (checkValue file)) := by
  cases e? with
  | none => exact .nothing
  | some e => exact agrees_checkValue e lacks

/-- A scope holds a name only once, which both runs find out alike. -/
theorem agrees_bind {name : Name} (may : Rerun.Tables.MayDefine p sight name.text) {type type' : Ty}
    (same : type.Alike p.back type') (keyword? : Option VariableKeyword) (binding : Binding) :
    Agrees p sight (sight.define name.text binding) Whatever (Check.bind file name type keyword?)
      (Check.bind file name type' keyword?) := by
  refine Agrees.readHere fun s t alike => ?_
  have top (is : sight = []) (old : name.text = p.old) : False := (may.hides old).2 is
  rw [alike.tables.isSome_lookupLocal may.notFresh top]
  split
  next has =>
    have again := alike.withSymbols (alike.tables.again may has binding)
    exact ⟨trivial, again.report _ _⟩
  · exact Agrees.define may (.variable same) name.span binding s t alike

theorem agrees_bindParams {params : List Param} {fields fields' : List Field} (inside : sight ≠ [])
    (allows : p.Allows (params.map (·.name.text))) (same : Field.AllAlike p.back fields fields')
    (length : fields.length = params.length) (f : String → String) :
    Agrees p sight (params.foldl (fun sight q => sight.define q.name.text (.variable none)) sight)
      Whatever (bindParams file params fields)
      (bindParams file (params.map (·.renamed f)) fields') := by
  induction params generalizing sight fields fields' with
  | nil => exact .nothing
  | cons q rest ih =>
    match fields, fields' with
    | [], _ => cases length
    | _ :: _, [] => cases same.length_eq
    | .mk name type :: fields, .mk name' type' :: fields' =>
      have here : type.Alike p.back type' := (Field.mk.inj (List.cons.inj same).1).2
      have may := allows.mayDefine inside List.mem_cons_self
      refine (agrees_bind may here none (.variable none)).bind fun _ _ _ => ?_
      exact ih (Sight.define_ne_nil inside _ _) (List.forall_mem_cons.1 allows).2 same.tail
        (Nat.succ.inj length)

theorem recordedParams_renamed (owner : FileId) (params : List Param) (f : String → String) :
    recordedParams owner (params.map (·.renamed f)) = recordedParams owner params := by
  induction params with
  | nil => rfl
  | cons q rest ih =>
    rw [List.map_cons, recordedParams, recordedParams, ih]
    rfl

theorem recordedReturns_renamed (owner : FileId) (head : FunctionHead) (f : String → String) :
    recordedReturns owner (head.renamed f) = recordedReturns owner head := by
  rw [recordedReturns, recordedReturns, FunctionHead.renamed]
  cases head.returns? with
  | none => rfl
  | some type =>
    dsimp only [Option.map_some]
    rw [TypeExpr.span_renamed]

theorem agrees_recordedParams (owner : FileId) (params : List Param) :
    Agrees p sight sight
      (fun fields fields' => Field.AllAlike p.back fields fields' ∧ fields.length = params.length)
      (recordedParams owner params) (recordedParams owner params) := by
  induction params with
  | nil => exact .pure ⟨.nil, rfl⟩
  | cons q rest ih =>
    refine (Agrees.recorded? owner q.span).bind fun type? type'? first => ?_
    refine ih.returns fun fields fields' others => ?_
    exact ⟨.cons first.getD_any others.1 q.name.text, congrArg (· + 1) others.2⟩

theorem agrees_recordedReturns (owner : FileId) (head : FunctionHead) :
    Agrees p sight sight (Ty.Alike p.back) (recordedReturns owner head)
      (recordedReturns owner head) := by
  rw [recordedReturns]
  cases head.returns? with
  | none => exact .pure rfl
  | some type => exact (Agrees.recorded? owner type.span).returns fun _ _ same => same.getD_any

theorem agrees_inFunction {head : FunctionHead} (allows : p.Allows (head.params.map (·.name.text)))
    (f : String → String) {x y : Check PUnit}
    (h : Agrees p (sight.enterFunction head) later Whatever x y) (outer : later.tail = sight)
    (inside : later ≠ []) :
    Agrees p sight sight Whatever (inFunction file head x) (inFunction file (head.renamed f) y) := by
  rw [inFunction, inFunction, recordedReturns_renamed, FunctionHead.renamed, recordedParams_renamed]
  refine (agrees_recordedParams file head.params).bind fun params params' known => ?_
  refine (agrees_recordedReturns file head).bind fun returns returns' result => ?_
  refine Agrees.inScope ?_ outer inside
  refine (Agrees.setReturnType (List.cons_ne_nil _ _) result).bind fun _ _ _ => ?_
  refine (agrees_bindParams (List.cons_ne_nil _ _) allows known.1 known.2 f).bind fun _ _ _ => h

theorem agrees_collectParams (params : List Param) (lacks : p.Lacks (params.map .param)) :
    Agrees p sight sight (Field.AllAlike p.back) (collectParams file params)
      (collectParams file (params.map (·.renamed (p.inSight sight)))) := by
  induction params with
  | nil => exact .pure .nil
  | cons q rest ih =>
    obtain ⟨first, others⟩ := Rerun.lacks_cons.1 lacks
    refine (agrees_resolveOptional q.type? (Rerun.lacks_singleton.1 first).2).recording.bind ?_
    intro _ _ type
    exact (ih others).returns fun _ _ fields => .cons type fields q.name.text

theorem agrees_defineFunction (inside : sight ≠ []) {name : Name}
    (may : Rerun.Tables.MayDefine p sight name.text) {params params' : List Field} {returns returns' : Ty}
    (same : Field.AllAlike p.back params params') (result : returns.Alike p.back returns')
    (hasBody : Bool) :
    Agrees p sight (sight.define name.text .function) Whatever
      (defineFunction file name params returns hasBody)
      (defineFunction file name params' returns' hasBody) := by
  refine Agrees.readHere fun s t alike => ?_
  obtain ⟨there, new⟩ := alike.tables.lookupLocal_eq inside name.text
  dsimp only
  rw [there]
  cases found : s.symbols.lookupLocal name.text with
  | none => exact Agrees.define may (.function same result) name.span .function s t alike
  | some id =>
    have again := alike.withSymbols (alike.tables.again may (by rw [found]; rfl) .function)
    have symbols := alike.tables.new id (new id found)
    dsimp only [Option.map_some]
    obtain ⟨symbol, has⟩ := SymbolTable.exists_symbol (SymbolTable.lookup_of_lookupLocal found)
    rw [has] at symbols ⊢
    generalize t.symbols.symbol? (id + p.shift) = other? at symbols
    cases symbols with
    | @some _ other same =>
      obtain ⟨_, kind, _, owner, _⟩ := symbol
      obtain ⟨_, kind', _, owner', _⟩ := other
      obtain rfl : owner' = owner := same.file
      have kinds : kind.Alike p.back kind' := same.kind
      cases kinds with
      | @function _ _ _ _ hadBody params returns =>
        dsimp only
        split
        · have kind (isKnown : Bool) :
              SymbolKind.Alike p.back (.function _ _ isKnown) (.function _ _ isKnown) :=
            .function params returns
          refine (Agrees.setKind (new id found) (kind _)).bind (fun _ _ _ => ?_) s t again
          split
          · exact .report
          · exact .nothing
        · exact ⟨trivial, again⟩
      | «variable» | builtin | interface | «alias» | global => exact ⟨trivial, again.report _ _⟩

theorem agrees_collectFunction (inside : sight ≠ []) {head : FunctionHead}
    (lacks : p.Lacks head.outerNodes) (allows : p.Allows head.declared) (hasBody : Bool) :
    Agrees p sight (sight.defineFunction head) Whatever (collectFunction file head hasBody)
      (collectFunction file (head.renamed (p.inSight sight)) hasBody) := by
  obtain ⟨params, returns⟩ := Rerun.lacks_append.1 lacks
  rw [collectFunction_eq, collectFunction_eq]
  refine (agrees_collectParams head.params params).bind fun _ _ params => ?_
  refine (agrees_resolveOptional head.returns? returns).bind fun _ _ returns => ?_
  rw [Sight.defineFunction, FunctionHead.renamed]
  cases named : head.name? with
  | none => exact .nothing
  | some name =>
    have mem : name.text ∈ head.declared := by simp [FunctionHead.declared, named]
    exact agrees_defineFunction inside (allows.mayDefine inside mem) params returns hasBody

theorem agrees_inBranch (s : Statement) (place : Sight) {x y : Check PUnit}
    (h : Agrees p (sight.enterBranch s) (s.after (sight.enterBranch s)) Whatever x y) :
    Agrees p sight sight Whatever (inBranch s x) (inBranch (s.renamed p.toLocalName place) y) := by
  cases s with
  | block => exact h
  | _ => exact h.inScope (Statement.tail_after _ _) (Statement.after_ne_nil (List.cons_ne_nil _ _) _)

end Check

open Check

variable {p : Rerun} {sight : Sight} {file : FileId}

theorem Declarator.agrees_check (keyword : VariableKeyword) (d : Declarator)
    (lacks : p.Lacks [.declarator d]) (may : Rerun.Tables.MayDefine p sight d.name.text) :
    Agrees p sight (sight.define d.name.text (.variable (some keyword))) Whatever
      (d.check file keyword) ((d.renamed (p.inSight sight)).check file keyword) := by
  obtain ⟨type, initializer⟩ := Rerun.lacks_append.1 (Rerun.lacks_singleton.1 lacks).2
  have known {type type' : Ty} (same : type.Alike p.back type') :
      Agrees p sight (sight.define d.name.text (.variable (some keyword))) Whatever (do
        record file d.span type
        Check.bind file d.name type (some keyword)) (do
        record file d.span type'
        Check.bind file d.name type' (some keyword)) := by
    exact (Agrees.record same file d.span).bind fun _ _ _ => agrees_bind may same _ _
  rw [Declarator.check, Declarator.check, Declarator.renamed]
  have written : Agrees p sight sight (Ty.OptionAlike p.back) (d.type?.mapM (resolveType file))
      ((d.type?.map (·.renamed (p.inSight sight))).mapM (resolveType file)) := by
    refine .optionMapM fun t some => ?_
    rw [Option.mem_def.1 some] at type
    exact agrees_resolveType t (Rerun.lacks_singleton.1 type).1
  refine written.bind fun written? written'? written => ?_
  have inferred : Agrees p sight sight (Ty.OptionAlike p.back)
      (d.initializer?.mapM (·.check file (.value written?)))
      ((d.initializer?.map (·.renamed (p.inSight sight))).mapM
        (·.check file (.value written'?))) := by
    refine .optionMapM fun e some => ?_
    rw [Option.mem_def.1 some] at initializer
    exact e.agrees_check (.value written) initializer
  refine inferred.bind fun inferred? inferred'? inferred => ?_
  have same := alike_declaredType written inferred keyword
  dsimp only
  rw [Option.isNone_map]
  split
  · exact Agrees.report.bind fun _ _ _ => known same
  · exact known same

theorem Declarator.agrees_checkAll (keyword : VariableKeyword) (declarators : List Declarator)
    (lacks : p.Lacks (declarators.map .declarator))
    (may : ∀ d ∈ declarators, Rerun.Tables.MayDefine p sight d.name.text) :
    Agrees p sight
      (declarators.foldl (fun sight d => sight.define d.name.text (.variable (some keyword))) sight)
      Whatever (declarators.forM (·.check file keyword))
      ((Declarator.renamedAll p.toLocalName keyword sight declarators).forM
        (·.check file keyword)) := by
  induction declarators generalizing sight with
  | nil => exact .nothing
  | cons d rest ih =>
    obtain ⟨first, others⟩ := Rerun.lacks_cons.1 lacks
    obtain ⟨here, later⟩ := List.forall_mem_cons.1 may
    refine (d.agrees_check keyword first here).bind fun _ _ _ => ?_
    exact ih others fun d mem => (later d mem).after_define _ _

theorem VariableList.agrees_check (list : VariableList) (lacks : p.Lacks list.outerNodes)
    (may : ∀ name ∈ list.declared, Rerun.Tables.MayDefine p sight name) :
    Agrees p sight (sight.defineVariables list) Whatever (list.check file)
      ((list.renamed p.toLocalName sight).check file) :=
  Declarator.agrees_checkAll list.keyword list.declarators lacks fun d mem =>
    may d.name.text (List.mem_map_of_mem mem)

theorem LoopClauses.agrees_check (inside : sight ≠ []) (clauses : LoopClauses)
    (lacks : p.Lacks clauses.outerNodes) (allows : p.Allows clauses.start.declared) :
    Agrees p sight (clauses.start.after sight) Whatever (clauses.check file)
      ((clauses.renamed p.toLocalName sight).check file) := by
  obtain ⟨start, others⟩ := Rerun.lacks_append.1 lacks
  obtain ⟨condition, step⟩ := Rerun.lacks_append.1 others
  have first : Agrees p sight (clauses.start.after sight) Whatever (clauses.start.check file)
      ((clauses.start.renamed p.toLocalName sight).check file) := by
    cases is : clauses.start with
    | nothing => exact .nothing
    | «variables» span list =>
      rw [is] at start allows
      exact list.agrees_check start fun name mem => allows.mayDefine inside mem
    | expression value =>
      rw [is] at start
      exact agrees_checkValue value start
  refine first.bind fun _ _ _ => ?_
  refine (agrees_optionCheckValue _ condition).bind fun _ _ _ => ?_
  exact agrees_optionCheckValue _ step

/-- The variables that a statement declares in the scope in which it stands. -/
def Statement.ownVariables : Statement → List String
  | .«variables» _ list => list.declared
  | _ => []

/-- What a statement that is not checked as one at the top level may declare where it stands. -/
def Rerun.Tops (p : Rerun) (s : Statement) : Prop := s.function? = none ∧ p.old ∉ s.ownVariables

/-- A branch declares nothing where the statement stands that it belongs to. -/
theorem Rerun.tops_branch {p : Rerun} {sight : Sight} (s : Statement)
    (top : sight.enterBranch s = []) : p.Tops s := by
  cases s with
  | block => exact ⟨rfl, List.not_mem_nil⟩
  | _ => cases top

mutual

/-- At the top level of the module, functions are not checked like this, and the import is never
hidden. -/
theorem Statement.agrees_check (sight : Sight) (s : Statement) (lacks : p.Lacks s.outerNodes)
    (allows : p.Allows s.declared)
    (top : sight = [] → p.Tops s) :
    Agrees p sight (s.after sight) Whatever (s.check file)
      ((s.renamed p.toLocalName sight).check file) := by
  match s with
  | .function _ head _ body =>
    have inside : sight ≠ [] := fun is => nomatch (top is).1
    rw [Statement.outerNodes] at lacks
    rw [Statement.declared] at allows
    obtain ⟨first, others⟩ := Rerun.lacks_append.1 lacks
    obtain ⟨own, inner⟩ := Rerun.allows_append.1 allows
    rw [Statement.renamed, Statement.check, Statement.check]
    refine (agrees_collectFunction inside first own true).bind fun _ _ _ => ?_
    have entered := Sight.enterFunction_ne_nil (sight.defineFunction head) head
    have work := Statement.agrees_checkAll entered body others inner
    refine agrees_inFunction (Rerun.allows_append.1 own).2 _ work ?_ ?_
    · exact (Statement.tail_afterAll _ _).trans (tail_enterFunction _ _)
    · exact Statement.afterAll_ne_nil entered body
  | .overload _ head =>
    have inside : sight ≠ [] := fun is => nomatch (top is).1
    rw [Statement.outerNodes] at lacks
    rw [Statement.declared] at allows
    rw [Statement.renamed, Statement.check, Statement.check]
    refine (agrees_collectFunction inside lacks allows false).bind fun _ _ _ => ?_
    exact agrees_inFunction (Rerun.allows_append.1 allows).2 _ .nothing (tail_enterFunction _ _)
      (enterFunction_ne_nil _ _)
  | .importing .. =>
    rw [Statement.renamed, Statement.check]
    exact .report
  | .interface .. | .typeAlias .. =>
    rw [Statement.renamed, Statement.check, Statement.check]
    exact .report
  | .block _ body =>
    rw [Statement.outerNodes] at lacks
    rw [Statement.declared] at allows
    rw [Statement.renamed, Statement.check, Statement.check]
    have entered : ([] :: sight : Sight) ≠ [] := List.cons_ne_nil _ _
    exact (Statement.agrees_checkAll entered body lacks allows).inScope
      (Statement.tail_afterAll _ _) (Statement.afterAll_ne_nil entered body)
  | .expression _ value =>
    rw [Statement.outerNodes] at lacks
    rw [Statement.renamed, Statement.check, Statement.check]
    exact agrees_checkValue value lacks
  | .forLoop _ clauses body =>
    rw [Statement.outerNodes] at lacks
    rw [Statement.declared] at allows
    obtain ⟨first, others⟩ := Rerun.lacks_append.1 lacks
    obtain ⟨own, inner⟩ := Rerun.allows_append.1 allows
    rw [Statement.renamed, Statement.check, Statement.check]
    have entered : ([] :: sight : Sight) ≠ [] := List.cons_ne_nil _ _
    refine Agrees.inScope ?_ (LoopStart.tail_after ([] :: sight) clauses.start)
      (LoopStart.after_ne_nil entered clauses.start)
    refine (clauses.agrees_check entered first own).bind fun _ _ _ => ?_
    exact agrees_inBranch body _ (Statement.agrees_check _ body others inner (Rerun.tops_branch body))
  | .returning _ value? =>
    rw [Statement.outerNodes] at lacks
    rw [Statement.renamed, Statement.check, Statement.check]
    refine Agrees.readHere fun s t alike => ?_
    have expected := alike.tables.returnType?_alike
    have value : Agrees p sight sight Whatever
        (value?.forM fun value => discard (value.check file (.value s.symbols.returnType?)))
        ((value?.map (·.renamed (p.inSight sight))).forM fun value =>
          discard (value.check file (.value t.symbols.returnType?))) := by
      cases value? with
      | none => exact .nothing
      | some e => exact (e.agrees_check (.value expected) lacks).discard
    dsimp only
    rw [← expected.isNone_eq]
    split
    · exact (Agrees.report.bind fun _ _ _ => value) s t alike
    · exact value s t alike
  | .«variables» _ list =>
    rw [Statement.outerNodes] at lacks
    rw [Statement.declared] at allows
    rw [Statement.renamed, Statement.check, Statement.check]
    refine list.agrees_check lacks fun name mem => ⟨(allows name mem).1, fun is => ?_⟩
    exact ⟨(allows name mem).2 is, fun outermost => (top outermost).2 (is ▸ mem)⟩
  | .ifThen _ condition thenBranch =>
    rw [Statement.outerNodes] at lacks
    rw [Statement.declared] at allows
    obtain ⟨first, others⟩ := Rerun.lacks_cons.1 lacks
    rw [Statement.renamed, Statement.check, Statement.check]
    refine (agrees_checkValue condition first).bind fun _ _ _ => ?_
    exact agrees_inBranch thenBranch _
      (Statement.agrees_check _ thenBranch others allows (Rerun.tops_branch thenBranch))
  | .ifElse _ condition thenBranch elseBranch =>
    rw [Statement.outerNodes] at lacks
    rw [Statement.declared] at allows
    obtain ⟨first, others⟩ := Rerun.lacks_cons.1 lacks
    obtain ⟨second, third⟩ := Rerun.lacks_append.1 others
    obtain ⟨own, other⟩ := Rerun.allows_append.1 allows
    rw [Statement.renamed, Statement.check, Statement.check]
    refine (agrees_checkValue condition first).bind fun _ _ _ => ?_
    refine (agrees_inBranch thenBranch _ (Statement.agrees_check _ thenBranch second own
      (Rerun.tops_branch thenBranch))).bind fun _ _ _ => ?_
    exact agrees_inBranch elseBranch _
      (Statement.agrees_check _ elseBranch third other (Rerun.tops_branch elseBranch))
  | .whileLoop _ condition body =>
    rw [Statement.outerNodes] at lacks
    rw [Statement.declared] at allows
    obtain ⟨first, others⟩ := Rerun.lacks_cons.1 lacks
    rw [Statement.renamed, Statement.check, Statement.check]
    refine (agrees_checkValue condition first).bind fun _ _ _ => ?_
    exact agrees_inBranch body _
      (Statement.agrees_check _ body others allows (Rerun.tops_branch body))
  | .doLoop _ body condition =>
    rw [Statement.outerNodes] at lacks
    rw [Statement.declared] at allows
    obtain ⟨first, others⟩ := Rerun.lacks_append.1 lacks
    rw [Statement.renamed, Statement.check, Statement.check]
    refine (agrees_inBranch body _ (Statement.agrees_check _ body first allows
      (Rerun.tops_branch body))).bind fun _ _ _ => ?_
    exact agrees_checkValue condition others
  | .empty _ =>
    rw [Statement.renamed, Statement.check]
    exact .nothing

theorem Statement.agrees_checkAll {sight : Sight} (inside : sight ≠ []) (statements : List Statement)
    (lacks : p.Lacks (Statement.allOuterNodes statements))
    (allows : p.Allows (Statement.allDeclared statements)) :
    Agrees p sight (statements.foldl Statement.after sight) Whatever
      (Statement.checkAll file statements)
      (Statement.checkAll file (Statement.renamedAll p.toLocalName sight statements)) := by
  match statements with
  | [] =>
    rw [Statement.renamedAll, Statement.checkAll]
    exact .nothing
  | s :: rest =>
    rw [Statement.allOuterNodes] at lacks
    rw [Statement.allDeclared] at allows
    obtain ⟨first, others⟩ := Rerun.lacks_append.1 lacks
    obtain ⟨own, later⟩ := Rerun.allows_append.1 allows
    rw [Statement.renamedAll, Statement.checkAll, Statement.checkAll]
    refine (Statement.agrees_check sight s first own fun is => (inside is).elim).bind fun _ _ _ => ?_
    exact Statement.agrees_checkAll (s.after_ne_nil inside) rest others later

end

namespace ImportDecl

/-- The names under which an import defines what it lists. -/
def localNames (decl : ImportDecl) : List String :=
  decl.default?.toList.map Name.text ++ decl.named.map ImportedName.localName

end ImportDecl

namespace Statement

/-- The names that a statement at the top level of a module defines in the scope of the module. -/
def topNames : Statement → List String
  | .importing _ decl => decl.localNames
  | s => s.ownVariables

/-- The names that a statement at the top level of a module declares for the module alone: those of
functions are known to all modules. -/
def localDeclared : Statement → List String
  | .function _ head _ body => head.params.map (·.name.text) ++ Statement.allDeclared body
  | .overload _ head => head.params.map (·.name.text)
  | s => s.declared

/-- A type is exported under its own name. -/
theorem typeName_of_export? {s : Statement} {name other : String}
    (h : s.export? name = some (.type other)) : other = name := by
  rw [export?.eq_def] at h
  split at h
  · split at h
    · cases h
      rfl
    · cases h
  · split at h
    · cases h
      rfl
    · cases h
  · split at h
    · split at h <;> cases h
    · cases h

end Statement

/-- The module exports a type under the name. -/
def Module.ExportsType (m : Module) (name : String) : Prop :=
  m.program.findSome? (Statement.export? name) = some (.type name)

namespace Rerun

variable (p : Rerun)

/-- One of the names that another import lists is bound alike. -/
structure Permits (m : Module) (entry : ImportedName) : Prop where
  imported : entry.imported ≠ p.fresh
  stays : m.ExportsType entry.imported → entry.imported = p.old → p.Stays

/-- A statement at the top level of the module is checked alike. -/
structure Passes (g : ModuleGraph) (file : FileId) (s : Statement) : Prop where
  lacks : p.Lacks s.checkedNodes
  allows : p.Allows s.localDeclared
  top : p.fresh ∉ s.topNames ∧ p.old ∉ s.topNames
  imports : ∀ decl ∈ s.import?, ∀ m, g.resolveImport file decl.specifier.text = some m →
    ∀ entry ∈ decl.named, p.Permits m entry

end Rerun

namespace Check

variable {p : Rerun} {file : FileId}

theorem agrees_bindImported {name : Name} (ne : name.text ≠ p.fresh ∧ name.text ≠ p.old)
    (owner : FileId) (head : FunctionHead) (hasBody : Bool) :
    Agrees p [] [] Whatever (bindImported file name owner head hasBody)
      (bindImported file name owner head hasBody) := by
  refine (agrees_recordedParams owner head.params).bind fun _ _ params => ?_
  refine (agrees_recordedReturns owner head).bind fun _ _ returns => ?_
  have may : Rerun.Tables.MayDefine p [] name.text := ⟨ne.1, fun is => (ne.2 is).elim⟩
  exact .define may (.function params.1 returns) name.span .function

theorem agrees_checkImportedName (specifier : String) (m : Module) {entry : ImportedName}
    (ne : entry.localName ≠ p.fresh ∧ entry.localName ≠ p.old) (permits : p.Permits m entry) :
    Agrees p [] [] Whatever (checkImportedName file specifier m entry)
      (checkImportedName file specifier m entry) := by
  rw [checkImportedName]
  split
  next head hasBody _ => exact agrees_bindImported ne m.id head hasBody
  next name found =>
    obtain ⟨_, -, exported⟩ := List.exists_of_findSome?_eq_some found
    obtain rfl := Statement.typeName_of_export? exported
    split
    · refine .ownKind?_bind permits.imported (permits.stays found) fun a? b? alike => ?_
      cases alike with
      | none => exact .nothing
      | some alike =>
        have may : Rerun.Tables.MayDefine p [] entry.localName := ⟨ne.1, fun is => (ne.2 is).elim⟩
        exact .define may alike entry.span .function
    · exact .nothing
  · exact .report

theorem agrees_checkImport (g : ModuleGraph) {decl : ImportDecl}
    (fresh : p.fresh ∉ decl.localNames) (old : p.old ∉ decl.localNames)
    (permits : ∀ m, g.resolveImport file decl.specifier.text = some m →
      ∀ entry ∈ decl.named, p.Permits m entry) :
    Agrees p [] [] Whatever (checkImport g file decl) (checkImport g file decl) := by
  rw [checkImport]
  split
  · exact .report
  next m resolved =>
    refine Agrees.bind (Agrees.optionForM fun whole _ => .report) fun _ _ _ => ?_
    refine Agrees.bind (Agrees.optionForM fun name some => ?_) fun _ _ _ => .forM fun entry mem => ?_
    · have mem : name.text ∈ decl.localNames :=
        List.mem_append_left _ (List.mem_map_of_mem (Option.mem_toList.2 some))
      split
      · exact agrees_bindImported ⟨fun is => fresh (is ▸ mem), fun is => old (is ▸ mem)⟩ m.id _ _
      · exact .report
    · have mem' : entry.localName ∈ decl.localNames :=
        List.mem_append_right _ (List.mem_map_of_mem mem)
      exact agrees_checkImportedName _ m ⟨fun is => fresh (is ▸ mem'), fun is => old (is ▸ mem')⟩
        (permits m resolved entry mem)

theorem agrees_checkTopLevel (g : ModuleGraph) {s : Statement}
    (passes : p.Passes g file s) :
    Agrees p [] [] Whatever (checkTopLevel g file s)
      (checkTopLevel g file (s.renamed p.toLocalName [])) := by
  obtain ⟨lacks, allows, ⟨fresh, old⟩, imports⟩ := passes
  match s with
  | .function _ head _ body =>
    obtain ⟨own, inner⟩ := Rerun.allows_append.1 allows
    have entered := enterFunction_ne_nil [] head
    have work := @Statement.agrees_checkAll p file _ entered body lacks inner
    rw [Statement.renamed, defineFunction_nil]
    refine agrees_inFunction own _ work ?_ ?_
    · exact (Statement.tail_afterAll _ _).trans (tail_enterFunction _ _)
    · exact Statement.afterAll_ne_nil entered body
  | .overload _ head =>
    exact agrees_inFunction allows _ .nothing (tail_enterFunction _ _) (enterFunction_ne_nil _ _)
  | .importing _ decl => exact agrees_checkImport g fresh old (imports decl rfl)
  | .interface .. | .typeAlias .. => exact .nothing
  | .block .. | .expression .. | .forLoop .. | .returning .. | .«variables» .. | .ifThen ..
  | .ifElse .. | .whileLoop .. | .doLoop .. | .empty .. =>
    have checked := @Statement.agrees_check p file [] _ lacks allows fun _ => ⟨rfl, old⟩
    rwa [Statement.after_nil] at checked

/-- After the import, a module is checked alike in both runs. -/
theorem agrees_program (g : ModuleGraph) (program : List Statement)
    (passes : ∀ s ∈ program, p.Passes g file s) :
    Agrees p [] [] Whatever (program.forM (checkTopLevel g file))
      ((Statement.renamedAll p.toLocalName [] program).forM (checkTopLevel g file)) := by
  induction program with
  | nil => exact .nothing
  | cons s rest ih =>
    obtain ⟨first, others⟩ := List.forall_mem_cons.1 passes
    rw [Statement.renamedAll, Statement.after_nil]
    exact (agrees_checkTopLevel g first).bind fun _ _ _ => ih others

end Check

end ScriptToGo
