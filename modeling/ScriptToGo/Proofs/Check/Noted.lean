import ScriptToGo.Proofs.Check.Followed
import ScriptToGo.Proofs.Check.Gathered
import ScriptToGo.Proofs.Check.Independence

/-! Unless checking fails, a module is treated by what can be seen at each of its places. -/
namespace ScriptToGo

namespace Sight

/-- A definition leaves the outer scopes alone. -/
theorem tail_define (sight : Sight) (name : String) (binding : Binding) :
    (sight.define name binding).tail = sight.tail := List.tail_modifyHead

theorem tail_defineFunction (sight : Sight) (head : FunctionHead) :
    (sight.defineFunction head).tail = sight.tail := by
  rw [defineFunction]
  split
  · rfl
  · exact tail_define _ _ _

theorem tail_foldl {α : Type} {f : Sight → α → Sight}
    (h : ∀ sight a, (f sight a).tail = sight.tail) (list : List α) (sight : Sight) :
    (list.foldl f sight).tail = sight.tail := by
  induction list generalizing sight with
  | nil => rfl
  | cons a rest ih => exact (ih _).trans (h sight a)

theorem tail_defineVariables (sight : Sight) (list : VariableList) :
    (sight.defineVariables list).tail = sight.tail :=
  tail_foldl (fun _ _ => tail_define _ _ _) list.declarators sight

theorem tail_enterFunction (sight : Sight) (head : FunctionHead) :
    (sight.enterFunction head).tail = sight :=
  tail_foldl (fun _ _ => tail_define _ _ _) head.params ([] :: sight)

end Sight

open Sight

theorem LoopStart.tail_after (sight : Sight) (start : LoopStart) :
    (start.after sight).tail = sight.tail := by
  cases start with
  | «variables» => exact tail_defineVariables _ _
  | nothing | expression => rfl

theorem Statement.tail_after (sight : Sight) (s : Statement) :
    (s.after sight).tail = sight.tail := by
  cases s with
  | function | overload => exact tail_defineFunction _ _
  | «variables» => exact tail_defineVariables _ _
  | _ => rfl

theorem Statement.tail_afterAll (sight : Sight) (statements : List Statement) :
    (statements.foldl Statement.after sight).tail = sight.tail :=
  tail_foldl Statement.tail_after statements sight

open ModuleGraph CheckState

namespace Check

variable {g : ModuleGraph} {file : FileId} {sight later : Sight} {seen more : List (Sight × Node)}
  {α β : Type} {post : α → Prop}

namespace Follows

/-- The order in which nodes get their types does not matter. -/
theorem reorder {x : Check α} (h : Follows g file sight later seen x post) (perm : seen.Perm more) :
    Follows g file sight later more x post where
  grows := h.grows
  follows s visible fine := by
    obtain ⟨visible, good, new, records, notes⟩ := h.follows s visible fine
    refine ⟨visible, good, new, records, ?_, ?_⟩
    · exact fun v mem => notes.typed v (perm.mem_iff.2 mem)
    · exact fun r mem => (notes.suits r mem).imp fun _ => .imp_left perm.mem_iff.1

theorem read {f : CheckState → Check α} (h : ∀ s, Follows g file sight later seen (f s) post) :
    Follows g file sight later seen ((get : Check CheckState) >>= f) post where
  grows := keeps_read fun s => (h s).grows s
  follows s := (h s).follows s

theorem optionForM {a? : Option α} {nodesOf : Option α → List Node} {f : α → Check PUnit}
    (nothing : nodesOf none = [])
    (h : ∀ a, Follows g file sight sight (seenAll sight (nodesOf (some a))) (f a) fun _ => True) :
    Follows g file sight sight (seenAll sight (nodesOf a?)) (a?.forM f) fun _ => True := by
  cases a? with
  | none =>
    rw [nothing]
    exact plain _
  | some a => exact h a

theorem optionMapM {a? : Option α} {nodesOf : Option α → List Node} {f : α → Check β}
    (nothing : nodesOf none = [])
    (h : ∀ a, Follows g file sight sight (seenAll sight (nodesOf (some a))) (f a) fun _ => True) :
    Follows g file sight sight (seenAll sight (nodesOf a?)) (a?.mapM f) fun _ => True := by
  cases a? with
  | none =>
    rw [nothing]
    exact plain _
  | some a => exact ⟨(h a).grows, (h a).follows⟩

theorem record {n : Node} {type : Ty} (suits : g.SuitsNode sight n type) :
    Follows g file sight sight [(sight, n)] (Check.record file n.span type) fun _ => True where
  grows := keeps_record stepRelation_grows file n.span type
  follows _ visible _ := ⟨visible, trivial, [((file, n.span), type)], rfl, Notes.nil.cons suits⟩

theorem define {name : String} {binding : Binding} {kind : SymbolKind}
    (suits : g.Suits binding kind) (known : ∀ written, kind ≠ .«alias» written none) (other : FileId) (span : Span) :
    Follows g file sight (sight.define name binding) [] (Check.define other name kind span)
      fun _ => True where
  grows := keeps_define stepRelation_grows other name kind span
  follows _ visible _ := ⟨visible.define suits known span (some other), trivial, [], rfl, .nil⟩

/-- What a scope defines is forgotten after it. -/
theorem inScope {kind : ScopeKind} {work : Check PUnit}
    (h : Follows g file ([] :: sight) later seen work fun _ => True) (closes : later.tail = sight) :
    Follows g file sight sight seen (Check.inScope kind work) fun _ => True where
  grows := keeps_inScope stepRelation_grows kind h.grows
  follows s visible fine := by
    obtain ⟨inside, -, types⟩ := h.follows { s with symbols := s.symbols.enter kind }
      (visible.enter kind) fine
    refine ⟨?_, trivial, types⟩
    subst closes
    cases later with
    | nil => exact (inside.inside rfl).elim
    | cons names outer => exact inside.exit visible.inside

end Follows

theorem follows_checkValue (e : Expr) :
    Follows g file sight sight (seenAll sight [.expression e]) (checkValue file e) fun _ => True :=
  ((e.follows_check (.value none)).mono fun _ _ => trivial).discard

theorem follows_bindName (name : Name) (type : Ty) (keyword? : Option VariableKeyword) :
    Follows g file sight (sight.define name.text (.variable keyword?)) []
      (Check.bind file name type keyword?) fun _ => True := by
  refine .read fun s => ?_
  dsimp only
  split
  · exact .report
  · exact .define .variable (by simp) file name.span

/-- A function that is declared again stays a function. -/
theorem follows_defineFunction (name : Name) (params : List Field) (returns : Ty) (hasBody : Bool) :
    Follows g file sight (sight.define name.text .function) []
      (defineFunction file name params returns hasBody) fun _ => True where
  grows := keeps_defineFunction stepRelation_grows file name params returns hasBody
  follows s visible := by
    rw [defineFunction]
    simp only [StateT.run_bind, StateT.run_get, pure_bind]
    split
    · exact (Follows.define .function (by simp) file name.span).follows s visible
    next id named =>
      split
      next params returns hadBody _ _ _ has =>
        have held : g.Matches (sight.define name.text .function) s.symbols :=
          visible.hold named has .function
        split
        · have bodied := held.setBody has rfl (hadBody || hasBody)
          rw [StateT.run_bind]
          split
          · exact fun fine => (fine (s.failed_report _)).elim
          · exact fun _ => ⟨bodied, trivial, [], rfl, .nil⟩
        · exact fun _ => ⟨held, trivial, [], rfl, .nil⟩
      · exact fun fine => (fine (s.failed_report _)).elim

theorem follows_resolveOptional (type? : Option TypeExpr) :
    Follows g file sight sight (seenAll sight (Node.ofType? type?)) (resolveOptional file type?)
      fun _ => True := by
  cases type? with
  | none => exact .plain _
  | some type => exact follows_resolveType type

theorem follows_collectParams (params : List Param) :
    Follows g file sight sight (seenAll sight (params.map Node.param)) (collectParams file params)
      fun _ => True := by
  induction params with
  | nil => exact .plain _
  | cons p rest ih =>
    rw [List.map_cons, seenAll_cons]
    have first : Follows g file sight sight (seenAll sight [.param p])
        (recording file p.span (resolveOptional file p.type?)) fun _ => True :=
      (follows_resolveOptional p.type?).recording fun _ _ =>
        ⟨⟨by simp, by simp [Node.written?], by simp⟩, trivial⟩
    exact first.bind fun _ => ih.returns

theorem follows_collectFunction (head : FunctionHead) (hasBody : Bool) :
    Follows g file sight (sight.defineFunction head) (seenAll sight head.outerNodes)
      (collectFunction file head hasBody) fun _ => True := by
  rw [collectFunction_eq, FunctionHead.outerNodes, seenAll_append]
  refine (follows_collectParams head.params).bind fun params => ?_
  refine (follows_resolveOptional head.returns?).thenNothing fun returns => ?_
  rw [Sight.defineFunction]
  cases head.name? with
  | none => exact .plain _
  | some name => exact follows_defineFunction name params returns hasBody

theorem follows_recordedParams (other : FileId) (params : List Param) :
    Follows g file sight sight [] (recordedParams other params)
      fun fields => fields.length = params.length := by
  induction params with
  | nil => exact .pure rfl
  | cons p rest ih =>
    have type? : Follows g file sight sight [] (recorded? other p.span) fun _ => True :=
      .settled (keeps_recorded? stepRelation_grows _ _) (keeps_recorded? reportRelation_settled _ _)
    refine type?.andThen fun type? => ?_
    refine ih.thenNothingWith (fun _ => keeps_pure stepRelation_grows _) fun fields same => ?_
    exact .pure (congrArg (· + 1) same)

theorem follows_recordedReturns (other : FileId) (head : FunctionHead) :
    Follows g file sight sight [] (recordedReturns other head) fun _ => True :=
  .settled (keeps_recordedReturns stepRelation_grows other head)
    (keeps_recordedReturns reportRelation_settled other head)

theorem follows_bindParams {params : List Param} {fields : List Field}
    (same : fields.length = params.length) :
    Follows g file sight
      (params.foldl (fun sight p => sight.define p.name.text (.variable none)) sight) []
      (bindParams file params fields) fun _ => True := by
  induction params generalizing fields sight with
  | nil => exact .plain _
  | cons p rest ih =>
    cases fields with
    | nil => cases same
    | cons f fields =>
      exact (follows_bindName p.name f.type none).andThen fun _ => ih (Nat.succ.inj same)

/-- Inside of a function its parameters can be seen. -/
theorem follows_inFunction {head : FunctionHead} {work : Check PUnit}
    (h : Follows g file (sight.enterFunction head) later seen work fun _ => True)
    (closes : later.tail = sight) :
    Follows g file sight sight seen (inFunction file head work) fun _ => True := by
  refine (follows_recordedParams file head.params).bindWith (fun params => ?_) fun params same => ?_
  · refine keeps_bind stepRelation_grows (keeps_recordedReturns stepRelation_grows _ _) fun _ => ?_
    refine keeps_inScope stepRelation_grows _ ?_
    refine keeps_bind stepRelation_grows (keeps_setReturnType stepRelation_grows _) fun _ => ?_
    exact keeps_bind stepRelation_grows (keeps_bindParams stepRelation_grows _ _ _) fun _ => h.grows
  · refine (follows_recordedReturns file head).andThen fun returns => .inScope ?_ closes
    have sets : Follows g file ([] :: sight) ([] :: sight) []
        (modifySymbols (·.setReturnType returns)) fun _ => True :=
      ⟨keeps_setReturnType stepRelation_grows returns,
        fun _ visible _ => ⟨visible.setReturnType returns, trivial, [], rfl, .nil⟩⟩
    exact sets.andThen fun _ => (follows_bindParams same).andThen fun _ => h

theorem follows_inBranch (s : Statement) {work : Check PUnit}
    (h : Follows g file (sight.enterBranch s) (s.after (sight.enterBranch s)) seen work
      fun _ => True) :
    Follows g file sight sight seen (inBranch s work) fun _ => True := by
  cases s with
  | block => exact h
  | _ => exact h.inScope (Statement.tail_after _ _)

end Check

open Check

variable {g : ModuleGraph} {file : FileId} {sight : Sight}

theorem Declarator.follows_check (keyword : VariableKeyword) (d : Declarator) :
    Follows g file sight (sight.define d.name.text (.variable (some keyword)))
      (seenAll sight [.declarator d]) (d.check file keyword) fun _ => True := by
  have known (type : Ty) : Follows g file sight (sight.define d.name.text (.variable (some keyword)))
      [(sight, .declarator d)] (do
        record file d.span type
        Check.bind file d.name type (some keyword)) fun _ => True :=
    (Follows.record (n := .declarator d) ⟨by simp, by simp [Node.written?], by simp⟩).thenNothing fun _ =>
      follows_bindName d.name type (some keyword)
  have whole : Follows g file sight (sight.define d.name.text (.variable (some keyword)))
      (seenAll sight (Node.ofType? d.type?) ++
        (seenAll sight (Node.ofExpr? d.initializer?) ++ [(sight, .declarator d)]))
      (d.check file keyword) fun _ => True := by
    refine (Follows.optionMapM rfl fun type => follows_resolveType type).bind fun written? => ?_
    refine (Follows.optionMapM rfl fun e => ?_).bind fun inferred? => ?_
    · exact (e.follows_check (.value written?)).mono fun _ _ => trivial
    · dsimp only
      split
      · exact .reportThen fun _ => known _
      · exact known _
  -- The declarator gets its type after what is inside of it, but is the outer node.
  refine whole.reorder ?_
  rw [← List.append_assoc, ← seenAll_append, seenAll_singleton]
  exact List.perm_append_singleton _ _

theorem Declarator.follows_checkAll (keyword : VariableKeyword) (declarators : List Declarator) :
    Follows g file sight
      (declarators.foldl (fun sight d => sight.define d.name.text (.variable (some keyword))) sight)
      (withInner (Declarator.outlooks keyword sight declarators))
      (declarators.forM (·.check file keyword)) fun _ => True := by
  induction declarators generalizing sight with
  | nil => exact .plain _
  | cons d rest ih =>
    rw [Declarator.outlooks, withInner_cons]
    exact (d.follows_check keyword).bind fun _ => ih

theorem VariableList.follows_check (list : VariableList) :
    Follows g file sight (sight.defineVariables list) (withInner (list.outlooks sight))
      (list.check file) fun _ => True := Declarator.follows_checkAll list.keyword list.declarators

theorem LoopStart.follows_check (start : LoopStart) :
    Follows g file sight (start.after sight) (withInner (start.outlooks sight)) (start.check file)
      fun _ => True := by
  cases start with
  | nothing => exact .plain _
  | «variables» _ list => exact list.follows_check
  | expression value =>
    rw [LoopStart.outlooks, withInner_seenFrom]
    · exact follows_checkValue value
    · simp

theorem LoopClauses.follows_check (clauses : LoopClauses) :
    Follows g file sight (clauses.start.after sight) (withInner (clauses.outlooks sight))
      (clauses.check file) fun _ => True := by
  rw [LoopClauses.outlooks, withInner_append, withInner_seenFrom, seenAll_append]
  refine clauses.start.follows_check.bind fun _ => ?_
  refine (Follows.optionForM rfl fun e => follows_checkValue e).bind fun _ => ?_
  exact .optionForM rfl fun e => follows_checkValue e

mutual

theorem Statement.follows_check (sight : Sight) (s : Statement) :
    Follows g file sight (s.after sight) (withInner (s.outlooks sight)) (s.check file)
      fun _ => True := by
  match s with
  | .function _ head _ body =>
    rw [Statement.check, Statement.outlooks, withInner_append, withInner_seenFrom]
    refine (follows_collectFunction head true).bind fun _ => ?_
    refine follows_inFunction (Statement.follows_checkAll _ body) ?_
    exact (Statement.tail_afterAll _ _).trans (tail_enterFunction _ _)
  | .overload _ head =>
    rw [Statement.check, Statement.outlooks, withInner_seenFrom]
    refine (follows_collectFunction head false).thenNothing fun _ => ?_
    exact follows_inFunction (.plain _) (tail_enterFunction _ _)
  | .importing .. | .interface .. | .typeAlias .. =>
    rw [Statement.check]
    exact .report
  | .block _ body =>
    rw [Statement.check, Statement.outlooks]
    exact (Statement.follows_checkAll _ body).inScope (Statement.tail_afterAll _ _)
  | .expression _ value =>
    rw [Statement.check, Statement.outlooks, withInner_singleton]
    exact follows_checkValue value
  | .forLoop _ clauses body =>
    rw [Statement.check, Statement.outlooks, withInner_append]
    refine Follows.inScope ?_ (LoopStart.tail_after ([] :: sight) clauses.start)
    refine clauses.follows_check.bind fun _ => ?_
    exact follows_inBranch body (Statement.follows_check _ body)
  | .returning _ value? =>
    rw [Statement.check, Statement.outlooks, withInner_seenFrom]
    refine .read fun s => ?_
    have value (expected? : Option Ty) :
        Follows g file sight sight (seenAll sight (Node.ofExpr? value?))
          (value?.forM fun value => discard (value.check file (.value expected?))) fun _ => True :=
      .optionForM rfl fun e => ((e.follows_check _).mono fun _ _ => trivial).discard
    dsimp only
    split
    · exact .reportThen fun _ => value _
    · exact value _
  | .«variables» _ list =>
    rw [Statement.check, Statement.outlooks]
    exact list.follows_check
  | .ifThen _ condition thenBranch =>
    rw [Statement.check, Statement.outlooks, withInner_cons]
    refine (follows_checkValue condition).bind fun _ => ?_
    exact follows_inBranch thenBranch (Statement.follows_check _ thenBranch)
  | .ifElse _ condition thenBranch elseBranch =>
    rw [Statement.check, Statement.outlooks, withInner_cons, withInner_append]
    refine (follows_checkValue condition).bind fun _ => ?_
    refine (follows_inBranch thenBranch (Statement.follows_check _ thenBranch)).bind fun _ => ?_
    exact follows_inBranch elseBranch (Statement.follows_check _ elseBranch)
  | .whileLoop _ condition body =>
    rw [Statement.check, Statement.outlooks, withInner_cons]
    refine (follows_checkValue condition).bind fun _ => ?_
    exact follows_inBranch body (Statement.follows_check _ body)
  | .doLoop _ body condition =>
    rw [Statement.check, Statement.outlooks, withInner_append, withInner_singleton]
    refine (follows_inBranch body (Statement.follows_check _ body)).bind fun _ => ?_
    exact follows_checkValue condition
  | .empty _ =>
    rw [Statement.check]
    exact .plain _

theorem Statement.follows_checkAll (sight : Sight) (statements : List Statement) :
    Follows g file sight (statements.foldl Statement.after sight)
      (withInner (Statement.allOutlooks sight statements)) (Statement.checkAll file statements)
      fun _ => True := by
  match statements with
  | [] =>
    rw [Statement.checkAll]
    exact .plain _
  | s :: rest =>
    rw [Statement.checkAll, Statement.allOutlooks, withInner_append]
    exact (Statement.follows_check _ s).bind fun _ => Statement.follows_checkAll _ rest

end

namespace Check

theorem follows_bindImported (name : Name) (owner : FileId) (head : FunctionHead) (hasBody : Bool) :
    Follows g file sight (sight.define name.text .function) []
      (bindImported file name owner head hasBody) fun _ => True := by
  have params : Follows g file sight sight [] (recordedParams owner head.params) fun _ => True :=
    (follows_recordedParams owner head.params).mono fun _ _ => trivial
  refine params.andThen fun params => (follows_recordedReturns owner head).andThen fun returns => ?_
  exact .define .function (by simp) file name.span

theorem follows_checkImportedName (specifier : String) (m : Module) (entry : ImportedName) :
    Follows g file sight (g.afterImported m sight entry) []
      (checkImportedName file specifier m entry) fun _ => True := by
  rw [checkImportedName, afterImported]
  cases m.program.findSome? (Statement.export? entry.imported) with
  | none => exact .report
  | some exported =>
    cases exported with
    | function head hasBody =>
      exact follows_bindImported ⟨entry.localName, entry.span⟩ m.id head hasBody
    | type name =>
      dsimp only
      by_cases same : entry.localName = name
      · rw [if_pos same, if_neg (not_not_intro same)]
        exact .plain _
      · rw [if_neg same, if_pos same]
        refine .kind?_bind ?_ fun kind? suits known => ?_
        · refine keeps_bind stepRelation_grows (keeps_kind? stepRelation_grows name) fun kind? => ?_
          split
          · exact keeps_define stepRelation_grows _ _ _ _
          · exact keeps_pure stepRelation_grows _
        · generalize g.binding? sight name = binding? at suits ⊢
          cases suits with
          | none => exact .plain _
          | some suits =>
            refine .define (.renamed suits) (fun written is => ?_) file entry.span
            exact known written (congrArg some is)

theorem follows_checkImportedNames (specifier : String) (m : Module) (entries : List ImportedName) :
    Follows g file sight (entries.foldl (g.afterImported m) sight) []
      (entries.forM (checkImportedName file specifier m)) fun _ => True := by
  induction entries generalizing sight with
  | nil => exact .plain _
  | cons entry rest ih =>
    exact (follows_checkImportedName specifier m entry).andThen fun _ => ih

theorem follows_checkImport (decl : ImportDecl) :
    Follows g file sight (g.afterImport file sight decl) [] (checkImport g file decl)
      fun _ => True := by
  rw [checkImport, afterImport]
  cases g.resolveImport file decl.specifier.text with
  | none => exact .report
  | some m =>
    dsimp only
    have whole : Follows g file sight sight [] (decl.whole?.forM fun whole =>
        report file (.wholeModuleImport decl.specifier.text) whole.span) fun _ => True := by
      cases decl.whole? with
      | none => exact .plain _
      | some whole => exact .report
    have names (sight : Sight) : Follows g file sight
        (decl.named.foldl (g.afterImported m) sight) []
        (decl.named.forM (checkImportedName file decl.specifier.text m)) fun _ => True :=
      follows_checkImportedNames decl.specifier.text m decl.named
    refine whole.andThen fun _ => ?_
    cases decl.default? with
    | none => exact (Follows.plain _).andThen fun _ => names sight
    | some name =>
      cases m.program.findSome? Statement.defaultExport? with
      | none => exact .reportThen fun _ => names _
      | some found =>
        exact (follows_bindImported name m.id found.1 found.2).andThen fun _ => names _

theorem follows_checkTopLevel (s : Statement) :
    Follows g file sight (g.sightAfter file sight s) (withInner (s.topOutlooks sight))
      (checkTopLevel g file s) fun _ => True := by
  have inside : Follows g file sight (s.after sight) (withInner (s.outlooks sight)) (s.check file)
      fun _ => True := Statement.follows_check sight s
  cases s with
  | function _ head _ body =>
    refine follows_inFunction (Statement.follows_checkAll _ body) ?_
    exact (Statement.tail_afterAll _ _).trans (tail_enterFunction _ _)
  | overload _ head => exact follows_inFunction (.plain _) (tail_enterFunction _ _)
  | importing _ decl => exact follows_checkImport decl
  | interface | typeAlias => exact .plain _
  | _ => exact inside

theorem follows_checkProgram (program : List Statement) :
    Follows g file sight (program.foldl (g.sightAfter file) sight)
      (withInner (g.outerOutlooks file sight program)) (program.forM (checkTopLevel g file))
      fun _ => True := by
  induction program generalizing sight with
  | nil => exact .plain _
  | cons s rest ih =>
    rw [outerOutlooks, withInner_append]
    exact (follows_checkTopLevel s).bind fun _ => ih

end Check

namespace ModuleGraph

/-- When everything is collected, what each name stands for is what it means. -/
theorem matches_collected {s : CheckState} (h : g.Gathering g.declarations s) (fine : ¬s.Failed)
    (found : s.symbols.AliasesFound) : g.Matches [[]] (s.symbols.enter .module) where
  inside := List.cons_ne_nil _ _
  inner := by
    rw [SymbolTable.inner_enter, h.inner]
    exact .cons (fun _ => .none) .nil
  outermost name := by
    have fits := (h.fits name).mono fine
    rw [SymbolTable.kind?_eq_findSome?, SymbolTable.scopes, h.inner, List.nil_append,
      List.findSome?_singleton] at fits
    rw [SymbolTable.outermost_enter]
    exact fits
  aliases := found

/-- Unless it fails, checking a module gives types to its nodes that suit what is seen from them. -/
theorem notes_checkModule {m : Module} {s : CheckState}
    (start : g.Matches [[]] (s.symbols.enter .module)) (fine : ¬((checkModule g m).run s).2.Failed) :
    ∃ new, ((checkModule g m).run s).2.types.records = new ++ s.types.records ∧
      g.Notes m.id (g.outlooks m) new := by
  obtain ⟨-, -, types⟩ := (follows_checkProgram m.program).follows
    { s with symbols := s.symbols.enter .module } start fine
  exact types

/-- If nodes have different ranges, each gets a type that suits it. -/
theorem Notes.exists_lookup {seen : List (Sight × Node)} {new : List (Place × Ty)}
    (h : g.Notes file seen new) (distinct : (seen.map fun v => v.2.span).Nodup) {v : Sight × Node}
    (mem : v ∈ seen) (old : List (Place × Ty)) :
    ∃ type, (new ++ old).lookup (file, v.2.span) = some type ∧ g.SuitsNode v.1 v.2 type := by
  obtain ⟨r, among, place⟩ := h.typed v mem
  cases found : new.lookup (file, v.2.span) with
  | none => exact (bne_iff_ne.1 (List.lookup_eq_none_iff.1 found r among) place.symm).elim
  | some type =>
    refine ⟨type, by rw [List.lookup_append, found, Option.some_or], ?_⟩
    obtain ⟨before, after, is, -⟩ := List.lookup_eq_some_iff.1 found
    obtain ⟨w, mem', same, suits⟩ := h.suits ((file, v.2.span), type) (by simp [is])
    obtain rfl := List.inj_on_of_nodup_map distinct mem mem' (Prod.mk.inj same).2
    exact suits

/-- The nodes of a module that get their types when it is checked have different ranges. -/
theorem IsNumbered.outlooks_distinct (numbered : g.IsNumbered) {m : Module} (hm : m ∈ g.modules) :
    ((g.outlooks m).map fun v => v.2.span).Nodup := by
  have spans : (g.outlooks m).map (fun v => v.2.span) = m.program.checkedNodes.map Node.span := by
    rw [← map_snd_outlooks, List.map_map]
    rfl
  rw [spans, List.nodup_iff_count_le_one]
  intro span
  have once := List.nodup_iff_count_le_one.1 (numbered.spans m hm) span
  have both := m.program.count_signatures span
  omega

/-- If a program is accepted, each node of a module that gets its type when it is checked has one
that suits what is seen from it. -/
theorem outlooks_hold {s : Sources} {entry : Path} (loaded : load s entry = .ok g)
    {types : TypeTable} (accepted : g.check = .ok types) {m : Module} (hm : m ∈ g.modules) {v : Sight × Node}
    (mem : v ∈ g.outlooks m) :
    ∃ type, types.typeAt m.id v.2.span = some type ∧ g.SuitsNode v.1 v.2 type := by
  have numbered := isNumbered_of_load loaded
  have checked := hasChecked numbered (fun _ mem => mem) numbered.ids
  obtain ⟨fine, each⟩ := checked.not_failed (not_failed_of_check (accepted ▸ rfl))
  have start := matches_collected g.gathering_collect fine (aliasesFound_collect g)
  obtain ⟨new, records, notes⟩ := notes_checkModule start (each m hm)
  obtain ⟨type, is, suits⟩ :=
    notes.exists_lookup (numbered.outlooks_distinct hm) mem g.collected.types.records
  refine ⟨type, ?_, suits⟩
  have final : types = (g.checkedAfter g.modules).types := by
    rw [check_eq] at accepted
    split at accepted <;> cases accepted
    rfl
  rw [final, (checked.alone numbered.ids hm).types, TypeTable.typeAt]
  exact (congrArg (List.lookup (m.id, v.2.span)) records).trans is

end ModuleGraph

end ScriptToGo
