import ScriptToGo.Module.Walk
import ScriptToGo.Proofs.Check.Renumbering
import ScriptToGo.Proofs.Program.Signatures

/-! Work on a module goes the same way from both states in which it may start. -/
namespace ScriptToGo

namespace Check

/-- Work that goes the same way from both states, or two pieces of work that do. -/
def Parallel (p : Starts) (depth : Nat) {α : Type} (x y : Check α) : Prop :=
  ∀ s t, p.Alike depth s t →
    (x.run s).1 = (y.run t).1 ∧ p.Alike depth (x.run s).2 (y.run t).2

namespace Parallel

variable {p : Starts} {depth : Nat} {α β : Type} {x y : Check α} {f g : α → Check β}

theorem pure (a : α) : Parallel p depth (Pure.pure a) (Pure.pure a) := fun _ _ alike => ⟨rfl, alike⟩

theorem bind (first : Parallel p depth x y) (next : ∀ a, Parallel p depth (f a) (g a)) :
    Parallel p depth (x >>= f) (y >>= g) := by
  intro s t alike
  obtain ⟨same, later⟩ := first s t alike
  change ((f (x.run s).1).run (x.run s).2).1 = ((g (y.run t).1).run (y.run t).2).1 ∧
    p.Alike depth ((f (x.run s).1).run (x.run s).2).2 ((g (y.run t).1).run (y.run t).2).2
  rw [← same]
  exact next _ _ _ later

theorem returns (h : Parallel p depth x y) (f : α → β) :
    Parallel p depth (x >>= fun a => Pure.pure (f a)) (y >>= fun a => Pure.pure (f a)) :=
  h.bind fun _ => pure _

theorem discard (h : Parallel p depth x y) :
    Parallel p depth (Functor.discard x) (Functor.discard y) := fun s t alike =>
  ⟨rfl, (h s t alike).2⟩

/-- Work that begins with a look at the state. -/
theorem read {f g : CheckState → Check β}
    (h : ∀ s t, p.Alike depth s t → Parallel p depth (f s) (g t)) :
    Parallel p depth (get >>= f) (get >>= g) := fun s t alike => h s t alike s t alike

/-- What both states show in the same way. -/
theorem look {f : CheckState → β} (same : ∀ s t, p.Alike depth s t → f t = f s) :
    Parallel p depth (do return f (← get)) (do return f (← get)) :=
  read fun s t alike => by
    rw [same s t alike]
    exact pure _

theorem report {fault : TypeFault} {span : Span}
    (plain : ∀ name, fault ≠ .circularAlias name) :
    Parallel p depth (Check.report p.file fault span) (Check.report p.file fault span) :=
  fun _ _ alike => ⟨rfl, alike.report span plain⟩

theorem fault {fault : TypeFault} {span : Span}
    (plain : ∀ name, fault ≠ .circularAlias name) :
    Parallel p depth (Check.fault p.file fault span) (Check.fault p.file fault span) :=
  (report plain).bind fun _ => pure _

theorem record {span : Span} (own : p.own span) (type : Ty) :
    Parallel p depth (Check.record p.file span type) (Check.record p.file span type) :=
  fun _ _ alike => ⟨rfl, alike.record own type⟩

theorem recording {span : Span} (own : p.own span) {x y : Check Ty} (h : Parallel p depth x y) :
    Parallel p depth (Check.recording p.file span x) (Check.recording p.file span y) :=
  h.bind fun type => (record own type).bind fun _ => pure _

theorem recorded? {file : FileId} {span : Span} (known : p.known file span) :
    Parallel p depth (Check.recorded? file span) (Check.recorded? file span) :=
  look fun _ _ alike => alike.typeAt_eq known

theorem kind? (name : String) : Parallel p depth (Check.kind? name) (Check.kind? name) :=
  look fun _ _ alike => alike.kind?_eq name

/-- What a name stands for is no alias that has yet to be looked into. -/
theorem kind?_bind {name : String} {f g : Option SymbolKind → Check β}
    (h : ∀ kind?, (∀ written, kind? ≠ some (.«alias» written none)) →
      Parallel p depth (f kind?) (g kind?)) :
    Parallel p depth (Check.kind? name >>= f) (Check.kind? name >>= g) := by
  intro s t alike
  have goes := h _ (alike.found.kind?_ne name) s t alike
  change ((f (s.symbols.kind? name)).run s).1 = ((g (t.symbols.kind? name)).run t).1 ∧ p.Alike depth
    ((f (s.symbols.kind? name)).run s).2 ((g (t.symbols.kind? name)).run t).2
  rwa [alike.kind?_eq]

theorem define (inside : 0 < depth) (name : String) {kind : SymbolKind} (span : Span)
    (known : ∀ written, kind ≠ .«alias» written none) :
    Parallel p depth (Check.define p.file name kind span) (Check.define p.file name kind span) :=
  fun _ _ alike => ⟨rfl, alike.define inside name span (some p.file) known⟩

theorem setReturnType (inside : 0 < depth) (type : Ty) : Parallel p depth
    (modifySymbols (·.setReturnType type)) (modifySymbols (·.setReturnType type)) :=
  fun _ _ alike => ⟨rfl, alike.setReturnType inside type⟩

theorem inScope (kind : ScopeKind) {x y : Check PUnit} (h : Parallel p (depth + 1) x y) :
    Parallel p depth (Check.inScope kind x) (Check.inScope kind y) := fun _ _ alike =>
  ⟨rfl, (h _ _ (alike.enter kind)).2.exit⟩

theorem forM {list : List α} {f : α → Check PUnit}
    (h : ∀ a ∈ list, Parallel p depth (f a) (f a)) :
    Parallel p depth (list.forM f) (list.forM f) := by
  induction list with
  | nil => exact pure _
  | cons a rest ih =>
    obtain ⟨here, others⟩ := List.forall_mem_cons.1 h
    exact here.bind fun _ => ih others

theorem optionForM {a? : Option α} {f : α → Check PUnit}
    (h : ∀ a ∈ a?, Parallel p depth (f a) (f a)) : Parallel p depth (a?.forM f) (a?.forM f) := by
  cases a? with
  | none => exact pure _
  | some a => exact h a rfl

theorem optionMapM {a? : Option α} {f : α → Check β}
    (h : ∀ a ∈ a?, Parallel p depth (f a) (f a)) : Parallel p depth (a?.mapM f) (a?.mapM f) := by
  cases a? with
  | none => exact pure _
  | some a =>
    intro s t alike
    obtain ⟨same, later⟩ := h a rfl s t alike
    exact ⟨congrArg some same, later⟩

end Parallel

variable {p : Starts} {depth : Nat}

mutual

theorem parallel_typeOf {expand expand' : String → Span → Check Ty}
    (h : ∀ name span, Parallel p depth (expand name span) (expand' name span)) (t : TypeExpr) :
    Parallel p depth (typeOf p.file expand t) (typeOf p.file expand' t) := by
  match t with
  | .named span name args =>
    rw [typeOf, typeOf]
    refine (parallel_typesOf h args).bind fun types => ?_
    split
    · split
      · exact .pure _
      · exact .fault (by simp)
    · refine (Parallel.kind? name).bind fun kind => ?_
      split
      · split
        · exact (Parallel.report (by simp)).bind fun _ => .pure _
        · exact .pure _
      · exact .pure _
      · exact h name span
      · exact .fault (by simp)
      · exact .fault (by simp)
  | .array span element =>
    rw [typeOf, typeOf]
    exact (parallel_typeOf h element).returns _
  | .object span members =>
    rw [typeOf, typeOf]
    exact (parallel_fieldsOf h members).returns _
  | .string .. | .number .. | .boolean .. | .null .. =>
    rw [typeOf, typeOf]
    exact .pure _

theorem parallel_typesOf {expand expand' : String → Span → Check Ty}
    (h : ∀ name span, Parallel p depth (expand name span) (expand' name span))
    (types : List TypeExpr) :
    Parallel p depth (typesOf p.file expand types) (typesOf p.file expand' types) := by
  match types with
  | [] =>
    rw [typesOf, typesOf]
    exact .pure _
  | t :: rest =>
    rw [typesOf, typesOf]
    exact (parallel_typeOf h t).bind fun _ => (parallel_typesOf h rest).returns _

theorem parallel_fieldsOf {expand expand' : String → Span → Check Ty}
    (h : ∀ name span, Parallel p depth (expand name span) (expand' name span))
    (members : List Member) :
    Parallel p depth (fieldsOf p.file expand members) (fieldsOf p.file expand' members) := by
  match members with
  | [] =>
    rw [fieldsOf, fieldsOf]
    exact .pure _
  | .mk _ name _ t :: rest =>
    rw [fieldsOf, fieldsOf]
    exact (parallel_typeOf h t).bind fun _ => (parallel_fieldsOf h rest).returns _

end

/-- What the name of an alias stands for, once that is known. -/
def aliasOf (name : String) : Option SymbolKind → Ty
  | some (.«alias» _ (some target)) => .«alias» name target
  | _ => .unknown

theorem run_get_bind {α : Type} (f : CheckState → Check α) (s : CheckState) :
    ((get : Check CheckState) >>= f).run s = (f s).run s := rfl

/-- Once it is known what an alias stands for, it is not looked into. -/
theorem run_aliasType {s : CheckState} {name : String}
    (known : ∀ written, s.symbols.kind? name ≠ some (.«alias» written none)) (free : List String)
    (file : FileId) (span : Span) :
    (aliasType free file name span).run s = (aliasOf name (s.symbols.kind? name), s) := by
  rw [aliasType]
  refine (run_get_bind _ s).trans ?_
  dsimp only
  rw [SymbolTable.kind?] at known ⊢
  cases found : s.symbols.lookup name with
  | none => rfl
  | some id =>
    rw [found] at known
    dsimp only [Option.bind_some] at known ⊢
    cases has : s.symbols.symbol? id with
    | none => rfl
    | some symbol =>
      rw [has] at known
      obtain ⟨_, kind, _, _, _⟩ := symbol
      cases kind with
      | «alias» written target? =>
        cases target? with
        | none => exact (known written rfl).elim
        | some target => rfl
      | _ => rfl

/-- It does not matter which aliases may be looked into. -/
theorem parallel_aliasType (free free' : List String) (name : String) (span : Span) :
    Parallel p depth (aliasType free p.file name span) (aliasType free' p.file name span) := by
  intro s t alike
  have known := alike.found.kind?_ne name
  have known' := known
  rw [← alike.kind?_eq] at known'
  rw [run_aliasType known, run_aliasType known', alike.kind?_eq]
  exact ⟨rfl, alike⟩

theorem parallel_resolveType (type : TypeExpr) (own : p.own type.span) :
    Parallel p depth (resolveType p.file type) (resolveType p.file type) := by
  refine Parallel.read fun s t _ => ?_
  exact .recording own (parallel_typeOf (parallel_aliasType _ _) type)

theorem parallel_resolveOptional (type? : Option TypeExpr) (own : p.Owns (Node.ofType? type?)) :
    Parallel p depth (resolveOptional p.file type?) (resolveOptional p.file type?) := by
  cases type? with
  | none => exact .pure _
  | some type => exact parallel_resolveType type (Starts.owns_singleton.1 own).1

theorem parallel_typeOfName (name : String) (span : Span) :
    Parallel p depth (typeOfName p.file name span) (typeOfName p.file name span) := by
  refine (Parallel.kind? name).bind fun kind => ?_
  split
  · exact .pure _
  · exact .pure _
  · exact .pure _
  · exact .fault (by simp)
  · exact .fault (by simp)
  · exact .fault (by simp)
  · exact .fault (by simp)

theorem parallel_requireWritable (name : String) (span : Span) :
    Parallel p depth (requireWritable p.file name span) (requireWritable p.file name span) := by
  refine (Parallel.kind? name).bind fun kind => ?_
  split
  · exact .report (by simp)
  · exact .report (by simp)
  · exact .pure _

theorem parallel_fields? (type : Ty) : Parallel p depth (fields? type) (fields? type) := by
  rw [fields?]
  split
  · exact .pure _
  · refine (Parallel.kind? _).bind fun kind => ?_
    split <;> exact .pure _
  · exact .pure _

theorem parallel_typeOfMember (type : Ty) (property : Name) :
    Parallel p depth (typeOfMember p.file type property) (typeOfMember p.file type property) := by
  refine (parallel_fields? _).bind fun fields => ?_
  dsimp only
  split
  · exact .pure _
  · split
    · exact .pure _
    · split
      · exact .pure _
      · split
        · exact .pure _
        · exact .fault (by simp)
      · exact .fault (by simp)

theorem parallel_callsGlobal (e : Expr) :
    Parallel p depth (callsGlobal p.file e) (callsGlobal p.file e) := by
  rw [callsGlobal.eq_def]
  split
  · exact (Parallel.recorded? (p.known_file _)).returns _
  · exact .pure _

theorem parallel_settle {use : Use} (known : use.IsLocal) {span : Span} (own : p.own span)
    {x : Check Ty} (h : Parallel p depth x x) :
    Parallel p depth (settle p.file use span x) (settle p.file use span x) := by
  refine (Parallel.recording own h).bind fun type => ?_
  split
  · exact .pure _
  · exact .fault (known _ rfl).2

end Check

open Check

variable {p : Starts} {depth : Nat}

mutual

theorem Expr.parallel_check {use : Use} (known : use.IsLocal) (e : Expr)
    (own : p.Owns [.expression e]) :
    Parallel p depth (e.check p.file use) (e.check p.file use) := by
  obtain ⟨here, inner⟩ := Starts.owns_singleton.1 own
  match e with
  | .ident span name =>
    rw [Expr.check]
    refine (Parallel.recording here (parallel_typeOfName _ _)).bind fun type => ?_
    split
    · exact .pure _
    · exact (parallel_requireWritable _ _).bind fun _ => .pure _
  | .member span object property =>
    rw [Expr.check]
    refine .recording here ((Expr.parallel_check (.value _) object inner).bind fun type => ?_)
    exact parallel_typeOfMember _ _
  | .index span object index =>
    rw [Expr.check]
    obtain ⟨first, second⟩ := Starts.owns_cons.1 inner
    refine .recording here ((Expr.parallel_check (.value _) object first).bind fun type => ?_)
    exact (Expr.parallel_check (.value _) index second).discard.returns _
  | .paren span operand =>
    rw [Expr.check]
    exact .recording here (Expr.parallel_check known operand inner)
  | .number .. | .string .. | .boolean .. | .null .. =>
    rw [Expr.check]
    exact parallel_settle known here (.pure _)
  | .template span head holes =>
    rw [Expr.check]
    exact parallel_settle known here ((TemplateHole.parallel_checkAll holes inner).returns _)
  | .array span elements =>
    rw [Expr.check]
    refine parallel_settle known here ((Expr.parallel_checkElements _ elements inner).bind fun _ => ?_)
    split <;> exact .pure _
  | .object span properties =>
    rw [Expr.check]
    exact parallel_settle known here ((Property.parallel_checkAll [] properties inner).returns _)
  | .leading span op opSpan operand =>
    rw [Expr.check]
    refine parallel_settle known here ((Expr.parallel_check ?_ operand inner).bind fun _ => ?_)
    · split
      · exact .badStepTarget
      · exact .value _
    · split <;> exact .pure _
  | .trailing span operand op opSpan =>
    rw [Expr.check]
    exact parallel_settle known here
      ((Expr.parallel_check .badStepTarget operand inner).discard.returns _)
  | .binary span left op opSpan right =>
    rw [Expr.check]
    obtain ⟨first, second⟩ := Starts.owns_cons.1 inner
    refine parallel_settle known here ?_
    split
    · exact (Expr.parallel_check .badAssignmentTarget left first).bind fun _ =>
        (Expr.parallel_check (.value _) right second).returns _
    · exact (Expr.parallel_check (.value _) left first).bind fun _ =>
        (Expr.parallel_check (.value _) right second).returns _
  | .call span callee args =>
    rw [Expr.check]
    obtain ⟨first, others⟩ := Starts.owns_cons.1 inner
    refine parallel_settle known here ?_
    refine (Expr.parallel_check (.value _) callee first).bind fun type => ?_
    split
    · refine (parallel_callsGlobal callee).bind fun _ => ?_
      split
      · refine (Parallel.report (by simp)).bind fun _ => ?_
        exact (Expr.parallel_checkArgs _ args others).returns _
      · exact (Expr.parallel_checkArgs _ args others).returns _
    · refine (Expr.parallel_checkArgs _ args others).bind fun _ => ?_
      split
      · exact .pure _
      · exact .fault (by simp)
  | .conditional span condition whenTrue whenFalse =>
    rw [Expr.check]
    obtain ⟨first, others⟩ := Starts.owns_cons.1 inner
    obtain ⟨second, third⟩ := Starts.owns_cons.1 others
    refine parallel_settle known here ?_
    refine (Expr.parallel_check (.value _) condition first).discard.bind fun _ => ?_
    refine (Expr.parallel_check (.value _) whenTrue second).bind fun _ => ?_
    exact (Expr.parallel_check (.value _) whenFalse third).discard.returns _
  | .cast span operand type =>
    rw [Expr.check]
    obtain ⟨first, second⟩ := Starts.owns_cons.1 inner
    refine parallel_settle known here ?_
    refine (Expr.parallel_check (.value _) operand first).discard.bind fun _ => ?_
    exact parallel_resolveType type (Starts.owns_singleton.1 second).1

theorem Expr.parallel_checkElements (expected? : Option Ty) (elements : List Expr)
    (own : p.Owns (elements.map .expression)) :
    Parallel p depth (Expr.checkElements p.file expected? elements)
      (Expr.checkElements p.file expected? elements) := by
  match elements with
  | [] =>
    rw [Expr.checkElements]
    exact .pure _
  | e :: rest =>
    rw [Expr.checkElements]
    obtain ⟨first, others⟩ := Starts.owns_cons.1 own
    refine (Expr.parallel_check (.value _) e first).bind fun _ => ?_
    exact (Expr.parallel_checkElements _ rest others).returns _

theorem Expr.parallel_checkArgs (params : List Field) (args : List Expr)
    (own : p.Owns (args.map .expression)) :
    Parallel p depth (Expr.checkArgs p.file params args) (Expr.checkArgs p.file params args) := by
  match args with
  | [] =>
    rw [Expr.checkArgs]
    exact .pure _
  | e :: rest =>
    rw [Expr.checkArgs]
    obtain ⟨first, others⟩ := Starts.owns_cons.1 own
    exact (Expr.parallel_check (.value _) e first).discard.bind fun _ =>
      Expr.parallel_checkArgs _ rest others

theorem Property.parallel_checkAll (fields : List Field) (properties : List Property)
    (own : p.Owns (properties.map Property.node)) :
    Parallel p depth (Property.checkAll p.file fields properties)
      (Property.checkAll p.file fields properties) := by
  match properties with
  | [] =>
    rw [Property.checkAll]
    exact .pure _
  | .assign _ name value :: rest =>
    rw [Property.checkAll]
    obtain ⟨first, others⟩ := Starts.owns_cons.1 own
    exact (Expr.parallel_check (.value _) value first).bind fun _ =>
      Property.parallel_checkAll _ rest others
  | .shorthand _ name :: rest =>
    rw [Property.checkAll]
    obtain ⟨first, others⟩ := Starts.owns_cons.1 own
    have typed : Parallel p depth (do return (← typeOfName p.file name.text name.span).widened)
        (do return (← typeOfName p.file name.text name.span).widened) :=
      (parallel_typeOfName _ _).returns _
    exact (Parallel.recording (Starts.owns_singleton.1 first).1 typed).bind fun _ =>
      Property.parallel_checkAll _ rest others
  | .spread _ value :: rest =>
    rw [Property.checkAll]
    obtain ⟨first, others⟩ := Starts.owns_cons.1 own
    refine (Expr.parallel_check (.value _) value first).bind fun _ => ?_
    refine (parallel_fields? _).bind fun _ => ?_
    split
    · exact Property.parallel_checkAll _ rest others
    · split
      · exact Property.parallel_checkAll _ rest others
      · exact (Parallel.report (by simp)).bind fun _ => Property.parallel_checkAll _ rest others

theorem TemplateHole.parallel_checkAll (holes : List TemplateHole)
    (own : p.Owns (holes.map fun hole => .expression hole.value)) :
    Parallel p depth (TemplateHole.checkAll p.file holes) (TemplateHole.checkAll p.file holes) := by
  match holes with
  | [] =>
    rw [TemplateHole.checkAll]
    exact .pure _
  | .mk value _ :: rest =>
    rw [TemplateHole.checkAll]
    obtain ⟨first, others⟩ := Starts.owns_cons.1 own
    exact (Expr.parallel_check (.value _) value first).discard.bind fun _ =>
      TemplateHole.parallel_checkAll rest others

end

namespace Check

theorem parallel_checkValue (e : Expr) (own : p.Owns [.expression e]) :
    Parallel p depth (checkValue p.file e) (checkValue p.file e) :=
  (e.parallel_check (.value _) own).discard

theorem parallel_collectParams (params : List Param) (own : p.Owns (params.map .param)) :
    Parallel p depth (collectParams p.file params) (collectParams p.file params) := by
  induction params with
  | nil => exact .pure _
  | cons q rest ih =>
    obtain ⟨first, others⟩ := Starts.owns_cons.1 own
    obtain ⟨here, inner⟩ := Starts.owns_singleton.1 first
    refine (Parallel.recording here (parallel_resolveOptional q.type? inner)).bind fun _ => ?_
    exact (ih others).returns _

theorem parallel_recordedParams (owner : FileId) (params : List Param)
    (known : ∀ q ∈ params, p.known owner q.span) :
    Parallel p depth (recordedParams owner params) (recordedParams owner params) := by
  induction params with
  | nil => exact .pure _
  | cons q rest ih =>
    obtain ⟨here, others⟩ := List.forall_mem_cons.1 known
    exact (Parallel.recorded? here).bind fun _ => (ih others).returns _

theorem parallel_recordedReturns (owner : FileId) (head : FunctionHead)
    (known : ∀ t ∈ head.returns?, p.known owner t.span) :
    Parallel p depth (recordedReturns owner head) (recordedReturns owner head) := by
  rw [recordedReturns]
  split
  · exact .pure _
  · next t some => exact (Parallel.recorded? (known t some)).returns _

variable (inside : 0 < depth)
include inside

/-- In a scope of its own, a module defines the same names in both runs. -/
theorem parallel_bind (name : Name) (type : Ty) (keyword? : Option VariableKeyword) :
    Parallel p depth (Check.bind p.file name type keyword?)
      (Check.bind p.file name type keyword?) := by
  refine Parallel.read fun s t alike => ?_
  rw [(alike.symbols.lookupLocal_eq (alike.depth ▸ inside) name.text).1, Option.isSome_map]
  split
  · split <;> exact .report (by simp)
  · exact .define inside _ _ nofun

theorem parallel_bindParams (params : List Param) (fields : List Field) :
    Parallel p depth (bindParams p.file params fields) (bindParams p.file params fields) := by
  induction params generalizing fields with
  | nil => exact .pure _
  | cons q rest ih =>
    cases fields with
    | nil => exact .pure _
    | cons f fields => exact (parallel_bind inside _ _ _).bind fun _ => ih fields

theorem parallel_defineFunction (name : Name) (params : List Field) (returns : Ty)
    (hasBody : Bool) : Parallel p depth (defineFunction p.file name params returns hasBody)
      (defineFunction p.file name params returns hasBody) := by
  refine Parallel.read fun s t alike => ?_
  obtain ⟨same, new⟩ := alike.symbols.lookupLocal_eq (alike.depth ▸ inside) name.text
  dsimp only
  rw [same]
  cases found : s.symbols.lookupLocal name.text with
  | none => exact .define inside _ _ nofun
  | some id =>
    have new := new id found
    obtain ⟨symbol, has⟩ := SymbolTable.exists_symbol (SymbolTable.lookup_of_lookupLocal found)
    obtain ⟨scope, there⟩ := alike.symbols.exists_scope new has
    obtain ⟨_, kind, _, owner, _⟩ := symbol
    dsimp only [Option.map_some]
    rw [has, there]
    cases kind with
    | function params returns hadBody =>
      dsimp only
      split
      · refine Parallel.bind (fun _ _ alike => ⟨rfl, alike.setKind new nofun⟩) fun _ => ?_
        split
        · exact .report (by simp)
        · exact .pure _
      · exact .pure _
    | _ => exact .report (by simp)

theorem parallel_collectFunction (head : FunctionHead) (hasBody : Bool)
    (own : p.Owns head.outerNodes) :
    Parallel p depth (collectFunction p.file head hasBody)
      (collectFunction p.file head hasBody) := by
  obtain ⟨params, returns⟩ := Starts.owns_append.1 own
  rw [collectFunction_eq]
  refine (parallel_collectParams head.params params).bind fun params => ?_
  refine (parallel_resolveOptional head.returns? returns).bind fun returns => ?_
  cases head.name? with
  | none => exact .pure _
  | some name => exact parallel_defineFunction inside name params returns hasBody

omit inside in
theorem parallel_inFunction (head : FunctionHead) {x : Check PUnit}
    (h : Parallel p (depth + 1) x x) :
    Parallel p depth (inFunction p.file head x) (inFunction p.file head x) := by
  refine (parallel_recordedParams _ _ fun q _ => p.known_file q.span).bind fun params => ?_
  refine (parallel_recordedReturns _ _ fun t _ => p.known_file t.span).bind fun returns => ?_
  refine .inScope _ ?_
  refine (Parallel.setReturnType (Nat.succ_pos depth) _).bind fun _ => ?_
  exact (parallel_bindParams (Nat.succ_pos depth) _ _).bind fun _ => h

theorem parallel_inBranch (branch : Statement) {x : Check PUnit}
    (h : ∀ deeper, 0 < deeper → Parallel p deeper x x) :
    Parallel p depth (inBranch branch x) (inBranch branch x) := by
  rw [inBranch.eq_def]
  split
  · exact h depth inside
  · exact .inScope _ (h (depth + 1) (Nat.succ_pos depth))

end Check

section

variable (inside : 0 < depth)
include inside

theorem Declarator.parallel_check (keyword : VariableKeyword) (d : Declarator)
    (own : p.Owns [.declarator d]) :
    Parallel p depth (d.check p.file keyword) (d.check p.file keyword) := by
  obtain ⟨here, inner⟩ := Starts.owns_singleton.1 own
  obtain ⟨type, initializer⟩ := Starts.owns_append.1 inner
  have known (type : Ty) : Parallel p depth (do
      record p.file d.span type
      Check.bind p.file d.name type (some keyword)) (do
      record p.file d.span type
      Check.bind p.file d.name type (some keyword)) :=
    (Parallel.record here type).bind fun _ => parallel_bind inside _ _ _
  refine Parallel.bind (.optionMapM fun t some => ?_) fun written? => ?_
  · rw [Option.mem_def.1 some] at type
    exact parallel_resolveType t (Starts.owns_singleton.1 type).1
  · refine Parallel.bind (.optionMapM fun e some => ?_) fun inferred? => ?_
    · rw [Option.mem_def.1 some] at initializer
      exact e.parallel_check (.value _) initializer
    · split
      · exact (Parallel.report (by simp)).bind fun _ => known _
      · exact known _

theorem VariableList.parallel_check (list : VariableList) (own : p.Owns list.outerNodes) :
    Parallel p depth (list.check p.file) (list.check p.file) := by
  refine .forM fun d mem => d.parallel_check inside list.keyword ?_
  have node : Node.declarator d ∈ list.outerNodes := List.mem_map.2 ⟨d, mem, rfl⟩
  exact fun n isIn => own n (List.mem_flatMap.2 ⟨_, node, by simpa using isIn⟩)

theorem LoopStart.parallel_check (start : LoopStart) (own : p.Owns start.outerNodes) :
    Parallel p depth (start.check p.file) (start.check p.file) := by
  cases start with
  | nothing => exact .pure _
  | «variables» _ list => exact list.parallel_check inside own
  | expression value => exact parallel_checkValue value own

omit inside in
theorem Check.parallel_optionCheckValue (e? : Option Expr) (own : p.Owns (Node.ofExpr? e?)) :
    Parallel p depth (e?.forM (checkValue p.file)) (e?.forM (checkValue p.file)) := by
  cases e? with
  | none => exact .pure _
  | some e => exact parallel_checkValue e own

theorem LoopClauses.parallel_check (clauses : LoopClauses) (own : p.Owns clauses.outerNodes) :
    Parallel p depth (clauses.check p.file) (clauses.check p.file) := by
  obtain ⟨start, others⟩ := Starts.owns_append.1 own
  obtain ⟨condition, step⟩ := Starts.owns_append.1 others
  refine (clauses.start.parallel_check inside start).bind fun _ => ?_
  refine (parallel_optionCheckValue _ condition).bind fun _ => ?_
  exact parallel_optionCheckValue _ step

end

mutual

theorem Statement.parallel_check {depth : Nat} (inside : 0 < depth) (s : Statement)
    (own : p.Owns s.outerNodes) :
    Parallel p depth (s.check p.file) (s.check p.file) := by
  match s with
  | .function _ head _ body =>
    rw [Statement.check]
    rw [Statement.outerNodes] at own
    obtain ⟨first, others⟩ := Starts.owns_append.1 own
    refine (parallel_collectFunction inside head true first).bind fun _ => ?_
    exact parallel_inFunction head (Statement.parallel_checkAll (Nat.succ_pos depth) body others)
  | .overload _ head =>
    rw [Statement.check]
    rw [Statement.outerNodes] at own
    refine (parallel_collectFunction inside head false own).bind fun _ => ?_
    exact parallel_inFunction head (.pure _)
  | .importing .. | .interface .. | .typeAlias .. =>
    rw [Statement.check]
    exact .report (by simp)
  | .block _ body =>
    rw [Statement.check]
    rw [Statement.outerNodes] at own
    exact .inScope _ (Statement.parallel_checkAll (Nat.succ_pos depth) body own)
  | .expression _ value =>
    rw [Statement.check]
    rw [Statement.outerNodes] at own
    exact parallel_checkValue value own
  | .forLoop _ clauses body =>
    rw [Statement.check]
    rw [Statement.outerNodes] at own
    obtain ⟨first, others⟩ := Starts.owns_append.1 own
    have deeper := Nat.succ_pos depth
    refine .inScope _ ((clauses.parallel_check deeper first).bind fun _ => ?_)
    exact parallel_inBranch deeper body fun _ deep => Statement.parallel_check deep body others
  | .returning span value? =>
    rw [Statement.check]
    rw [Statement.outerNodes] at own
    have value (expected? : Option Ty) : Parallel p depth
        (value?.forM fun value => discard (value.check p.file (.value expected?)))
        (value?.forM fun value => discard (value.check p.file (.value expected?))) := by
      cases value? with
      | none => exact .pure _
      | some e => exact (e.parallel_check (.value _) own).discard
    refine Parallel.read fun s t alike => ?_
    rw [alike.symbols.returnType?_eq]
    dsimp only
    split
    · exact (Parallel.report (by simp)).bind fun _ => value _
    · exact value _
  | .«variables» _ list =>
    rw [Statement.check]
    rw [Statement.outerNodes] at own
    exact list.parallel_check inside own
  | .ifThen _ condition thenBranch =>
    rw [Statement.check]
    rw [Statement.outerNodes] at own
    obtain ⟨first, others⟩ := Starts.owns_cons.1 own
    refine (parallel_checkValue condition first).bind fun _ => ?_
    exact parallel_inBranch inside thenBranch fun _ deep =>
      Statement.parallel_check deep thenBranch others
  | .ifElse _ condition thenBranch elseBranch =>
    rw [Statement.check]
    rw [Statement.outerNodes] at own
    obtain ⟨first, others⟩ := Starts.owns_cons.1 own
    obtain ⟨second, third⟩ := Starts.owns_append.1 others
    refine (parallel_checkValue condition first).bind fun _ => ?_
    refine (parallel_inBranch inside thenBranch fun _ deep =>
      Statement.parallel_check deep thenBranch second).bind fun _ => ?_
    exact parallel_inBranch inside elseBranch fun _ deep =>
      Statement.parallel_check deep elseBranch third
  | .whileLoop _ condition body =>
    rw [Statement.check]
    rw [Statement.outerNodes] at own
    obtain ⟨first, others⟩ := Starts.owns_cons.1 own
    refine (parallel_checkValue condition first).bind fun _ => ?_
    exact parallel_inBranch inside body fun _ deep => Statement.parallel_check deep body others
  | .doLoop _ body condition =>
    rw [Statement.check]
    rw [Statement.outerNodes] at own
    obtain ⟨first, others⟩ := Starts.owns_append.1 own
    refine (parallel_inBranch inside body fun _ deep =>
      Statement.parallel_check deep body first).bind fun _ => ?_
    exact parallel_checkValue condition others
  | .empty _ =>
    rw [Statement.check]
    exact .pure _

theorem Statement.parallel_checkAll {depth : Nat} (inside : 0 < depth) (statements : List Statement)
    (own : p.Owns (Statement.allOuterNodes statements)) :
    Parallel p depth (Statement.checkAll p.file statements)
      (Statement.checkAll p.file statements) := by
  match statements with
  | [] =>
    rw [Statement.checkAll]
    exact .pure _
  | s :: rest =>
    rw [Statement.checkAll]
    rw [Statement.allOuterNodes] at own
    obtain ⟨first, others⟩ := Starts.owns_append.1 own
    exact (Statement.parallel_check inside s first).bind fun _ =>
      Statement.parallel_checkAll inside rest others

end

/-- The types of what the functions of a program show are the same in both states. -/
def Starts.KnowsSignatures (p : Starts) (g : ModuleGraph) : Prop :=
  ∀ m ∈ g.modules, ∀ s ∈ m.program, ∀ n ∈ s.signature, p.known m.id n.span

namespace Check

variable {g : ModuleGraph} {m : Module}

theorem parallel_bindImported (inside : 0 < depth) (name : Name) (hasBody : Bool)
    {head : FunctionHead} (known : ∀ n ∈ head.outerNodes, p.known m.id n.span) :
    Parallel p depth (bindImported p.file name m.id head hasBody)
      (bindImported p.file name m.id head hasBody) := by
  obtain ⟨params, returns⟩ := List.forall_mem_append.1 known
  refine (parallel_recordedParams _ _ fun q mem => ?_).bind fun _ => ?_
  · exact params (.param q) (List.mem_map_of_mem mem)
  · refine (parallel_recordedReturns _ _ fun t some => ?_).bind fun _ => .define inside _ _ nofun
    exact returns (.writtenType t) (by simp [Node.ofType?, Option.mem_def.1 some])

theorem parallel_checkImportedName (inside : 0 < depth) (knows : p.KnowsSignatures g)
    (hm : m ∈ g.modules) (specifier : String) (entry : ImportedName) :
    Parallel p depth (checkImportedName p.file specifier m entry)
      (checkImportedName p.file specifier m entry) := by
  rw [checkImportedName]
  split
  next head hasBody exported =>
    obtain ⟨s, hs, shown⟩ := List.exists_of_findSome?_eq_some exported
    have function := Statement.function?_of_export? shown
    refine parallel_bindImported inside _ _ ?_
    rw [← Statement.signature_of_function? function]
    exact knows m hm s hs
  · split
    · refine Parallel.kind?_bind fun kind? known => ?_
      split
      next kind => exact .define inside _ _ fun written same => known written (congrArg some same)
      · exact .pure _
    · exact .pure _
  · exact .report (by simp)

theorem parallel_checkImport (inside : 0 < depth) (knows : p.KnowsSignatures g)
    (decl : ImportDecl) :
    Parallel p depth (checkImport g p.file decl) (checkImport g p.file decl) := by
  rw [checkImport]
  split
  · exact .report (by simp)
  next m resolved =>
    have hm := ModuleGraph.mem_of_resolveImport resolved
    refine (Parallel.optionForM fun _ _ => .report (by simp)).bind fun _ => ?_
    refine (Parallel.optionForM fun name _ => ?_).bind fun _ => ?_
    · split
      next head hasBody exported =>
        obtain ⟨s, hs, shown⟩ := List.exists_of_findSome?_eq_some exported
        have function := Statement.function?_of_defaultExport? shown
        refine parallel_bindImported inside _ _ ?_
        rw [← Statement.signature_of_function? function]
        exact knows m hm s hs
      · exact .report (by simp)
    · exact .forM fun entry _ => parallel_checkImportedName inside knows hm _ entry

theorem parallel_checkTopLevel (inside : 0 < depth) (knows : p.KnowsSignatures g) (s : Statement)
    (own : p.Owns s.checkedNodes) :
    Parallel p depth (checkTopLevel g p.file s) (checkTopLevel g p.file s) := by
  match s with
  | .function _ head _ body =>
    exact parallel_inFunction head (Statement.parallel_checkAll (Nat.succ_pos depth) body own)
  | .overload _ head => exact parallel_inFunction head (.pure _)
  | .importing _ decl => exact parallel_checkImport inside knows decl
  | .interface .. | .typeAlias .. => exact .pure _
  | .block .. | .expression .. | .forLoop .. | .returning .. | .«variables» .. | .ifThen ..
  | .ifElse .. | .whileLoop .. | .doLoop .. | .empty .. =>
    exact Statement.parallel_check inside _ own

/-- A module is checked in the same way from both states. -/
theorem parallel_checkModule (knows : p.KnowsSignatures g) (m : Module) (file : p.file = m.id)
    (own : ∀ n ∈ m.program.checkedNodes, p.own n.span) :
    Parallel p depth (checkModule g m) (checkModule g m) := by
  rw [checkModule, ← file]
  refine .inScope _ (.forM fun s mem => parallel_checkTopLevel (Nat.succ_pos depth) knows s ?_)
  exact fun n isIn => own n (List.mem_flatMap.2 ⟨s, mem, isIn⟩)

end Check

end ScriptToGo
