import ScriptToGo.Proofs.Check.Recorded
import ScriptToGo.Proofs.Emission.Refusals

/-! The part of the language that is written in Go, and that all else is refused. -/
namespace ScriptToGo

theorem bind_ne_missing {α β : Type} {x : Except TypeNameError α}
    {f : α → Except TypeNameError β} (h : x ≠ .error .missing)
    (next : ∀ a, f a ≠ .error .missing) : x >>= f ≠ .error .missing := by
  cases x with
  | error e => exact fun same => h (congrArg _ (Except.error.inj same))
  | ok a => exact next a

mutual

/-- What keeps a type from having a Go name is the type, not that it is missing. -/
theorem Ty.goName_ne_missing (type : Ty) : type.goName ≠ .error .missing := by
  match type with
  | .number | .numberLit _ | .stringLit _ | .any | .unknown | .object [] | .string | .boolean
  | .booleanLit _ | .void | .null | .reference .. =>
    rw [goName]
    all_goals simp
  | .array element =>
    rw [goName]
    exact bind_ne_missing (Ty.goName_ne_missing element) fun _ => nofun
  | .«alias» name target =>
    rw [goName]
    split
    · exact Ty.goName_ne_missing target
    · nofun
  | .object (.mk name type :: rest) =>
    rw [goName]
    refine bind_ne_missing (Ty.goName_ne_missing type) fun _ => ?_
    exact bind_ne_missing (Ty.goFields_ne_missing rest) fun _ => nofun
  | .function params returns =>
    rw [goName]
    refine bind_ne_missing (Ty.goParams_ne_missing params) fun _ => ?_
    exact bind_ne_missing (Ty.goName_ne_missing returns) fun _ => nofun

theorem Ty.goFields_ne_missing (fields : List Field) : goFields fields ≠ .error .missing := by
  match fields with
  | [] =>
    rw [goFields]
    nofun
  | .mk name type :: rest =>
    rw [goFields]
    refine bind_ne_missing (Ty.goName_ne_missing type) fun _ => ?_
    exact bind_ne_missing (Ty.goFields_ne_missing rest) fun _ => nofun

theorem Ty.goParams_ne_missing (params : List Field) : goParams params ≠ .error .missing := by
  match params with
  | [] =>
    rw [goParams]
    nofun
  | .mk _ type :: rest =>
    rw [goParams]
    refine bind_ne_missing (Ty.goName_ne_missing type) fun _ => ?_
    exact bind_ne_missing (Ty.goParams_ne_missing rest) fun _ => nofun

end

/-- A name that Go can spell. -/
def IsPlain (name : String) : Prop := '$' ∉ name.toList

/-- The type of a part of a module has a Go name. -/
def View.HasGoType (v : View) (span : Span) : Prop :=
  ∃ name, v.types.goNameAt v.module.id span = .ok name

mutual

/-- An expression that is written in Go. -/
def Expr.Supported (v : View) : Expr → Prop
  | .array span elements => v.HasGoType span ∧ Expr.AllSupported v elements
  | .binary _ left op _ right => op.isWritten = true ∧ left.Supported v ∧ right.Supported v
  | .call _ callee args => callee.Supported v ∧ Expr.AllSupported v args
  | .index _ object index => object.Supported v ∧ index.Supported v
  | .ident _ name => IsPlain name
  | .object span properties => v.HasGoType span ∧ Property.AllSupported v properties
  | .paren _ inner => inner.Supported v
  | .leading _ op _ operand => op ≠ .plus ∧ operand.Supported v
  | .trailing _ operand _ _ => operand.Supported v
  | .member _ object property => IsPlain property.text ∧ object.Supported v
  | .template _ _ holes => TemplateHole.AllSupported v holes
  | .number .. | .string .. | .boolean .. => True
  | .cast .. | .conditional .. | .null .. => False

def Expr.AllSupported (v : View) : List Expr → Prop
  | [] => True
  | e :: rest => e.Supported v ∧ Expr.AllSupported v rest

/-- Properties of an object literal that are written in Go, which has no spread. -/
def Property.AllSupported (v : View) : List Property → Prop
  | [] => True
  | .assign _ name value :: rest =>
    IsPlain name.text ∧ value.Supported v ∧ Property.AllSupported v rest
  | .shorthand _ name :: rest => IsPlain name.text ∧ Property.AllSupported v rest
  | .spread .. :: _ => False

def TemplateHole.AllSupported (v : View) : List TemplateHole → Prop
  | [] => True
  | .mk value _ :: rest => value.Supported v ∧ TemplateHole.AllSupported v rest

end

/-- A declared variable that is written in Go. Its type is written if it has no initializer, and if
it is a number. -/
structure Declarator.Supported (v : View) (d : Declarator) : Prop where
  name : IsPlain d.name.text
  type : d.initializer? = none ∨ v.isNumber d.span = true → v.HasGoType d.span
  initializer : ∀ value ∈ d.initializer?, value.Supported v

/-- What a loop does before its first round is written in Go unless it declares several variables,
or none. -/
def LoopStart.Supported (v : View) : LoopStart → Prop
  | .nothing => True
  | .expression value => value.Supported v
  | .«variables» _ list => ∃ d, list.declarators = [d] ∧ d.Supported v

structure LoopClauses.Supported (v : View) (clauses : LoopClauses) : Prop where
  start : clauses.start.Supported v
  condition : ∀ e ∈ clauses.condition?, e.Supported v
  step : ∀ e ∈ clauses.step?, e.Supported v

mutual

/-- A statement inside of a function that is written in Go. -/
def Statement.Supported (v : View) : Statement → Prop
  | .block _ body => Statement.AllSupported v body
  | .expression _ value => value.Supported v
  | .forLoop _ clauses body => clauses.Supported v ∧ body.Supported v
  | .returning _ value? => ∀ value ∈ value?, value.Supported v
  | .«variables» _ list => ∀ d ∈ list.declarators, d.Supported v
  | .function .. | .overload .. | .importing .. | .interface .. | .typeAlias .. | .ifThen ..
  | .ifElse .. | .whileLoop .. | .doLoop .. | .empty .. => False

def Statement.AllSupported (v : View) : List Statement → Prop
  | [] => True
  | s :: rest => s.Supported v ∧ Statement.AllSupported v rest

end

/-- A function whose head is written in Go: it has a name and says what it returns, and the types of
its parameters and of its result have Go names. -/
structure FunctionHead.Supported (v : View) (head : FunctionHead) : Prop where
  name : ∃ name, head.name? = some name ∧ IsPlain name.text
  params : ∀ p ∈ head.params, IsPlain p.name.text ∧ v.HasGoType p.span
  returns : ∃ type, head.returns? = some type ∧ v.HasGoType type.span

/-- A function with a body that is written in Go. -/
def Statement.IsSupportedFunction (v : View) : Statement → Prop
  | .function _ head _ body => head.Supported v ∧ Statement.AllSupported v body
  | _ => False

/-- An operator behind its operand is one that the grammar allows there. -/
def Node.TrailsUpdate : Node → Prop
  | .expression (.trailing _ _ op _) => op.isUpdate = true
  | _ => True

/-- Writing is refused because no type is recorded for a part. -/
def Failure.IsUntyped (failure : Failure) : Prop :=
  ∃ location what, failure = .refused ⟨location, .unmet (.typeName what .missing)⟩

/-- Writing a part succeeds just when the part is supported, and fails for want of a type only if
one of the nodes in it has none. -/
structure Decides (v : View) (nodes : List Node) (supported : Prop) {α : Type}
    (x : Except Failure α) : Prop where
  isOk : (∀ n ∈ nodes, n.TrailsUpdate) → ((∃ a, x = .ok a) ↔ supported)
  typed : (∀ n ∈ nodes, n.IsTyped v.types v.module.id) → ∀ failure, x = .error failure →
    ¬failure.IsUntyped

namespace Decides

variable {v : View} {nodes more first second : List Node} {P Q : Prop} {α β : Type}
  {x y : Except Failure α} {f : α → Except Failure β}

theorem ok (a : α) : Decides v nodes True (.ok a) where
  isOk _ := iff_true_intro ⟨a, rfl⟩
  typed _ := nofun

theorem congr (h : Decides v nodes P x) (same : P ↔ Q) : Decides v nodes Q x :=
  ⟨fun trails => (h.isOk trails).trans same, h.typed⟩

theorem of_subset (h : Decides v nodes P x) (sub : nodes ⊆ more) : Decides v more P x where
  isOk trails := h.isOk fun n mem => trails n (sub mem)
  typed typed := h.typed fun n mem => typed n (sub mem)

theorem bind (before : Decides v first P x) (after : ∀ a, Decides v second Q (f a)) :
    Decides v (first ++ second) (P ∧ Q) (x >>= f) := by
  cases x with
  | error failure =>
    refine ⟨fun trails => ?_, fun typed other same => ?_⟩
    · have unsupported : ¬P := fun supported =>
        nomatch (before.isOk (List.forall_mem_append.1 trails).1).2 supported
      exact iff_of_false nofun fun both => unsupported both.1
    · cases same
      exact before.typed (List.forall_mem_append.1 typed).1 failure rfl
  | ok a =>
    refine ⟨fun trails => ?_, fun typed => (after a).typed (List.forall_mem_append.1 typed).2⟩
    obtain ⟨here, later⟩ := List.forall_mem_append.1 trails
    rw [and_iff_right ((before.isOk here).1 ⟨a, rfl⟩)]
    exact (after a).isOk later

/-- Putting together what has been written always succeeds. -/
theorem returns (h : Decides v nodes P x) {g : α → β} :
    Decides v nodes P (x >>= fun a => pure (g a)) := by
  have whole : Decides v (nodes ++ []) (P ∧ True) (x >>= fun a => pure (g a)) :=
    h.bind fun a => ok (g a)
  exact (whole.of_subset (by simp)).congr (and_iff_left trivial)

/-- A refusal fails, and for want of a type only if that is its cause. -/
private theorem exists_refuse (v : View) (span : Span) (cause : RefusalCause) (α : Type) :
    ∃ failure, (v.refuse span cause : Except Failure α) = .error failure ∧
      (failure.IsUntyped → ∃ what, cause = .unmet (.typeName what .missing)) := by
  rw [View.refuse, View.location]
  split
  · refine ⟨_, rfl, ?_⟩
    rintro ⟨location, what, same⟩
    cases same
    exact ⟨what, rfl⟩
  · refine ⟨_, rfl, ?_⟩
    rintro ⟨location, what, same⟩
    cases same

theorem error {failure : Failure} (typed : ¬failure.IsUntyped) :
    Decides v nodes False (.error failure : Except Failure α) where
  isOk _ := iff_of_false nofun id
  typed _ other same := by
    cases same
    exact typed

theorem refuse {span : Span} {cause : RefusalCause}
    (other : ∀ what, cause ≠ .unmet (.typeName what .missing)) :
    Decides v nodes False (v.refuse span cause : Except Failure α) := by
  obtain ⟨failure, eq, untyped⟩ := exists_refuse v span cause α
  rw [eq]
  exact error fun h => (untyped h).elim other

/-- What comes after a refusal does not count. -/
theorem refuseThen {span : Span} {cause : RefusalCause}
    (other : ∀ what, cause ≠ .unmet (.typeName what .missing)) :
    Decides v nodes False (v.refuse span cause >>= f) := by
  obtain ⟨failure, eq, untyped⟩ := exists_refuse v span cause α
  rw [eq]
  exact error fun h => (untyped h).elim other

/-- Nothing is said about an operator behind its operand that the grammar does not allow there. -/
theorem excluded (h : Decides v nodes False x) (other : ¬∀ n ∈ nodes, n.TrailsUpdate) :
    Decides v nodes P x :=
  ⟨fun trails => (other trails).elim, h.typed⟩

theorem plainName (name : String) (span : Span) :
    Decides v [] (IsPlain name) (v.plainName name span) := by
  rw [View.plainName]
  split
  next dollar => exact .congr (refuse (by simp)) (by simpa [IsPlain] using dollar)
  next plain => exact (ok name).congr (by simpa [IsPlain] using plain)

theorem plainlyNamed {name : String} {span : Span} {f : String → Except Failure β}
    (h : ∀ name, Decides v nodes P (f name)) :
    Decides v nodes (IsPlain name ∧ P) (v.plainName name span >>= f) :=
  (plainName name span).bind h

theorem typeName (n : Node) (what : String) :
    Decides v [n] (v.HasGoType n.span) (v.typeName n.span what) := by
  rw [View.typeName]
  split
  next name found => exact (ok name).congr (iff_of_true trivial ⟨name, found⟩)
  next e found =>
    obtain ⟨failure, eq, untyped⟩ := exists_refuse v n.span (.unmet (.typeName what e)) String
    have unnamed : ¬v.HasGoType n.span := by
      rintro ⟨name, named⟩
      rw [found] at named
      cases named
    rw [eq]
    refine ⟨fun _ => iff_of_false (by simp) unnamed, fun typed other same missing => ?_⟩
    cases same
    obtain ⟨what, cause⟩ := untyped missing
    obtain ⟨type, known⟩ := typed n List.mem_cons_self
    cases cause
    rw [TypeTable.goNameAt, known] at found
    exact type.goName_ne_missing found

theorem mapM {list : List α} {nodesOf : α → List Node} {P : α → Prop}
    (each : ∀ a, Decides v (nodesOf a) (P a) (f a)) :
    Decides v (list.flatMap nodesOf) (∀ a ∈ list, P a) (list.mapM f) := by
  induction list with
  | nil => exact (ok []).congr (by simp)
  | cons a rest ih =>
    rw [List.mapM_cons, List.flatMap_cons]
    exact ((each a).bind fun first => ih.returns).congr List.forall_mem_cons.symm

/-- What is decided by the nodes inside of a node. -/
theorem inside {n : Node} (h : Decides v (n.inner.flatMap Node.all) P x) :
    Decides v n.all P x := by
  rw [Node.all_eq]
  exact h.of_subset (List.subset_cons_self _ _)

/-- What is decided by a node that needs a type, and by the nodes inside of it. -/
theorem named {n : Node} {what : String} {f : String → Except Failure β}
    (h : ∀ name, Decides v (n.inner.flatMap Node.all) P (f name)) :
    Decides v n.all (v.HasGoType n.span ∧ P) (v.typeName n.span what >>= f) := by
  rw [Node.all_eq]
  exact (typeName n what).bind h

end Decides

section

variable (v : View)

mutual

theorem Expr.decides (e : Expr) : Decides v (Node.expression e).all (e.Supported v) (e.toGo v) := by
  match e with
  | .array span elements =>
    rw [Expr.toGo, Expr.Supported]
    exact .named (n := .expression (.array span elements)) fun type =>
      (Expr.allDecide elements).returns
  | .binary span left op opSpan right =>
    rw [Expr.toGo, Expr.Supported]
    refine .inside ?_
    simp only [Node.inner, Expr.inner, List.flatMap_cons, List.flatMap_nil, List.append_nil]
    split
    next written =>
      rw [and_iff_right written]
      exact (Expr.decides left).bind fun first => (Expr.decides right).returns
    next unwritten => exact .congr (.refuseThen (by simp)) (by simp [unwritten])
  | .call span callee args =>
    rw [Expr.toGo, Expr.Supported]
    refine .inside ?_
    simp only [Node.inner, Expr.inner, List.flatMap_cons]
    exact (Expr.decides callee).bind fun function => (Expr.allDecide args).returns
  | .index span object index =>
    rw [Expr.toGo, Expr.Supported]
    refine .inside ?_
    simp only [Node.inner, Expr.inner, List.flatMap_cons, List.flatMap_nil, List.append_nil]
    exact (Expr.decides object).bind fun first => (Expr.decides index).returns
  | .ident span name =>
    rw [Expr.toGo, Expr.Supported]
    exact .inside (Decides.plainName name span).returns
  | .object span properties =>
    rw [Expr.toGo, Expr.Supported]
    exact .named (n := .expression (.object span properties)) fun type =>
      (Property.allDecide properties).returns
  | .paren span inner =>
    rw [Expr.toGo, Expr.Supported]
    refine .inside ?_
    simp only [Node.inner, Expr.inner, List.flatMap_singleton]
    exact (Expr.decides inner).returns
  | .leading span op opSpan operand =>
    rw [Expr.toGo, Expr.Supported]
    refine .inside ?_
    simp only [Node.inner, Expr.inner, List.flatMap_singleton]
    split
    next plus => exact .congr (.refuseThen (by simp)) (by simp [plus])
    next other =>
      rw [and_iff_right other]
      exact (Expr.decides operand).returns
  | .trailing span operand op opSpan =>
    rw [Expr.toGo, Expr.Supported]
    split
    · refine .inside ?_
      simp only [Node.inner, Expr.inner, List.flatMap_singleton]
      exact (Expr.decides operand).returns
    next other =>
      have here : .expression (.trailing span operand op opSpan) ∈
          (Node.expression (.trailing span operand op opSpan)).all := by
        rw [Node.all_eq]
        exact List.mem_cons_self
      exact .excluded (.refuseThen (by simp)) fun trails => other (trails _ here)
  | .member span object property =>
    rw [Expr.toGo, Expr.Supported]
    refine .inside ?_
    simp only [Node.inner, Expr.inner, List.flatMap_singleton]
    split
    next length =>
      have plain : IsPlain property.text := by
        rw [Bool.and_eq_true, beq_iff_eq] at length
        rw [length.1, IsPlain]
        decide
      rw [and_iff_right plain]
      exact (Expr.decides object).returns
    · exact (Decides.plainName property.text property.span).bind fun name =>
        (Expr.decides object).returns
  | .template span head holes =>
    rw [Expr.toGo, Expr.Supported]
    exact .inside (TemplateHole.allDecide holes).returns
  | .cast .. | .conditional .. | .null .. =>
    rw [Expr.toGo, Expr.Supported]
    exact .refuse (by simp)
  | .number .. | .string .. | .boolean .. =>
    rw [Expr.toGo, Expr.Supported]
    exact .ok _

theorem Expr.allDecide (elements : List Expr) :
    Decides v ((elements.map Node.expression).flatMap Node.all) (Expr.AllSupported v elements)
      (Expr.allToGo v elements) := by
  match elements with
  | [] =>
    rw [Expr.allToGo, Expr.AllSupported]
    exact .ok []
  | e :: rest =>
    rw [Expr.allToGo, Expr.AllSupported, List.map_cons, List.flatMap_cons]
    exact (Expr.decides e).bind fun first => (Expr.allDecide rest).returns

theorem Property.allDecide (properties : List Property) :
    Decides v ((properties.map Property.node).flatMap Node.all) (Property.AllSupported v properties)
      (Property.allToGo v properties) := by
  match properties with
  | [] =>
    rw [Property.allToGo, Property.AllSupported]
    exact .ok []
  | .assign span name value :: rest =>
    rw [Property.allToGo, Property.AllSupported, List.map_cons, List.flatMap_cons]
    refine (Decides.plainName name.text name.span).bind fun field => ?_
    exact (Expr.decides value).bind fun code => (Property.allDecide rest).returns
  | .shorthand span name :: rest =>
    rw [Property.allToGo, Property.AllSupported, List.map_cons, List.flatMap_cons]
    refine ((Decides.plainName name.text name.span).bind fun field =>
      (Property.allDecide rest).returns).of_subset ?_
    exact List.subset_append_right _ _
  | .spread span value :: rest =>
    rw [Property.allToGo, Property.AllSupported]
    exact .refuse (by simp)

theorem TemplateHole.allDecide (holes : List TemplateHole) :
    Decides v ((holes.map fun hole => Node.expression hole.value).flatMap Node.all)
      (TemplateHole.AllSupported v holes) (TemplateHole.allToGo v holes) := by
  match holes with
  | [] =>
    rw [TemplateHole.allToGo, TemplateHole.AllSupported]
    exact .ok []
  | .mk value after :: rest =>
    rw [TemplateHole.allToGo, TemplateHole.AllSupported, List.map_cons, List.flatMap_cons]
    exact (Expr.decides value).bind fun first => (TemplateHole.allDecide rest).returns

end

theorem Declarator.decides (d : Declarator) :
    Decides v (Node.declarator d).all (d.Supported v) (d.toGo v) := by
  obtain ⟨span, name, type?, initializer?⟩ := d
  rw [Declarator.toGo]
  cases initializer? with
  | none =>
    refine .congr (.plainlyNamed fun goName =>
      .named (n := .declarator ⟨span, name, type?, none⟩) fun type => .ok _) ?_
    exact ⟨fun h => ⟨h.1, fun _ => h.2.1, by simp⟩, fun h => ⟨h.name, h.type (.inl rfl), trivial⟩⟩
  | some value =>
    let d : Declarator := ⟨span, name, type?, some value⟩
    have inner : Decides v ((Node.declarator d).inner.flatMap Node.all) (value.Supported v)
        (value.toGo v) :=
      (value.decides v).of_subset (by simp [d, Node.inner, Node.ofExpr?])
    by_cases number : v.isNumber span = true
    · simp only [number, ↓reduceIte]
      refine .congr (.plainlyNamed fun goName =>
        .named (n := .declarator d) fun type => inner.returns) ?_
      exact ⟨fun h => ⟨h.1, fun _ => h.2.1, by simpa using h.2.2⟩,
        fun h => ⟨h.name, h.type (.inr number), h.initializer value rfl⟩⟩
    · simp only [number, Bool.false_eq_true, ↓reduceIte]
      refine .congr (.plainlyNamed fun goName => .inside (n := .declarator d) inner.returns) ?_
      exact ⟨fun h => ⟨h.1, by simp [number], by simpa using h.2⟩,
        fun h => ⟨h.name, h.initializer value rfl⟩⟩

theorem LoopStart.decides (start : LoopStart) :
    Decides v (start.outerNodes.flatMap Node.all) (start.Supported v) (start.toGo v) := by
  cases start with
  | nothing => exact .ok _
  | expression value =>
    rw [LoopStart.outerNodes, List.flatMap_singleton]
    exact value.decides v
  | «variables» span list =>
    rw [LoopStart.toGo, LoopStart.outerNodes, VariableList.outerNodes]
    split
    next d one =>
      rw [one, List.map_singleton, List.flatMap_singleton]
      refine (d.decides v).congr ⟨fun h => ⟨d, one, h⟩, ?_⟩
      rintro ⟨other, same, h⟩
      obtain rfl : d = other := by simpa [one] using same
      exact h
    next several =>
      refine .congr (.refuse (by simp)) (iff_of_false id ?_)
      rintro ⟨d, one, _⟩
      exact several d one

theorem decides_clause (clause? : Option Expr) :
    Decides v ((Node.ofExpr? clause?).flatMap Node.all) (∀ e ∈ clause?, e.Supported v)
      (clauseToGo v clause?) := by
  cases clause? with
  | none => exact .congr (.ok _) (iff_of_true trivial nofun)
  | some e =>
    rw [Node.ofExpr?_eq_flatMap, Option.toList_some, List.flatMap_singleton]
    exact (e.decides v).congr (by simp)

theorem LoopClauses.decides (clauses : LoopClauses) :
    Decides v (clauses.outerNodes.flatMap Node.all) (clauses.Supported v) (clauses.toGo v) := by
  rw [LoopClauses.toGo, LoopClauses.outerNodes, List.flatMap_append, List.flatMap_append]
  have parts := (clauses.start.decides v).bind fun start =>
    (decides_clause v clauses.condition?).bind fun condition =>
      (decides_clause v clauses.step?).returns (g := fun step =>
        "for " ++ start ++ "; " ++ condition ++ "; " ++ step ++ " ")
  exact parts.congr ⟨fun h => ⟨h.1, h.2.1, h.2.2⟩, fun h => ⟨h.start, h.condition, h.step⟩⟩

mutual

theorem Statement.decides (s : Statement) :
    Decides v (s.outerNodes.flatMap Node.all) (s.Supported v) (s.toGo v) := by
  match s with
  | .block span body =>
    rw [Statement.toGo, Statement.Supported, Statement.outerNodes]
    exact (Statement.allDecide body).returns
  | .expression span value =>
    rw [Statement.toGo, Statement.Supported, Statement.outerNodes, List.flatMap_singleton]
    exact (value.decides v).returns
  | .forLoop span clauses body =>
    rw [Statement.Supported, Statement.outerNodes, List.flatMap_append]
    have inner := Statement.decides body
    cases body with
    | block inside list =>
      rw [Statement.toGo, Statement.Supported, Statement.outerNodes]
      exact (clauses.decides v).bind fun head => (Statement.allDecide list).returns
    | _ =>
      rw [Statement.toGo]
      · exact (clauses.decides v).bind fun head => inner.returns
      · simp
  | .returning span value? =>
    rw [Statement.Supported, Statement.outerNodes]
    cases value? with
    | none =>
      rw [Statement.toGo]
      exact .congr (.ok _) (iff_of_true trivial nofun)
    | some value =>
      rw [Statement.toGo]
      exact (decides_clause v (some value)).returns
  | .«variables» span list =>
    rw [Statement.toGo, Statement.Supported, Statement.outerNodes, VariableList.outerNodes,
      List.flatMap_map]
    exact .mapM fun d => (d.decides v).returns
  | .function .. | .overload .. | .importing .. | .interface .. | .typeAlias .. | .ifThen ..
  | .ifElse .. | .whileLoop .. | .doLoop .. | .empty .. =>
    rw [Statement.toGo, Statement.Supported]
    · exact .refuse (by simp)
    all_goals simp

theorem Statement.allDecide (statements : List Statement) :
    Decides v ((Statement.allOuterNodes statements).flatMap Node.all)
      (Statement.AllSupported v statements) (Statement.allToGo v statements) := by
  match statements with
  | [] =>
    rw [Statement.allToGo, Statement.AllSupported]
    exact .ok []
  | s :: rest =>
    rw [Statement.allToGo, Statement.AllSupported, Statement.allOuterNodes, List.flatMap_append]
    exact (Statement.decides s).bind fun first => (Statement.allDecide rest).returns

end

theorem Param.decides (p : Param) :
    Decides v (Node.param p).all (IsPlain p.name.text ∧ v.HasGoType p.span) (p.toGo v) := by
  rw [Param.toGo]
  refine .congr (.plainlyNamed fun name => .named (n := .param p) fun type => .ok _) ?_
  rw [and_iff_left trivial]
  rfl

theorem FunctionHead.decides (span : Span) (head : FunctionHead) (body : List Statement) :
    Decides v ((head.outerNodes ++ Statement.allOuterNodes body).flatMap Node.all)
      (head.Supported v ∧ Statement.AllSupported v body) (head.toGo v span (some body)) := by
  rw [FunctionHead.toGo, FunctionHead.outerNodes, List.flatMap_append, List.flatMap_append,
    List.append_assoc, List.flatMap_map]
  cases named : head.name? with
  | none =>
    refine .congr (.refuse (by simp)) (iff_of_false id ?_)
    rintro ⟨⟨⟨name, some, _⟩, _, _⟩, _⟩
    cases named.symm.trans some
  | some name =>
    cases declared : head.returns? with
    | none =>
      refine .congr (.plainlyNamed fun goName => .refuse (by simp)) (iff_of_false And.right ?_)
      rintro ⟨⟨_, _, ⟨returns, some, _⟩⟩, _⟩
      cases declared.symm.trans some
    | some returns =>
      have own : (Node.ofType? (some returns)).flatMap Node.all = [.writtenType returns] := by
        rw [Node.ofType?_eq_flatMap, Option.toList_some, List.flatMap_singleton, Node.all_eq]
        rfl
      rw [own]
      refine .congr (.plainlyNamed fun goName =>
        (Decides.mapM fun p => p.decides v).bind fun params =>
          (Decides.typeName (.writtenType returns) _).bind fun result =>
            (Statement.allDecide v body).returns) ?_
      constructor
      · rintro ⟨plain, params, result, statements⟩
        exact ⟨⟨⟨name, named, plain⟩, params, ⟨returns, declared, result⟩⟩, statements⟩
      · rintro ⟨⟨⟨_, same, plain⟩, params, ⟨_, also, result⟩⟩, statements⟩
        obtain rfl := Option.some.inj (named.symm.trans same)
        obtain rfl := Option.some.inj (declared.symm.trans also)
        exact ⟨plain, params, result, statements⟩

theorem FunctionHead.decides_overload (span : Span) (head : FunctionHead) {nodes : List Node} :
    Decides v nodes False (head.toGo v span none) := by
  rw [FunctionHead.toGo]
  split
  · refine .congr (.plainlyNamed (P := False) fun goName => ?_) (iff_of_false And.right id)
    split <;> exact .refuse (by simp)
  · exact .refuse (by simp)

/-- A statement that no other statement holds is written just when it is a supported function. -/
theorem Statement.decidesTopLevel (s : Statement) :
    Decides v (s.outerNodes.flatMap Node.all) (s.IsSupportedFunction v) (s.toGoTopLevel v) := by
  cases s with
  | function span head _ body =>
    rw [Statement.outerNodes]
    exact head.decides v span body
  | overload span head => exact head.decides_overload v span
  | _ => exact .refuse (by simp)

end

end ScriptToGo
