import ScriptToGo.Proofs.Check.Independence
import ScriptToGo.Proofs.Module.TwoFiles

/-! In which order errors are found. Three sweeps go over the modules, and each of them may find
something wrong with all of them. -/
namespace ScriptToGo

/-- Errors are in the order in which their modules were found. -/
def TypeError.InOrder (errors : List TypeError) : Prop :=
  errors.Pairwise fun e later => e.file ≤ later.file

/-- The errors that have been added satisfy some condition. -/
def CheckState.Adds (P : TypeError → Prop) (s t : CheckState) : Prop :=
  ∃ new, t.errors = s.errors ++ new ∧ ∀ e ∈ new, P e

namespace CheckState.Adds

variable {P Q : TypeError → Prop} {s t u : CheckState}

theorem of_errors (same : t.errors = s.errors) : s.Adds P t :=
  ⟨[], by rw [same, List.append_nil], List.forall_mem_nil _⟩

theorem trans (first : s.Adds P t) (second : t.Adds P u) : s.Adds P u := by
  obtain ⟨new, errors, good⟩ := first
  obtain ⟨more, errors', good'⟩ := second
  exact ⟨new ++ more, by rw [errors', errors, List.append_assoc],
    List.forall_mem_append.2 ⟨good, good'⟩⟩

theorem report (s : CheckState) {e : TypeError} (good : P e) : s.Adds P (s.report e) :=
  ⟨[e], rfl, List.forall_mem_singleton.2 good⟩

end CheckState.Adds

/-- Errors that are found with each of some modules, one module after the other. -/
inductive FoundWith (P : FileId → TypeError → Prop) : List Module → List TypeError → Prop
  | nil : FoundWith P [] []
  | cons {m : Module} {rest : List Module} {part errors : List TypeError} (here : ∀ e ∈ part, P m.id e)
    (later : FoundWith P rest errors) : FoundWith P (m :: rest) (part ++ errors)

namespace FoundWith

variable {P : FileId → TypeError → Prop} {modules : List Module} {errors : List TypeError}

/-- An error is found with one of the modules. -/
theorem exists_module (found : FoundWith P modules errors) {e : TypeError} (mem : e ∈ errors) :
    ∃ m ∈ modules, P m.id e := by
  induction found with
  | nil => cases mem
  | cons here _ ih =>
    rcases List.mem_append.1 mem with mem | mem
    · exact ⟨_, List.mem_cons_self, here e mem⟩
    · obtain ⟨m, later, found⟩ := ih mem
      exact ⟨m, List.mem_cons_of_mem _ later, found⟩

/-- If errors are only found in the modules themselves, they are in order. -/
theorem inOrder (found : FoundWith (fun current e => e.file = current) modules errors)
    (ordered : modules.Pairwise (·.id < ·.id)) : TypeError.InOrder errors := by
  induction found with
  | nil => exact .nil
  | cons here later ih =>
    obtain ⟨first, ordered⟩ := List.pairwise_cons.1 ordered
    refine List.pairwise_append.2 ⟨?_, ih ordered, fun e mem e' mem' => ?_⟩
    · exact List.pairwise_of_forall_mem_list fun e mem e' mem' =>
        Nat.le_of_eq ((here e mem).trans (here e' mem').symm)
    · obtain ⟨m, among, own⟩ := later.exists_module mem'
      rw [here e mem, own]
      exact Nat.le_of_lt (first m among)

end FoundWith

namespace ModuleGraph

/-- A module is the given one, or it was found later and declares an alias. -/
def MayFail (g : ModuleGraph) (current file : FileId) : Prop :=
  file = current ∨ current < file ∧
    ∃ m ∈ g.modules, m.id = file ∧ ∃ span decl, .typeAlias span decl ∈ m.program

/-- Aliases that have yet to be looked into are declared in a module or in those found later. -/
def OpenFrom (g : ModuleGraph) (current : FileId) (s : CheckState) : Prop :=
  ∀ id symbol, s.symbols.symbol? id = some symbol → symbol.IsUnfound →
    ∃ m ∈ g.modules, current ≤ m.id ∧
      ∃ span decl, .typeAlias span decl ∈ m.program ∧ CheckState.DeclaredAs symbol m.id decl

end ModuleGraph

namespace Check

open CheckState ModuleGraph

/-- While the declarations of a module are read, errors are found in that module, or in aliases of
modules that were found later. -/
def FailsFrom (g : ModuleGraph) (current : FileId) {α : Type} (work : Check α) : Prop :=
  Keeps (fun s t => g.OpenFrom current s → s.Adds (fun e => g.MayFail current e.file) t) work

variable {g : ModuleGraph} {current file : FileId} {α β : Type}

theorem openFrom_mono {s t : CheckState} (h : g.OpenFrom current s) (stays : s.StaysFound t) :
    g.OpenFrom current t :=
  fun id symbol has unfound => h id symbol (stays id symbol has unfound).1 unfound

namespace FailsFrom

theorem pure (a : α) : FailsFrom g current (Pure.pure a) := fun _ _ => .of_errors rfl

theorem bind {x : Check α} {f : α → Check β} (stays : Keeps StaysFound x)
    (first : FailsFrom g current x) (next : ∀ a, FailsFrom g current (f a)) :
    FailsFrom g current (x >>= f) :=
  fun s opened => (first s opened).trans (next _ _ (openFrom_mono opened (stays s)))

/-- Work that ends with making something of its result. -/
theorem returns {x : Check α} (h : FailsFrom g current x) (f : α → β) :
    FailsFrom g current (x >>= fun a => Pure.pure (f a)) :=
  fun s opened => (h s opened).trans (.of_errors rfl)

theorem report (here : g.MayFail current file) (fault : TypeFault) (span : Span) :
    FailsFrom g current (Check.report file fault span) := fun s _ => .report s here

theorem fault (here : g.MayFail current file) (fault : TypeFault) (span : Span) :
    FailsFrom g current (Check.fault file fault span) := (report here fault span).returns _

theorem recording {find : Check Ty} (h : FailsFrom g current find) (file : FileId) (span : Span) :
    FailsFrom g current (Check.recording file span find) :=
  fun s opened => (h s opened).trans (.of_errors rfl)

end FailsFrom

mutual

theorem failsFrom_typeOf (here : g.MayFail current file) {expand : String → Span → Check Ty}
    (keeps : ∀ name span, Keeps StaysFound (expand name span))
    (expands : ∀ name span, FailsFrom g current (expand name span)) (t : TypeExpr) :
    FailsFrom g current (typeOf file expand t) := by
  have hR := collectRelation_staysFound.toLookupRelation
  match t with
  | .named span name args =>
    rw [typeOf]
    refine .bind (keeps_typesOf hR file keeps args) (failsFrom_typesOf here keeps expands args) ?_
    intro types
    split
    · split
      · exact .pure _
      · exact .fault here _ _
    · refine .bind (keeps_kind? hR name) (fun _ _ => .of_errors rfl) fun kind => ?_
      split
      · split
        · exact (FailsFrom.report here _ _).returns _
        · exact .pure _
      · exact .pure _
      · exact expands name span
      · exact .fault here _ _
      · exact .fault here _ _
  | .array span element =>
    rw [typeOf]
    exact (failsFrom_typeOf here keeps expands element).returns _
  | .object span members =>
    rw [typeOf]
    exact (failsFrom_fieldsOf here keeps expands members).returns _
  | .string .. | .number .. | .boolean .. | .null .. =>
    rw [typeOf]
    exact .pure _

theorem failsFrom_typesOf (here : g.MayFail current file) {expand : String → Span → Check Ty}
    (keeps : ∀ name span, Keeps StaysFound (expand name span))
    (expands : ∀ name span, FailsFrom g current (expand name span)) (types : List TypeExpr) :
    FailsFrom g current (typesOf file expand types) := by
  have hR := collectRelation_staysFound.toLookupRelation
  match types with
  | [] =>
    rw [typesOf]
    exact .pure _
  | t :: rest =>
    rw [typesOf]
    refine .bind (keeps_typeOf hR file keeps t) (failsFrom_typeOf here keeps expands t) fun _ => ?_
    exact (failsFrom_typesOf here keeps expands rest).returns _

theorem failsFrom_fieldsOf (here : g.MayFail current file) {expand : String → Span → Check Ty}
    (keeps : ∀ name span, Keeps StaysFound (expand name span))
    (expands : ∀ name span, FailsFrom g current (expand name span)) (members : List Member) :
    FailsFrom g current (fieldsOf file expand members) := by
  have hR := collectRelation_staysFound.toLookupRelation
  match members with
  | [] =>
    rw [fieldsOf]
    exact .pure _
  | .mk _ name _ t :: rest =>
    rw [fieldsOf]
    refine .bind (keeps_typeOf hR file keeps t) (failsFrom_typeOf here keeps expands t) fun _ => ?_
    exact (failsFrom_fieldsOf here keeps expands rest).returns _

end

/-- An alias that has yet to be looked into is declared in a module where errors may be found. -/
theorem failsFrom_aliasType {file : FileId} (here : g.MayFail current file) (free : List String)
    (name : String) (span : Span) : FailsFrom g current (aliasType free file name span) := by
  have hR := collectRelation_staysFound.toLookupRelation
  rw [aliasType]
  refine keeps_read fun s opened => ?_
  dsimp only
  split
  · exact .of_errors rfl
  next id named =>
    split
    · exact .of_errors rfl
    next written _ file? _ has =>
      obtain ⟨m, hm, le, aliasSpan, decl, inside, declared⟩ := opened id _ has ⟨written, rfl⟩
      obtain rfl : file? = some m.id := declared.file
      split
      next isFree =>
        have shorter := length_without_lt isFree
        have owner : g.MayFail current m.id := by
          rcases Nat.eq_or_lt_of_le le with same | later
          · exact .inl same.symm
          · exact .inr ⟨later, m, hm, rfl, aliasSpan, decl, inside⟩
        have finds : FailsFrom g current
            (typeOf m.id (aliasType (without name free) m.id) written) :=
          failsFrom_typeOf owner (fun _ _ => keeps_aliasType hR _ _ _ _)
            (fun name span => failsFrom_aliasType owner _ name span) written
        exact (finds s opened).trans (.of_errors rfl)
      · exact .report s here
    · exact .of_errors rfl
termination_by free.length

section

variable (here : g.MayFail current file)
include here

theorem failsFrom_resolveType (t : TypeExpr) : FailsFrom g current (resolveType file t) := by
  have hR := collectRelation_staysFound.toLookupRelation
  refine keeps_read fun s => ?_
  exact (failsFrom_typeOf here (fun _ _ => keeps_aliasType hR _ _ _ _)
    (fun name span => failsFrom_aliasType here _ name span) t).recording file t.span s

theorem failsFrom_resolveOptional (t? : Option TypeExpr) :
    FailsFrom g current (resolveOptional file t?) := by
  cases t? with
  | none => exact .pure _
  | some t => exact failsFrom_resolveType here t

theorem failsFrom_collectMembers (members : List Member) :
    FailsFrom g current (collectMembers file members) := by
  have hR := collectRelation_staysFound.toLookupRelation
  induction members with
  | nil => exact .pure _
  | cons m rest ih =>
    refine .bind (keeps_resolveType hR file m.type) (failsFrom_resolveType here m.type) fun _ => ?_
    exact ih.returns _

theorem failsFrom_collectParams (params : List Param) :
    FailsFrom g current (collectParams file params) := by
  have hR := collectRelation_staysFound.toLookupRelation
  induction params with
  | nil => exact .pure _
  | cons p rest ih =>
    refine .bind (keeps_recording hR _ _ (keeps_resolveOptional hR file p.type?))
      ((failsFrom_resolveOptional here p.type?).recording file p.span) fun _ => ?_
    exact ih.returns _

theorem failsFrom_defineFunction (name : Name) (params : List Field) (returns : Ty)
    (hasBody : Bool) : FailsFrom g current (defineFunction file name params returns hasBody) := by
  refine keeps_read fun s _ => ?_
  dsimp only
  split
  · exact .of_errors rfl
  next id _ =>
    split
    next hadBody _ _ _ _ =>
      split
      · have defined : s.Adds (fun e => g.MayFail current e.file) { s with
            symbols := s.symbols.setKind id (.function params returns (hadBody || hasBody)) } :=
          .of_errors rfl
        refine defined.trans ?_
        split
        · exact .report _ here
        · exact .of_errors rfl
      · exact .of_errors rfl
    · exact .report s here

theorem failsFrom_collectFunction (head : FunctionHead) (hasBody : Bool) :
    FailsFrom g current (collectFunction file head hasBody) := by
  have hR := collectRelation_staysFound.toLookupRelation
  rw [collectFunction_eq]
  refine .bind (keeps_collectParams hR file _) (failsFrom_collectParams here _) fun params => ?_
  refine .bind (keeps_resolveOptional hR file _) (failsFrom_resolveOptional here _) ?_
  intro returns
  cases head.name? with
  | none => exact .pure _
  | some name => exact failsFrom_defineFunction here name params returns hasBody

theorem failsFrom_collectDeclaration (statement : Statement) :
    FailsFrom g current (collectDeclaration file statement) := by
  have hR := collectRelation_staysFound.toLookupRelation
  rw [collectDeclaration.eq_def]
  split
  next span decl =>
    refine .bind (keeps_collectMembers hR file _) (failsFrom_collectMembers here _) fun members => ?_
    refine .bind (keeps_ownGlobal? hR file _) (fun _ _ => .of_errors rfl) fun own => ?_
    split
    · exact .pure _
    · refine keeps_read fun s _ => ?_
      split
      · exact .of_errors rfl
      · exact .of_errors rfl
  next span decl =>
    refine .bind (keeps_ownGlobal? hR file _) (fun _ _ => .of_errors rfl) fun own => ?_
    split
    · exact fun s => failsFrom_aliasType here _ _ _ s
    · exact .pure _
  · exact failsFrom_collectFunction here _ _
  · exact failsFrom_collectFunction here _ _
  · exact .pure _

end

theorem failsFrom_forM {work : α → Check PUnit} {list : List α}
    (stays : ∀ a ∈ list, Keeps StaysFound (work a))
    (fails : ∀ a ∈ list, FailsFrom g current (work a)) : FailsFrom g current (list.forM work) := by
  induction list with
  | nil => exact .pure _
  | cons a rest ih =>
    obtain ⟨stay, stays⟩ := List.forall_mem_cons.1 stays
    obtain ⟨fail, fails⟩ := List.forall_mem_cons.1 fails
    exact .bind stay fail fun _ => ih stays fails

theorem adds_forM {P : TypeError → Prop} {work : α → Check PUnit} {list : List α}
    (adds : ∀ a ∈ list, Keeps (CheckState.Adds P) (work a)) :
    Keeps (CheckState.Adds P) (list.forM work) := by
  induction list with
  | nil => exact fun _ => .of_errors rfl
  | cons a rest ih =>
    obtain ⟨here, others⟩ := List.forall_mem_cons.1 adds
    exact fun s => (here s).trans (ih others _)

/-- While the names of types are collected, errors are found in the module itself. -/
theorem adds_collectTypeName (file : FileId) (statement : Statement) :
    Keeps (CheckState.Adds (·.file = file)) (collectTypeName file statement) := by
  have global (name : Name) (kind : SymbolKind) :
      Keeps (CheckState.Adds (·.file = file)) (defineGlobal file name kind) := by
    refine keeps_read fun s => ?_
    dsimp only
    split
    · exact .of_errors rfl
    · split
      · exact .report s rfl
      · exact .of_errors rfl
  rw [collectTypeName.eq_def]
  split
  · exact global _ _
  · exact global _ _
  · exact fun _ => .of_errors rfl

/-- What the work on several modules adds is what that on each of them adds. What it takes may depend
on the modules that are yet to come. -/
theorem forM_foundWith {P : FileId → TypeError → Prop} {I : List Module → CheckState → Prop}
    {modules : List Module} {work : Module → Check PUnit}
    (step : ∀ m rest, (m :: rest) <:+ modules →
      Keeps (fun s t => I (m :: rest) s → s.Adds (P m.id) t ∧ I rest t) (work m)) :
    Keeps (fun s t => I modules s → ∃ new, FoundWith P modules new ∧ t.errors = s.errors ++ new)
      (modules.forM work) := by
  induction modules with
  | nil => exact fun s _ => ⟨[], .nil, (List.append_nil _).symm⟩
  | cons m rest ih =>
    intro s start
    obtain ⟨⟨part, added, good⟩, next⟩ := step m rest List.suffix_rfl s start
    obtain ⟨new, found, added'⟩ :=
      ih (fun b others inside => step b others (inside.trans (List.suffix_cons m rest))) _ next
    exact ⟨part ++ new, .cons good found, added'.trans (by rw [added, List.append_assoc])⟩

end Check

namespace ModuleGraph

open Check CheckState

variable {g : ModuleGraph}

/-- What is known when the names of all types are collected. -/
def named (g : ModuleGraph) : CheckState :=
  ((g.modules.forM fun m => m.program.forM (collectTypeName m.id)).run .initial).2

/-- The errors of the first sweep, which collects the names of types. -/
def nameErrors (g : ModuleGraph) : List TypeError := g.named.errors

/-- The errors of the second sweep, which reads what is declared. -/
def declarationErrors (g : ModuleGraph) : List TypeError :=
  g.collected.errors.drop g.nameErrors.length

/-- The errors of the last sweep, which checks the modules. -/
def bodyErrors (g : ModuleGraph) : List TypeError := g.modules.flatMap g.newErrors

/-- How the errors of a program are ordered. -/
structure ErrorsOrdered (g : ModuleGraph) (errors : List TypeError) : Prop where
  sweeps : errors = g.nameErrors ++ g.declarationErrors ++ g.bodyErrors
  names : FoundWith (fun current e => e.file = current) g.modules g.nameErrors
  /-- An alias is looked into as soon as a declaration needs it, so that an error in it may come
  before errors of modules that were found earlier. -/
  declarations : FoundWith (fun current e => g.MayFail current e.file) g.modules g.declarationErrors
  bodies : FoundWith (fun current e => e.file = current) g.modules g.bodyErrors
  /-- Errors are in order exactly if those of the second sweep are, and no sweep finds an error in a
  module before one in which an earlier sweep has found any. -/
  inOrder_iff : TypeError.InOrder errors ↔ TypeError.InOrder g.declarationErrors ∧
    (∀ e ∈ g.nameErrors, ∀ later ∈ g.declarationErrors ++ g.bodyErrors, e.file ≤ later.file) ∧
    ∀ e ∈ g.declarationErrors, ∀ later ∈ g.bodyErrors, e.file ≤ later.file

/-- Modules are in the order of their numbers. -/
theorem ids_of_load {s : Sources} {entry : Path} (loaded : load s entry = .ok g) :
    g.modules.Pairwise (·.id < ·.id) := by
  refine List.pairwise_iff_getElem.2 fun i j hi hj before => ?_
  rw [id_of_load loaded (List.getElem?_eq_getElem hi), id_of_load loaded (List.getElem?_eq_getElem hj)]
  exact before

theorem nameErrors_foundWith (g : ModuleGraph) :
    FoundWith (fun current e => e.file = current) g.modules g.nameErrors := by
  have sweep : Keeps (fun s t => True → ∃ new,
      FoundWith (fun current e => e.file = current) g.modules new ∧ t.errors = s.errors ++ new)
      (g.modules.forM fun m => m.program.forM (collectTypeName m.id)) := by
    refine forM_foundWith (I := fun _ _ => True) fun m rest _ s _ => ⟨?_, trivial⟩
    exact adds_forM (fun statement _ => adds_collectTypeName m.id statement) s
  obtain ⟨new, found, errors⟩ := sweep .initial trivial
  rwa [nameErrors, named, errors]

/-- When a module has been read, the aliases that have yet to be looked into are declared in those
that follow. -/
def OpenIn (g : ModuleGraph) (rest : List Module) (s : CheckState) : Prop :=
  OpenAliases g s ∧ ∀ id symbol, s.symbols.symbol? id = some symbol → symbol.IsUnfound →
    ∃ m ∈ rest, ∃ span decl, .typeAlias span decl ∈ m.program ∧ DeclaredAs symbol m.id decl

theorem OpenIn.openFrom {m : Module} {rest : List Module} {s : CheckState}
    (ordered : g.modules.Pairwise (·.id < ·.id)) (inside : m :: rest <:+ g.modules)
    (opened : g.OpenIn (m :: rest) s) : g.OpenFrom m.id s := by
  intro id symbol has unfound
  obtain ⟨owner, mem, span, decl, declares, declared⟩ := opened.2 id symbol has unfound
  refine ⟨owner, inside.subset mem, ?_, span, decl, declares, declared⟩
  rcases List.mem_cons.1 mem with rfl | later
  · exact Nat.le_refl _
  · exact Nat.le_of_lt (List.rel_of_pairwise_cons (ordered.sublist inside.sublist) later)

/-- Reading a module leaves no alias of it to be looked into. -/
theorem openIn_collectDeclarations {m : Module} {rest : List Module} :
    Keeps (fun s t => g.OpenIn (m :: rest) s → g.OpenIn rest t)
      (m.program.forM (collectDeclaration m.id)) := by
  have hR := collectRelation_staysFound.toLookupRelation
  have keeps (statement : Statement) : Keeps StaysFound (collectDeclaration m.id statement) :=
    keeps_collectDeclaration_of collectRelation_staysFound m.id statement
  have known : ∀ statement ∈ m.program, Keeps
      (fun s t => OpenAliases g s → t.KnowsAliasOf m.id statement)
      (m.program.forM (collectDeclaration m.id)) :=
    forM_establishes hR (fun statement _ => keeps statement)
      (fun _ _ stays opened => opened.mono stays) (fun _ _ _ stays known => known.mono stays)
      fun statement _ => knowsAlias_collectDeclaration m statement
  intro s opened
  have stays : s.StaysFound ((m.program.forM (collectDeclaration m.id)).run s).2 :=
    keeps_forM hR (fun statement _ => keeps statement) s
  refine ⟨opened.1.mono stays, fun id symbol has unfound => ?_⟩
  obtain ⟨owner, mem, span, decl, declares, declared⟩ :=
    opened.2 id symbol (stays id symbol has unfound).1 unfound
  rcases List.mem_cons.1 mem with rfl | later
  · exact (known _ declares s opened.1 span decl rfl id symbol has declared unfound).elim
  · exact ⟨owner, later, span, decl, declares, declared⟩

theorem declarationErrors_foundWith (ordered : g.modules.Pairwise (·.id < ·.id)) :
    FoundWith (fun current e => g.MayFail current e.file) g.modules g.declarationErrors ∧
      g.collected.errors = g.nameErrors ++ g.declarationErrors := by
  have sweep : Keeps (fun s t => g.OpenIn g.modules s → ∃ new,
      FoundWith (fun current e => g.MayFail current e.file) g.modules new ∧ t.errors = s.errors ++ new)
      (g.modules.forM fun m => m.program.forM (collectDeclaration m.id)) :=
    forM_foundWith (I := g.OpenIn) ?_
  · obtain ⟨new, found, errors⟩ := sweep g.named ⟨openAliases_named, fun id symbol has unfound =>
      (openAliases_named id symbol has unfound).2⟩
    have errors : g.collected.errors = g.nameErrors ++ new := errors
    obtain rfl : g.declarationErrors = new := by rw [declarationErrors, errors, List.drop_left]
    exact ⟨found, errors⟩
  · intro m rest inside s opened
    refine ⟨?_, openIn_collectDeclarations s opened⟩
    refine failsFrom_forM (fun statement _ => ?_) (fun statement _ => ?_) s
      (opened.openFrom ordered inside)
    · exact keeps_collectDeclaration_of collectRelation_staysFound m.id statement
    · exact failsFrom_collectDeclaration (.inl rfl) statement

theorem bodyErrors_foundWith (g : ModuleGraph) :
    FoundWith (fun current e => e.file = current) g.modules g.bodyErrors := by
  rw [bodyErrors]
  induction g.modules with
  | nil => exact .nil
  | cons m rest ih => exact .cons (fun e mem => ((g.errors_alone m).2 e mem).1) ih

/-- The errors of a program that has been loaded are those of three sweeps, one after the other. -/
theorem errors_ordered {s : Sources} {entry : Path} (loaded : load s entry = .ok g)
    {errors : List TypeError} (failed : g.check = .error errors) : g.ErrorsOrdered errors := by
  have ordered := ids_of_load loaded
  have names := g.nameErrors_foundWith
  have bodies := g.bodyErrors_foundWith
  obtain ⟨declarations, collected⟩ := declarationErrors_foundWith ordered
  have checked := hasChecked (isNumbered_of_load loaded) (fun _ mem => mem)
    (isNumbered_of_load loaded).ids
  have sweeps : errors = g.nameErrors ++ g.declarationErrors ++ g.bodyErrors := by
    rw [check_eq] at failed
    split at failed
    · cases failed
    · rw [← Except.error.inj failed, checked.errors, collected, bodyErrors]
  refine ⟨sweeps, names, declarations, bodies, ?_⟩
  rw [sweeps, TypeError.InOrder, List.append_assoc, List.pairwise_append, List.pairwise_append]
  constructor
  · rintro ⟨-, ⟨inside, -, after⟩, first⟩
    exact ⟨inside, first, after⟩
  · rintro ⟨inside, first, after⟩
    exact ⟨names.inOrder ordered, ⟨inside, bodies.inOrder ordered, after⟩, first⟩

/-- A file with something wrong in a variable, and one with something wrong in what it declares. -/
def sweptSource : String := "import './b'\nlet x = y\n"

def sweptGraph : ModuleGraph :=
  .ofTexts ⟨"main.ts"⟩ sweptSource "./b" ⟨"b.ts"⟩ "function f(p: T): void \x7b\x7d\n"

def sweptErrors : List TypeError :=
  match sweptGraph.check with
  | .ok _ => []
  | .error errors => errors

theorem swept_loads :
    load (.ofFiles [(⟨"main.ts"⟩, sweptSource), (⟨"b.ts"⟩, "function f(p: T): void \x7b\x7d\n")] [])
      ⟨"main.ts"⟩ = .ok sweptGraph :=
  load_ofTexts rfl rfl (by decide +kernel) rfl (by decide +kernel) rfl (by decide +kernel)

theorem swept_fails : sweptGraph.check = .error sweptErrors := by
  have fails : sweptGraph.check.toOption.isSome = false := by decide +kernel
  rw [sweptErrors]
  cases checked : sweptGraph.check with
  | ok types =>
    rw [checked] at fails
    cases fails
  | error errors => rfl

/-- The errors of the two files are those of different sweeps. -/
theorem swept_ordered :
    load (.ofFiles [(⟨"main.ts"⟩, sweptSource), (⟨"b.ts"⟩, "function f(p: T): void \x7b\x7d\n")] [])
        ⟨"main.ts"⟩ = .ok sweptGraph ∧
      sweptGraph.check = .error sweptErrors ∧ sweptGraph.ErrorsOrdered sweptErrors :=
  ⟨swept_loads, swept_fails, errors_ordered swept_loads swept_fails⟩

/-- The error of the second file comes first. -/
theorem swept_not_inOrder :
    load (.ofFiles [(⟨"main.ts"⟩, sweptSource), (⟨"b.ts"⟩, "function f(p: T): void \x7b\x7d\n")] [])
        ⟨"main.ts"⟩ = .ok sweptGraph ∧
      sweptGraph.check = .error sweptErrors ∧ ¬TypeError.InOrder sweptErrors := by
  refine ⟨swept_loads, swept_fails, fun inOrder => ?_⟩
  have files : sweptErrors.map TypeError.file = [1, 0] := by decide +kernel
  have inOrder := List.pairwise_map.2 inOrder
  rw [files] at inOrder
  exact absurd (List.rel_of_pairwise_cons inOrder List.mem_cons_self) (by decide)

end ModuleGraph

end ScriptToGo
