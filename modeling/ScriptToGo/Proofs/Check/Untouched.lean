import Mathlib.Logic.Equiv.Basic
import ScriptToGo.Proofs.Check.Gathered
import ScriptToGo.Proofs.Check.RenamedStatements
import ScriptToGo.Proofs.Check.Unmoved

/-! Names that a module does not use are in none of the types that are known to it. So it does not matter
to what names in types stand for whether an import is bound to its name or to another one. -/
namespace ScriptToGo

/-- The names of wrappers and of the types of global values, which always stand for these. -/
def Builtin.reservedNames : List String :=
  [arrayName, pointerName, pointerShortName] ++ globals.map Global.typeName

theorem Builtin.mem_reservedNames_of_isWrapper {name : String}
    (h : TypeExpr.isWrapper name = true) : name ∈ reservedNames := by
  rw [TypeExpr.isWrapper, Bool.or_eq_true, beq_iff_eq, pointer?] at h
  rw [reservedNames]
  rcases h with rfl | pointer
  · simp
  · split at pointer
    next is =>
      rw [Bool.or_eq_true, beq_iff_eq, beq_iff_eq] at is
      rcases is with rfl | rfl <;> simp
    next => cases pointer

theorem Builtin.isWrapper_of_notMem {name : String} (plain : name ∉ reservedNames) :
    TypeExpr.isWrapper name = false := by
  rw [← Bool.not_eq_true]
  exact mt mem_reservedNames_of_isWrapper plain

theorem Builtin.typeName_mem_reservedNames {value : Global} (mem : value ∈ globals) :
    value.typeName ∈ reservedNames := List.mem_append_right _ (List.mem_map_of_mem mem)

/-- Names are taken for others only among two of them. -/
structure TakesAmong (f : String → String) (old fresh : String) : Prop where
  other : ∀ name, name ≠ old → name ≠ fresh → f name = name
  into : ∀ name, name = old ∨ name = fresh → f name = old ∨ f name = fresh
  wrapper : Check.KeepsWrappers f
  global : ∀ value ∈ Builtin.globals, ∀ name, f name = value.typeName ↔ name = value.typeName

theorem takesAmong_id (old fresh : String) : TakesAmong id old fresh where
  other _ _ _ := rfl
  into _ := id
  wrapper _ _ := rfl
  global _ _ _ := .rfl

open Builtin in
theorem takesAmong_swap {old fresh : String} (notOld : old ∉ reservedNames)
    (notFresh : fresh ∉ reservedNames) : TakesAmong (Equiv.swap old fresh) old fresh := by
  have stays : ∀ name ∈ reservedNames, Equiv.swap old fresh name = name := fun name reserved =>
    Equiv.swap_apply_of_ne_of_ne (fun is => notOld (is ▸ reserved)) fun is => notFresh (is ▸ reserved)
  constructor
  case other => exact fun name => Equiv.swap_apply_of_ne_of_ne
  case into =>
    rintro name (rfl | rfl)
    · exact .inr (Equiv.swap_apply_left _ _)
    · exact .inl (Equiv.swap_apply_right _ _)
  case wrapper => exact fun name is => stays name (mem_reservedNames_of_isWrapper is)
  case global =>
    intro value mem name
    rw [← Equiv.eq_symm_apply, Equiv.symm_swap, stays _ (typeName_mem_reservedNames mem)]

/-- If some names may be taken for others in what is known of a name, then so may fewer of them. -/
theorem SymbolKind.Alike.self_of {f h : String → String}
    (keeps : ∀ name, f name = name → h name = name) {kind : SymbolKind} (same : kind.Alike f kind) :
    kind.Alike h kind := by
  cases same with
  | «variable» same => exact .variable (same.self_of keeps)
  | function params returns => exact .function (params.self_of keeps) (returns.self_of keeps)
  | builtin same => exact .builtin (same.self_of keeps)
  | interface members => exact .interface (members.self_of keeps)
  | «alias» same => exact .«alias» (same.self_of keeps)
  | global same => exact .global (keeps _ same)

theorem SymbolKind.rel_self_of {f h : String → String} (keeps : ∀ name, f name = name → h name = name)
    {kind? : Option SymbolKind} (same : Option.Rel (SymbolKind.Alike f) kind? kind?) :
    Option.Rel (SymbolKind.Alike h) kind? kind? := by
  cases same with
  | none => exact .none
  | some same => exact .some (same.self_of keeps)

/-- Taking some names for others changes nothing that is known from a table of symbols, and none of
these names is that of an interface. -/
structure SymbolTable.Untouched (f : String → String) (t : SymbolTable) : Prop where
  kinds : ∀ name, Option.Rel (SymbolKind.Alike f) (t.kind? name) (t.kind? name)
  moved : ∀ name, f name ≠ name → t.members? name = none ∧ t.members? (f name) = none

/-- Changes of the current scope that keep its kind keep that of the global one. -/
theorem SymbolTable.outermost_kind_modifyCurrent {t : SymbolTable} {f : Scope → Scope}
    {symbols : Array Symbol} {grows : t.symbols.size ≤ symbols.size}
    {fits : (f t.current).Fits symbols.size} (same : ∀ scope, (f scope).kind = scope.kind) :
    (t.modifyCurrent f symbols grows fits).outermost.kind = t.outermost.kind := by
  by_cases inner : t.inner = []
  · rw [outermost_modifyCurrent_of_nil inner, same]
  · rw [outermost_modifyCurrent_of_ne_nil inner]

namespace Rerun

/-- Right after the import, nothing has been found that the runs could tell apart. -/
theorem alike_start (p : Rerun) {s t : CheckState} (here : s.symbols = p.here)
    (there : t.symbols = p.there) (errors : s.errors = [] ↔ t.errors = [])
    (types : ∀ file span,
      Ty.OptionAlike p.back (s.types.typeAt file span) (t.types.typeAt file span)) :
    p.Alike [] s t where
  errors
  types
  tables := by
    have outside (id : SymbolId) (le : p.here.symbols.size ≤ id) :
        p.here.symbol? id = none ∧ p.there.symbol? (id + p.shift) = none := by
      have size := p.size
      exact ⟨Array.getElem?_eq_none le, Array.getElem?_eq_none (by omega)⟩
    rw [here, there]
    constructor
    case outermost => rfl
    case outermost' => rfl
    case size => exact Nat.le_refl _
    case size' => exact p.size
    case old => exact fun _ _ => rfl
    case old' => exact fun _ _ => rfl
    case new =>
      intro id le
      obtain ⟨none, none'⟩ := outside id le
      rw [none, none']
      exact .none
    case opened =>
      rw [p.inner, p.inner']
      exact .module (List.forall_mem_nil _) rfl rfl
    case hidden => exact nofun

/-- Both runs are the same one, and no import gets another name. -/
def twice {f : String → String} {old fresh : String} (takes : TakesAmong f old fresh)
    (ne : fresh ≠ old) (plain : TypeExpr.isWrapper fresh = false) (file : FileId) {table : SymbolTable}
    (untouched : table.Untouched f) {module : Scope} (inner : table.inner = [module])
    (outside : module.kind ≠ .function ∧ table.outermost.kind ≠ .function) : Rerun where
  old := old
  new := old
  fresh := fresh
  file := file
  here := table
  there := table
  module := module
  module' := module
  shift := 0
  back := f
  MayHide := ∀ name, f name = name
  Stays := True
  new_or := .inr rfl
  fresh_ne := ne
  freshPlain := plain
  inner := inner
  inner' := inner
  size := rfl
  defined _ _ _ := rfl
  kinds name _ _ := untouched.kinds name
  imported := untouched.kinds old
  stays _ := untouched.kinds old
  members name := by
    by_cases stays : f name = name
    · rw [stays]
      exact Tables.members?_alike_of_kind? (untouched.kinds name)
    · obtain ⟨none, none'⟩ := untouched.moved name stays
      rw [none, none']
      rfl
  outside := by simp [outside]
  back_other := takes.other
  back_into := takes.into
  back_new interface := by
    by_contra moves
    rw [(untouched.moved old moves).1] at interface
    cases interface
  back_hidden stays := stays
  back_wrapper := takes.wrapper
  back_global := takes.global

end Rerun

/-- The global scope is not that of a function. -/
theorem stepRelation_outermostKind :
    StepRelation fun s t => t.symbols.outermost.kind = s.symbols.outermost.kind where
  refl _ := rfl
  trans first second := second.trans first
  report _ _ _ := rfl
  record _ _ _ _ := rfl
  define _ _ _ _ _ := SymbolTable.outermost_kind_modifyCurrent fun _ => rfl
  setKind _ _ _ := rfl
  setReturnType _ _ := SymbolTable.outermost_kind_modifyCurrent fun _ => rfl
  scope s _ kind inside := inside.trans (congrArg Scope.kind (s.symbols.outermost_enter kind))

namespace Statement

/-- The names under which the module that an import names exports what the import lists. -/
def importedNames : Statement → List String
  | .importing _ decl => decl.named.map ImportedName.imported
  | _ => []

/-- A statement at the top level of a module has nothing to do with a name. -/
structure Avoids (s : Statement) (name : String) : Prop where
  mentioned : ∀ n ∈ s.checkedNodes.flatMap Node.all, name ∉ n.mentions
  declared : name ∉ s.localDeclared
  top : name ∉ s.topNames
  imported : name ∉ s.importedNames

instance (s : Statement) (name : String) : Decidable (s.Avoids name) :=
  decidable_of_iff ((∀ n ∈ s.checkedNodes.flatMap Node.all, name ∉ n.mentions) ∧
      name ∉ s.localDeclared ∧ name ∉ s.topNames ∧ name ∉ s.importedNames)
    ⟨fun ⟨mentioned, declared, top, imported⟩ => ⟨mentioned, declared, top, imported⟩,
      fun ⟨mentioned, declared, top, imported⟩ => ⟨mentioned, declared, top, imported⟩⟩

end Statement

namespace ModuleGraph

open Check

/-- What is known when everything has been collected and a module is about to be checked. -/
def entered (g : ModuleGraph) : CheckState :=
  { g.collected with symbols := g.collected.symbols.enter .module }

/-- What is known when some statements of a module have been checked after that. -/
def checkedUpTo (g : ModuleGraph) (file : FileId) (statements : List Statement) : CheckState :=
  ((statements.forM (checkTopLevel g file)).run g.entered).2

/-- The names of the interfaces that modules declare. -/
def interfaceNames (g : ModuleGraph) : List String :=
  g.modules.flatMap fun m => m.program.filterMap Statement.interfaceName?

variable {g : ModuleGraph} {name : String}

theorem kind?_entered : g.entered.symbols.kind? name = g.collected.symbols.kind? name :=
  SymbolTable.kind?_enter _ _ name

theorem outermost_entered (g : ModuleGraph) :
    g.entered.symbols.outermost = g.collected.symbols.outermost := SymbolTable.outermost_enter _ _

theorem builtinMeaning?_ne_interface : builtinMeaning? name ≠ some .interface := by
  rw [builtinMeaning?]
  split <;> simp

/-- A name that means an interface is that of one. -/
theorem mem_interfaceNames_of_meaning? (h : g.meaning? name = some .interface) :
    name ∈ g.interfaceNames := by
  rw [meaning?, meaningAfter, typeMeaningIn, Option.or_assoc] at h
  rcases Option.or_eq_some_iff.1 h with builtin | ⟨-, h⟩
  · exact (builtinMeaning?_ne_interface builtin).elim
  rcases Option.or_eq_some_iff.1 h with type | ⟨-, function⟩
  · obtain ⟨⟨file, s⟩, declared, means⟩ := List.exists_of_findSome?_eq_some type
    obtain ⟨m, mem, inside⟩ := List.mem_flatMap.1 declared
    obtain ⟨s, inside, same⟩ := List.mem_map.1 inside
    cases same
    refine List.mem_flatMap.2 ⟨m, mem, List.mem_filterMap.2 ⟨s, inside, ?_⟩⟩
    cases s with
    | interface _ decl =>
      dsimp only [Statement.typeMeaning?] at means
      split at means
      next is => exact congrArg some is
      next => cases means
    | typeAlias _ decl =>
      dsimp only [Statement.typeMeaning?] at means
      split at means <;> cases means
    | _ => cases means
  · obtain ⟨⟨file, s⟩, -, means⟩ := List.exists_of_findSome?_eq_some function
    obtain ⟨_, -, other⟩ := Option.map_eq_some_iff.1 means
    cases other

theorem members?_collected (other : name ∉ g.interfaceNames) :
    g.collected.symbols.members? name = none := by
  rw [SymbolTable.members?]
  cases is : g.collected.symbols.kind? name with
  | none => rfl
  | some kind =>
    cases kind with
    | interface members =>
      have means := g.gathering_collect.meaning_of_interface is
      exact (other (mem_interfaceNames_of_meaning? means)).elim
    | _ => rfl

/-- The name of a type that a module declares means something. -/
theorem meaning?_isSome {m : Module} (mem : m ∈ g.modules) {s : Statement} (inside : s ∈ m.program)
    (means : (s.typeMeaning? name).isSome) : (g.meaning? name).isSome := by
  have declared : (m.id, s) ∈ g.declarations :=
    List.mem_flatMap.2 ⟨m, mem, List.mem_map_of_mem inside⟩
  rw [meaning?, meaningAfter, typeMeaningIn, Option.isSome_or, Option.isSome_or]
  refine Bool.or_eq_true_iff.2 (.inl (Bool.or_eq_true_iff.2 (.inr ?_)))
  exact List.findSome?_isSome_iff.2 ⟨_, declared, means⟩

/-- A name that means nothing is not that of an interface. -/
theorem notMem_interfaceNames (unknown : g.meaning? name = none) : name ∉ g.interfaceNames := by
  intro mem
  obtain ⟨m, mem, inside⟩ := List.mem_flatMap.1 mem
  obtain ⟨s, inside, is⟩ := List.mem_filterMap.1 inside
  have means : (s.typeMeaning? name).isSome := by
    cases s with
    | interface _ decl =>
      rw [Statement.typeMeaning?, if_pos (Option.some.inj is)]
      rfl
    | _ => cases is
  have known := meaning?_isSome mem inside means
  rw [unknown] at known
  cases known

theorem kind?_collected_isSome (g : ModuleGraph) (name : String) :
    (g.collected.symbols.kind? name).isSome = (g.meaning? name).isSome :=
  (g.gathering_collect.fits name).isSome_eq.symm

theorem kind?_collected_of_meaning? (unknown : g.meaning? name = none) :
    g.collected.symbols.kind? name = none := by
  have same := g.kind?_collected_isSome name
  rw [unknown, Option.isSome_none, Option.isSome_eq_false_iff] at same
  exact Option.isNone_iff_eq_none.1 same

/-- When a module is about to be checked, no type mentions a name that is that of no interface. -/
theorem untouched_entered {f : String → String} {old fresh : String} (takes : TakesAmong f old fresh)
    (injective : Function.Injective f) (interfaces : ∀ name ∈ g.interfaceNames, f name = name) :
    g.entered.symbols.Untouched f := by
  have unmoved := g.unmoved_collected takes.wrapper (fun value mem => (takes.global value mem _).2 rfl)
    fun m mem s inside name is => interfaces name <|
      List.mem_flatMap.2 ⟨m, mem, List.mem_filterMap.2 ⟨s, inside, is⟩⟩
  constructor
  case kinds =>
    intro name
    rw [kind?_entered]
    cases is : g.collected.symbols.kind? name with
    | none => exact .none
    | some kind =>
      refine .some ((unmoved.kinds name kind is).alike fun written unknown => ?_)
      exact (aliasesFound_collect g).kind?_ne name written (unknown ▸ is)
  case moved =>
    intro name moves
    have none : name ∉ g.interfaceNames := fun mem => moves (interfaces name mem)
    have none' : f name ∉ g.interfaceNames := fun mem => moves (injective (interfaces _ mem))
    rw [SymbolTable.members?, SymbolTable.members?, kind?_entered, kind?_entered]
    exact ⟨members?_collected none, members?_collected none'⟩

theorem outermost_kind_collected (g : ModuleGraph) :
    g.collected.symbols.outermost.kind = .global :=
  keeps_collect stepRelation_outermostKind g .initial

end ModuleGraph

/-- A statement of a module imports a type that has the name in the imported module. -/
def ModuleGraph.ImportsType (g : ModuleGraph) (file : FileId) (s : Statement) (name : String) : Prop :=
  ∃ m decl, s.import? = some decl ∧ g.resolveImport file decl.specifier.text = some m ∧
    name ∈ s.importedNames ∧ m.ExportsType name

/-- A statement that has nothing to do with the fresh name is checked alike, unless it could tell that
another one is not fresh. -/
theorem Rerun.passes (p : Rerun) {g : ModuleGraph} {file : FileId} {s : Statement}
    (avoids : s.Avoids p.fresh) (top : p.old ∉ s.topNames) (hides : p.old ∈ s.localDeclared → p.MayHide)
    (stays : g.ImportsType file s p.old → p.Stays) : p.Passes g file s where
  lacks := avoids.mentioned
  allows name declared := by
    refine ⟨fun is => avoids.declared ?_, fun is => hides ?_⟩
    · rwa [← is]
    · rwa [← is]
  top := ⟨avoids.top, top⟩
  imports := by
    cases s with
    | importing span decl =>
      rintro _ ⟨⟩ m resolved entry listed
      have named : entry.imported ∈ (Statement.importing span decl).importedNames :=
        List.mem_map_of_mem listed
      exact ⟨fun is => avoids.imported (is ▸ named), fun exported is =>
        stays ⟨m, decl, rfl, resolved, is ▸ named, is ▸ exported⟩⟩
    | _ => exact nofun

/-- Of two names, none is used by some statements at the top level of a module; or names are not taken
for others, so that the first one may be used inside of them. -/
structure Statement.Spared (f : String → String) (old fresh : String) (statements : List Statement) :
    Prop where
  fresh : ∀ s ∈ statements, s.Avoids fresh
  top : ∀ s ∈ statements, old ∉ s.topNames
  hides : ∀ s ∈ statements, old ∈ s.localDeclared → ∀ name, f name = name

namespace ModuleGraph

open Check

variable {g : ModuleGraph} {f : String → String} {old fresh : String}

/-- When some statements of a module have been checked, no type mentions a name that is that of no
interface and is not used by them. -/
theorem exists_twice (takes : TakesAmong f old fresh) (injective : Function.Injective f)
    (ne : fresh ≠ old) (plain : fresh ∉ Builtin.reservedNames)
    (interfaces : ∀ name ∈ g.interfaceNames, f name = name) (file : FileId)
    {statements : List Statement} (spared : Statement.Spared f old fresh statements) :
    ∃ p : Rerun, p.old = old ∧ p.fresh = fresh ∧ p.back = f ∧ p.here = g.entered.symbols ∧
      p.Stays ∧ p.Alike [] (g.checkedUpTo file statements) (g.checkedUpTo file statements) := by
  have unmoved := g.unmoved_collected takes.wrapper (fun value mem => (takes.global value mem _).2 rfl)
    fun m mem s inside name is => interfaces name <|
      List.mem_flatMap.2 ⟨m, mem, List.mem_filterMap.2 ⟨s, inside, is⟩⟩
  have noWrapper : TypeExpr.isWrapper fresh = false := Builtin.isWrapper_of_notMem plain
  have inner : g.entered.symbols.inner = [⟨.module, [], none⟩] :=
    (SymbolTable.inner_enter _ _).trans (congrArg (_ :: ·) g.inner_collected)
  have outside : ScopeKind.module ≠ .function ∧ g.entered.symbols.outermost.kind ≠ .function := by
    refine ⟨nofun, ?_⟩
    rw [outermost_entered, outermost_kind_collected]
    exact nofun
  let p := Rerun.twice takes ne noWrapper file (untouched_entered takes injective interfaces) inner outside
  have start : p.Alike [] g.entered g.entered := by
    refine p.alike_start rfl rfl .rfl fun file span => ?_
    cases found : g.entered.types.typeAt file span with
    | none => exact .none
    | some type => exact (unmoved.types file span type found).some
  have passes : ∀ s ∈ statements, p.Passes g file s := fun s mem =>
    p.passes (spared.fresh s mem) (spared.top s mem) (spared.hides s mem) fun _ => trivial
  have agrees := agrees_program g statements passes
  rw [Statement.renamedAll_of_same rfl] at agrees
  exact ⟨p, rfl, rfl, rfl, rfl, trivial, (agrees _ _ start).2⟩

end ModuleGraph

namespace Rerun

variable {p : Rerun} {s t : CheckState}

/-- A name that has not been defined since stands for what it did. -/
theorem Alike.kind?_unused (h : p.Alike [] s t) {name : String} (is : name = p.old ∨ name = p.fresh) :
    s.symbols.kind? name = p.here.kind? name :=
  h.tables.kind?_of_lookup_here (h.tables.lookup_imported is fun _ => rfl).1

theorem Alike.exists_module (h : p.Alike [] s t) :
    ∃ module, s.symbols.inner = [module] ∧ module.kind ≠ .function := by
  have opened := h.tables.opened
  have outside := p.outside
  generalize s.symbols.inner = as at opened ⊢
  generalize t.symbols.inner = bs at opened
  cases opened with
  | module => exact ⟨_, rfl, outside p.module List.mem_cons_self⟩

/-- Where both runs are the same, what is known of names is alike. -/
theorem Alike.kinds_self (h : p.Alike [] s s) (stays : p.Stays) (unknown : p.here.kind? p.fresh = none)
    (name : String) :
    Option.Rel (SymbolKind.Alike p.back) (s.symbols.kind? name) (s.symbols.kind? name) := by
  by_cases is : name = p.fresh
  · rw [h.kind?_unused (.inr is), is, unknown]
    exact .none
  · exact h.tables.kind?_own is fun _ => stays

end Rerun

open Builtin in
theorem takesAmong_update {old fresh : String} (notOld : old ∉ reservedNames)
    (notFresh : fresh ∉ reservedNames) : TakesAmong (Function.update id fresh old) old fresh := by
  have stays (name : String) (ne : name ≠ fresh) : Function.update id fresh old name = name :=
    Function.update_of_ne ne _ _
  constructor
  case other => exact fun name _ => stays name
  case into =>
    rintro name (rfl | rfl)
    · by_cases is : name = fresh
      · exact .inr (is ▸ Function.update_self _ _ _)
      · exact .inl (stays name is)
    · exact .inl (Function.update_self _ _ _)
  case wrapper =>
    exact fun name is => stays name fun same =>
      notFresh (same ▸ mem_reservedNames_of_isWrapper is)
  case global =>
    intro value mem name
    have reserved := typeName_mem_reservedNames mem
    by_cases is : name = fresh
    · subst is
      rw [Function.update_self]
      exact iff_of_false (fun same => notOld (same ▸ reserved)) fun same => notFresh (same ▸ reserved)
    · rw [stays name is]

/-- In the second table, a name of the innermost scope stands for something. All other names stand for
what they do in the first table. -/
structure SymbolTable.Binds (t : SymbolTable) (module : Scope) (name : String) (kind : SymbolKind)
    (u : SymbolTable) (scope : Scope) : Prop where
  inner : u.inner = [scope]
  scopeKind : scope.kind = module.kind
  outermost : u.outermost = t.outermost
  defined : ∀ other, other ≠ name →
    (scope.names.lookup other).isSome = (module.names.lookup other).isSome
  others : ∀ other, other ≠ name → u.kind? other = t.kind? other
  kind : u.kind? name = some kind

namespace SymbolTable

variable {t : SymbolTable} {module : Scope} {name : String} {kind : SymbolKind}

theorem binds_self (inner : t.inner = [module]) (is : t.kind? name = some kind) :
    t.Binds module name kind t module where
  inner := inner
  scopeKind := rfl
  outermost := rfl
  defined _ _ := rfl
  others _ _ := rfl
  kind := is

theorem binds_define (inner : t.inner = [module]) (span : Span) (file? : Option FileId) :
    t.Binds module name kind (t.define name kind span file?)
      { module with names := (name, t.symbols.size) :: module.names } where
  inner := inner_define inner _ _ _ _
  scopeKind := rfl
  outermost := outermost_define inner _ _ _ _
  defined other ne := by
    dsimp only
    rw [List.lookup_cons, beq_false_of_ne ne]
  others other ne := by rw [kind?_define, if_neg ne]
  kind := by rw [kind?_define, if_pos rfl]

end SymbolTable

namespace Rerun

open SymbolTable (Binds)

variable {t here there : SymbolTable} {module scope scope' : Scope} {old fresh : String}
  {kind : SymbolKind} {back : String → String}

/-- What names in types of the second run stand for, if the import stands for something. -/
structure StandsIn (back : String → String) (t here there : SymbolTable) (old fresh : String) : Prop
    extends TakesAmong back old fresh where
  kinds : ∀ name, Option.Rel (SymbolKind.Alike back) (t.kind? name) (t.kind? name)
  imported : Option.Rel (SymbolKind.Alike back) (here.kind? old) (there.kind? fresh)
  members : ∀ name, name = old ∨ name = fresh →
    Field.OptionAlike back (here.members? (back name)) (there.members? name)
  interface : (there.members? fresh).isSome → back fresh = old

/-- Two runs that go on from tables in which the import has been bound to its old name and to a fresh
one. -/
theorem exists_renamed (bindsOld : t.Binds module old kind here scope)
    (bindsFresh : t.Binds module fresh kind there scope')
    (outside : module.kind ≠ .function ∧ t.outermost.kind ≠ .function)
    (stands : StandsIn back t here there old fresh) (ne : fresh ≠ old)
    (plain : TypeExpr.isWrapper fresh = false) (file : FileId)
    {shift : Nat} (size : there.symbols.size = here.symbols.size + shift) {Stays : Prop}
    (stays : Stays → t.kind? old = some kind) :
    ∃ p : Rerun, p.toLocalName = ⟨old, fresh⟩ ∧ p.fresh = fresh ∧ p.back = back ∧ p.here = here ∧
      p.there = there ∧ p.Stays = Stays ∧ p.MayHide = ∀ name, back name = name := by
  have outer {name : String} (notOld : name ≠ old) (notFresh : name ≠ fresh) :
      here.kind? name = t.kind? name ∧ there.kind? name = t.kind? name :=
    ⟨bindsOld.others name notOld, bindsFresh.others name notFresh⟩
  have defined (name : String) (notOld : name ≠ old) (notFresh : name ≠ fresh) :
      (scope'.names.lookup name).isSome = (scope.names.lookup name).isSome := by
    rw [bindsFresh.defined name notFresh, bindsOld.defined name notOld]
  have kinds (name : String) (notOld : name ≠ old) (notFresh : name ≠ fresh) :
      Option.Rel (SymbolKind.Alike back) (here.kind? name) (there.kind? name) := by
    rw [(outer notOld notFresh).1, (outer notOld notFresh).2]
    exact stands.kinds name
  have stays (is : Stays) : Option.Rel (SymbolKind.Alike back) (here.kind? old) (there.kind? old) := by
    rw [bindsOld.kind, bindsFresh.others old ne.symm, ← stays is]
    exact stands.kinds old
  have members (name : String) :
      Field.OptionAlike back (here.members? (back name)) (there.members? name) := by
    by_cases among : name = old ∨ name = fresh
    · exact stands.members name among
    · obtain ⟨notOld, notFresh⟩ := not_or.1 among
      rw [stands.other name notOld notFresh, SymbolTable.members?, SymbolTable.members?,
        (outer notOld notFresh).1, (outer notOld notFresh).2]
      exact Tables.members?_alike_of_kind? (stands.kinds name)
  exact ⟨{
    old, new := fresh, fresh, file, here, there, module := scope, module' := scope', shift, back
    MayHide := ∀ name, back name = name
    Stays
    new_or := .inl rfl
    fresh_ne := ne
    freshPlain := plain
    inner := bindsOld.inner
    inner' := bindsFresh.inner
    size, defined, kinds, stays, members
    imported := stands.imported
    outside := by
      simp [bindsOld.scopeKind, bindsFresh.scopeKind, bindsOld.outermost, bindsFresh.outermost, outside]
    back_other := stands.other
    back_into := stands.into
    back_new := stands.interface
    back_hidden := id
    back_wrapper := stands.wrapper
    back_global := stands.global }, rfl, rfl, rfl, rfl, rfl, rfl, rfl⟩

section

variable (bindsOld : t.Binds module old kind here scope)
  (bindsFresh : t.Binds module fresh kind there scope') (ne : fresh ≠ old)
include bindsOld bindsFresh ne

/-- If the import stands for no interface, names in types stand for themselves. -/
theorem standsIn_id {f : String → String}
    (kinds : ∀ name, Option.Rel (SymbolKind.Alike f) (t.kind? name) (t.kind? name))
    (same : kind.Alike f kind) (unknown : t.kind? fresh = none)
    (plain : kind.members? = none) (oldPlain : t.members? old = none) :
    StandsIn id t here there old fresh where
  toTakesAmong := takesAmong_id old fresh
  kinds name := SymbolKind.rel_self_of (fun _ _ => rfl) (kinds name)
  imported := by
    rw [bindsOld.kind, bindsFresh.kind]
    exact .some (same.self_of fun _ _ => rfl)
  members name is := by
    have none : here.members? name = .none ∧ there.members? name = .none := by
      rcases is with rfl | rfl
      · rw [SymbolTable.members?, SymbolTable.members?, bindsOld.kind, bindsFresh.others _ ne.symm]
        exact ⟨plain, oldPlain⟩
      · rw [SymbolTable.members?, SymbolTable.members?, bindsFresh.kind, bindsOld.others _ ne, unknown]
        exact ⟨rfl, plain⟩
    rw [id, none.1, none.2]
    rfl
  interface is := by
    rw [SymbolTable.members?, bindsFresh.kind, Option.bind_some, plain] at is
    cases is

/-- If the import keeps the name of an interface, then the fresh name stands for that as well. -/
theorem standsIn_update {f : String → String} (moves : f fresh ≠ fresh)
    (kinds : ∀ name, Option.Rel (SymbolKind.Alike f) (t.kind? name) (t.kind? name))
    (same : kind.Alike f kind) (own : t.kind? old = some kind)
    (notOld : old ∉ Builtin.reservedNames) (notFresh : fresh ∉ Builtin.reservedNames) :
    StandsIn (Function.update id fresh old) t here there old fresh := by
  have keeps (name : String) (stays : f name = name) : Function.update id fresh old name = name :=
    Function.update_of_ne (by rintro rfl; exact moves stays) _ _
  have ofOld : Function.update id fresh old old = old := Function.update_of_ne ne.symm _ _
  have ofFresh : Function.update id fresh old fresh = old := Function.update_self _ _ _
  have alike : kind.Alike (Function.update id fresh old) kind := same.self_of keeps
  constructor
  case toTakesAmong => exact takesAmong_update notOld notFresh
  case kinds => exact fun name => SymbolKind.rel_self_of keeps (kinds name)
  case imported =>
    rw [bindsOld.kind, bindsFresh.kind]
    exact .some alike
  case members =>
    rintro name (rfl | rfl)
    · rw [ofOld, SymbolTable.members?, SymbolTable.members?, bindsOld.kind,
        bindsFresh.others _ ne.symm, own]
      exact alike.members?
    · rw [ofFresh, SymbolTable.members?, SymbolTable.members?, bindsOld.kind, bindsFresh.kind]
      exact alike.members?
  case interface => exact fun _ => ofFresh

/-- If an interface is imported under another name, then the fresh name stands for that. -/
theorem standsIn_swap
    (kinds : ∀ name, Option.Rel (SymbolKind.Alike (Equiv.swap old fresh)) (t.kind? name) (t.kind? name))
    (same : kind.Alike (Equiv.swap old fresh) kind) (unknown : t.kind? fresh = none)
    (oldPlain : t.members? old = none)
    (notOld : old ∉ Builtin.reservedNames) (notFresh : fresh ∉ Builtin.reservedNames) :
    StandsIn (Equiv.swap old fresh) t here there old fresh where
  toTakesAmong := takesAmong_swap notOld notFresh
  kinds := kinds
  imported := by
    rw [bindsOld.kind, bindsFresh.kind]
    exact .some same
  members name is := by
    rcases is with rfl | rfl
    · rw [Equiv.swap_apply_left, SymbolTable.members?, bindsOld.others _ ne, unknown,
        SymbolTable.members?, bindsFresh.others _ ne.symm, ← SymbolTable.members?, oldPlain]
      rfl
    · rw [Equiv.swap_apply_right, SymbolTable.members?, SymbolTable.members?, bindsOld.kind,
        bindsFresh.kind]
      exact same.members?
  interface _ := Equiv.swap_apply_right _ _

/-- There is always something that the fresh name stands for. -/
theorem exists_standsIn {stand : String} (standNe : stand ≠ fresh)
    (kinds : ∀ name,
      Option.Rel (SymbolKind.Alike (Equiv.swap stand fresh)) (t.kind? name) (t.kind? name))
    (same : kind.Alike (Equiv.swap stand fresh) kind) (unknown : t.kind? fresh = none)
    (notFresh : fresh ∉ Builtin.reservedNames)
    (apart : t.kind? old = some kind ∨ t.members? old = none)
    (interface : kind.members?.isSome →
      old ∉ Builtin.reservedNames ∧ (t.kind? old ≠ some kind → stand = old)) :
    ∃ back, StandsIn back t here there old fresh ∧
      (∀ name, Equiv.swap stand fresh name = name → back name = name) ∧
      (kind.members? = none → ∀ name, back name = name) := by
  cases members : kind.members? with
  | none =>
    have oldPlain : t.members? old = none := by
      refine apart.elim (fun own => ?_) id
      rw [SymbolTable.members?, own]
      exact members
    exact ⟨id, standsIn_id bindsOld bindsFresh ne kinds same unknown members oldPlain,
      fun _ _ => rfl, fun _ _ => rfl⟩
  | some fields =>
    obtain ⟨notOld, stands⟩ := interface (by rw [members]; rfl)
    have moves : Equiv.swap stand fresh fresh ≠ fresh := by
      rw [Equiv.swap_apply_right]
      exact standNe
    by_cases own : t.kind? old = some kind
    · refine ⟨_, standsIn_update bindsOld bindsFresh ne moves kinds same own notOld notFresh,
        fun name stays => Function.update_of_ne ?_ _ _, by simp⟩
      rintro rfl
      exact moves stays
    · obtain rfl := stands own
      exact ⟨_, standsIn_swap bindsOld bindsFresh ne kinds same unknown (apart.resolve_left own) notOld
        notFresh, fun _ stays => stays, by simp⟩

end

/-- Right after an import has been bound to its old name and to a fresh one, two runs are alike. -/
theorem exists_alike {s : CheckState} (bindsOld : s.symbols.Binds module old kind here scope)
    (bindsFresh : s.symbols.Binds module fresh kind there scope') (ne : fresh ≠ old) (file : FileId)
    (outside : module.kind ≠ .function ∧ s.symbols.outermost.kind ≠ .function)
    {shift : Nat} (size : there.symbols.size = here.symbols.size + shift)
    {stand : String} (standNe : stand ≠ fresh)
    (kinds : ∀ name, Option.Rel (SymbolKind.Alike (Equiv.swap stand fresh)) (s.symbols.kind? name)
      (s.symbols.kind? name))
    (same : kind.Alike (Equiv.swap stand fresh) kind) (unknown : s.symbols.kind? fresh = none)
    (notFresh : fresh ∉ Builtin.reservedNames)
    (apart : s.symbols.kind? old = some kind ∨ s.symbols.members? old = none)
    (interface : kind.members?.isSome →
      old ∉ Builtin.reservedNames ∧ (s.symbols.kind? old ≠ some kind → stand = old))
    (types : ∀ place span, Ty.OptionAlike (Equiv.swap stand fresh) (s.types.typeAt place span)
      (s.types.typeAt place span)) {Stays : Prop} (stays : Stays → s.symbols.kind? old = some kind) :
    ∃ p : Rerun, p.toLocalName = ⟨old, fresh⟩ ∧ p.fresh = fresh ∧ p.Stays = Stays ∧
      (kind.members? = none → p.MayHide) ∧
      p.Alike [] { s with symbols := here } { s with symbols := there } := by
  obtain ⟨back, standsIn, keeps, plain⟩ := exists_standsIn bindsOld bindsFresh ne standNe kinds same
    unknown notFresh apart interface
  obtain ⟨p, names, isFresh, isBack, here, there, isStays, mayHide⟩ := exists_renamed bindsOld
    bindsFresh outside standsIn ne (Builtin.isWrapper_of_notMem notFresh) file size stays
  refine ⟨p, names, isFresh, isStays, fun none => mayHide ▸ plain none, ?_⟩
  refine p.alike_start here.symm there.symm .rfl fun place span => ?_
  rw [isBack]
  exact (types place span).self_of keeps

end Rerun

end ScriptToGo
