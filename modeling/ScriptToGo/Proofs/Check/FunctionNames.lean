import ScriptToGo.Proofs.Check.Noted
import ScriptToGo.Proofs.Module.TwoFiles

/-! All modules share the names of their functions, and of each name the first function counts. -/
namespace ScriptToGo

/-- The function that a statement declares under a name. -/
def Statement.functionNamed? (name : String) (s : Statement) : Option FunctionHead :=
  (s.function?.filter fun (head, _) => head.name?.any (·.text == name)).map Prod.fst

/-- The first function that a module declares under a name. -/
def Module.firstFunction? (m : Module) (name : String) : Option FunctionHead :=
  m.program.findSome? (Statement.functionNamed? name)

/-- The type of a function without parameters. -/
def Ty.isNullary : Ty → Bool
  | .function [] _ => true
  | _ => false

theorem Ty.eq_nil_of_isNullary {params : List Field} {returns : Ty}
    (h : (function params returns).isNullary = true) : params = [] := by
  cases params with
  | nil => rfl
  | cons => cases h

def Node.isIdent (name : String) : Node → Bool
  | .expression (.ident _ other) => other == name
  | _ => false

theorem Node.eq_of_isIdent {name : String} {n : Node} (h : n.isIdent name = true) :
    ∃ span, n = .expression (.ident span name) := by
  cases n with
  | expression e =>
    cases e with
    | ident span other =>
      obtain rfl : other = name := eq_of_beq h
      exact ⟨span, rfl⟩
    | _ => cases h
  | _ => cases h

namespace Statement

variable {s : Statement} {name : String} {head : FunctionHead}

theorem functionMeaning?_eq (file : FileId) (name : String) (s : Statement) :
    s.functionMeaning? file name = (s.functionNamed? name).map (.function file) := by
  rw [functionMeaning?, functionNamed?, Option.map_map]
  rfl

theorem exists_of_functionNamed? (is : s.functionNamed? name = some head) :
    ∃ hasBody declared, s.function? = some (head, hasBody) ∧ head.name? = some declared ∧
      declared.text = name := by
  obtain ⟨⟨_, hasBody⟩, found, rfl⟩ := Option.map_eq_some_iff.1 is
  obtain ⟨found, named⟩ := Option.filter_eq_some_iff.1 found
  obtain ⟨declared, is, same⟩ := (Option.any_eq_true _ _).1 named
  exact ⟨hasBody, declared, found, is, eq_of_beq same⟩

end Statement

namespace ModuleGraph

open Check

/-- The first function of a name in the order in which modules are found, and the module that it is
of. -/
def firstFunction? (g : ModuleGraph) (name : String) : Option (FileId × FunctionHead) :=
  g.modules.findSome? fun m => (m.firstFunction? name).map (m.id, ·)

/-- Every identifier of a module is seen from one place. If the module declares a function of that
name, and nothing hides it there, the identifier has the type of the first function of the name.
That is the module's own one if no module before it declares one. -/
structure ReadsFirst (g : ModuleGraph) (types : TypeTable) (m : Module) : Prop where
  covered : ∀ span name, Node.expression (.ident span name) ∈ m.program.nodes →
    ∃ sight, (sight, .expression (.ident span name)) ∈ g.outlooks m
  once : ((g.outlooks m).map fun v => v.2.span).Nodup
  first : ∀ sight span name own, m.firstFunction? name = some own →
    (sight, .expression (.ident span name)) ∈ g.outlooks m → sight.local? name = none →
      ∃ owner head params returns, g.firstFunction? name = some (owner, head) ∧
        types.typeAt m.id span = some (.function params returns) ∧
        g.SignatureStands head params returns
  own : ∀ before after name own, g.modules = before ++ m :: after →
    (∀ other ∈ before, other.firstFunction? name = none) → m.firstFunction? name = some own →
      g.firstFunction? name = some (m.id, own)

variable {g : ModuleGraph} {found : List (FileId × Statement)} {s : CheckState} {file : FileId}
  {name : Name} {head : FunctionHead}

/-- The first function of a name is what the name means, unless it means something else. -/
theorem findSome?_functionMeaning? (g : ModuleGraph) (name : String) :
    (g.declarations.findSome? fun d => d.2.functionMeaning? d.1 name)
      = (g.firstFunction? name).map fun first => .function first.1 first.2 := by
  have each (m : Module) :
      (m.program.map (m.id, ·)).findSome? (fun d => d.2.functionMeaning? d.1 name)
        = ((m.firstFunction? name).map (m.id, ·)).map fun first => .function first.1 first.2 := by
    rw [List.findSome?_map, Module.firstFunction?, Option.map_map, List.map_findSome?]
    exact congrArg (m.program.findSome? ·) (funext fun s => s.functionMeaning?_eq m.id name)
  rw [declarations, firstFunction?]
  induction g.modules with
  | nil => rfl
  | cons m rest ih =>
    rw [List.flatMap_cons, List.findSome?_append, List.findSome?_cons, each, ih]
    cases (m.firstFunction? name) <;> rfl

/-- A function with the name of something else is an error. -/
theorem failed_defineFunction (h : g.Gathering found s) {params : List Field} {returns : Ty}
    {hasBody : Bool} (taken : (typeMeaningIn g.declarations name.text).isSome) :
    ((defineFunction file name params returns hasBody).run s).2.Failed := by
  obtain ⟨meaning, is⟩ := Option.isSome_iff_exists.1 taken
  have fits := h.fits name.text
  rw [meaningAfter, is, Option.some_or] at fits
  rw [defineFunction]
  simp only [StateT.run_bind, StateT.run_get, pure_bind]
  rw [SymbolTable.lookupLocal_eq_lookup h.inner]
  split
  next free =>
    rw [SymbolTable.kind?, free, Option.bind_none] at fits
    cases fits
  next id named =>
    split
    next has =>
      rw [SymbolTable.kind?_eq_some_iff.2 ⟨id, _, named, has, rfl⟩] at fits
      cases fits
      exact (typeMeaningIn_ne_function is).elim
    · exact s.failed_report _

theorem failed_collectFunction (h : g.Gathering found s) {hasBody : Bool}
    (named : head.name? = some name) (taken : (typeMeaningIn g.declarations name.text).isSome) :
    ((collectFunction file head hasBody).run s).2.Failed := by
  rw [collectFunction_eq, named]
  refine (explores_collectParams h head.params).reaches fun params t h _ _ => ?_
  exact (explores_resolveOptional h head.returns?).reaches fun returns u h _ _ =>
    failed_defineFunction h taken

/-- Among some declarations that are collected, no function has the name of something else, unless
something is wrong. -/
structure Sorting (g : ModuleGraph) (found : List (FileId × Statement)) (s : CheckState) : Prop
    extends g.Gathering found s where
  taken : ∀ d ∈ found, ∀ name head, d.2.functionNamed? name = some head →
    (typeMeaningIn g.declarations name).isSome → s.Failed

theorem Sorting.collectDeclaration (h : g.Sorting found s) (file : FileId)
    (statement : Statement) : g.Sorting (found ++ [(file, statement)])
      ((Check.collectDeclaration file statement).run s).2 where
  toGathering := h.toGathering.collectDeclaration file statement
  taken := by
    refine List.forall_mem_append.2 ⟨fun d mem name head is known => ?_, ?_⟩
    · have grows := keeps_collectDeclaration CheckState.stepRelation_grows file statement
      exact (grows s).failed (h.taken d mem name head is known)
    · refine List.forall_mem_singleton.2 fun name head is known => ?_
      obtain ⟨hasBody, declared, function, named, rfl⟩ := Statement.exists_of_functionNamed? is
      have same : Check.collectDeclaration file statement = collectFunction file head hasBody := by
        cases statement with
        | function | overload =>
          cases function
          rfl
        | _ => cases function
      rw [same]
      exact failed_collectFunction h.toGathering named known

theorem sorting_collected (g : ModuleGraph) : g.Sorting g.declarations g.collected :=
  collect_reaches (fun _ h => ⟨h, List.forall_mem_nil _⟩) fun _ file statement _ h =>
    h.collectDeclaration file statement

/-- If nothing is wrong, a name under which some module declares a function means the first such
function. -/
theorem exists_firstFunction (fine : ¬g.collected.Failed) {m : Module} (hm : m ∈ g.modules)
    {name : String} {own : FunctionHead} (declares : m.firstFunction? name = some own) :
    ∃ owner head, g.firstFunction? name = some (owner, head) ∧
      g.meaning? name = some (.function owner head) := by
  obtain ⟨s, inside, named⟩ := List.exists_of_findSome?_eq_some declares
  have declared : (m.id, s) ∈ g.declarations :=
    List.mem_flatMap.2 ⟨m, hm, List.mem_map_of_mem inside⟩
  have noType : typeMeaningIn g.declarations name = none := by
    rw [← Option.not_isSome_iff_eq_none]
    exact fun taken => fine (g.sorting_collected.taken _ declared name own named taken)
  have some : (g.firstFunction? name).isSome := by
    refine List.findSome?_isSome_iff.2 ⟨m, hm, ?_⟩
    rw [declares]
    rfl
  obtain ⟨⟨owner, head⟩, first⟩ := Option.isSome_iff_exists.1 some
  refine ⟨owner, head, first, ?_⟩
  rw [meaning?, meaningAfter, noType, Option.none_or, findSome?_functionMeaning?, first]
  rfl

/-- In a program that has been loaded and is accepted, a name under which a module declares a
function stands for the first function of that name, whatever module it is of. -/
theorem first_function_read {s : Sources} {entry : Path} (loaded : load s entry = .ok g)
    {types : TypeTable} (accepted : g.check = .ok types) {m : Module} (hm : m ∈ g.modules) :
    g.ReadsFirst types m where
  covered _ _ := exists_sight
  once := (isNumbered_of_load loaded).outlooks_distinct hm
  first sight span name own declares seen visible := by
    have numbered := isNumbered_of_load loaded
    have checked := hasChecked numbered (fun _ mem => mem) numbered.ids
    have fine := (checked.not_failed (not_failed_of_check (accepted ▸ rfl))).1
    obtain ⟨owner, head, first, means⟩ := exists_firstFunction fine hm declares
    obtain ⟨type, is, suits⟩ := outlooks_hold loaded accepted hm seen
    have stands : g.binding? sight name = some (.shared (.function owner head)) := by
      rw [binding?, visible, Option.none_or, means]
      rfl
    obtain ⟨params, returns, rfl, stand⟩ := suits.name span name rfl owner head stands
    exact ⟨owner, head, params, returns, first, is, stand⟩
  own before after name own all none declares := by
    have skipped : before.findSome? (fun m => (m.firstFunction? name).map (m.id, ·)) = .none :=
      List.findSome?_eq_none_iff.2 fun other mem => Option.map_eq_none_iff.2 (none other mem)
    rw [firstFunction?, all, List.findSome?_append, skipped, Option.none_or, List.findSome?_cons,
      declares]
    rfl

/-- A file that imports another one, which declares a function of the same name and mentions it. -/
def firstSource : String := "import './b'\nfunction f(): void \x7b\x7d\n"

def secondSource : String := "function f(n: number): void \x7b\x7d\nf;\n"

def twiceGraph : ModuleGraph := .ofTexts ⟨"main.ts"⟩ firstSource "./b" ⟨"b.ts"⟩ secondSource

def twiceTypes : TypeTable := twiceGraph.check.toOption.getD .empty

/-- The module that the entry imports. -/
def secondModule : Module := ⟨1, ⟨"b.ts"⟩, secondSource, programOf secondSource, []⟩

theorem twice_loads :
    load (.ofFiles [(⟨"main.ts"⟩, firstSource), (⟨"b.ts"⟩, secondSource)] []) ⟨"main.ts"⟩
      = .ok twiceGraph :=
  load_ofTexts rfl rfl (by decide +kernel) rfl (by decide +kernel) rfl (by decide +kernel)

theorem twice_checks : twiceGraph.check = .ok twiceTypes :=
  eq_ok_of_isSome TypeTable.empty (by decide +kernel)

theorem secondModule_mem : secondModule ∈ twiceGraph.modules := .tail _ (.head _)

/-- What the second file mentions is the function of the first one. -/
theorem twice_reads_first :
    load (.ofFiles [(⟨"main.ts"⟩, firstSource), (⟨"b.ts"⟩, secondSource)] []) ⟨"main.ts"⟩
        = .ok twiceGraph ∧
      twiceGraph.check = .ok twiceTypes ∧ secondModule ∈ twiceGraph.modules ∧
      twiceGraph.ReadsFirst twiceTypes secondModule :=
  ⟨twice_loads, twice_checks, secondModule_mem,
    first_function_read twice_loads twice_checks secondModule_mem⟩

/-- The type that is found is not that of the function which the second file declares. -/
theorem twice_not_own :
    load (.ofFiles [(⟨"main.ts"⟩, firstSource), (⟨"b.ts"⟩, secondSource)] []) ⟨"main.ts"⟩
        = .ok twiceGraph ∧
      twiceGraph.check = .ok twiceTypes ∧ secondModule ∈ twiceGraph.modules ∧
      ∃ own, secondModule.firstFunction? "f" = some own ∧ ∃ sight span,
        (sight, .expression (.ident span "f")) ∈ twiceGraph.outlooks secondModule ∧
          sight.local? "f" = none ∧ ¬∃ params returns,
            twiceTypes.typeAt secondModule.id span = some (.function params returns) ∧
              twiceGraph.SignatureStands own params returns := by
  refine ⟨twice_loads, twice_checks, secondModule_mem, ?_⟩
  have declares : (secondModule.firstFunction? "f").any (·.params.length == 1) = true := by
    decide +kernel
  have mentions : (twiceGraph.outerOutlooks 1 [[]] secondModule.program).any (fun v =>
      v.2.isIdent "f" && (v.1.local? "f").isNone
        && (twiceTypes.typeAt 1 v.2.span).any Ty.isNullary) = true := by decide +kernel
  obtain ⟨own, declares, one⟩ := (Option.any_eq_true _ _).1 declares
  obtain ⟨⟨sight, n⟩, outer, mentions⟩ := List.any_eq_true.1 mentions
  obtain ⟨mentions, nullary⟩ := Bool.and_eq_true_iff.1 mentions
  obtain ⟨ident, visible⟩ := Bool.and_eq_true_iff.1 mentions
  obtain ⟨span, rfl⟩ := Node.eq_of_isIdent ident
  obtain ⟨type, is, nullary⟩ := (Option.any_eq_true _ _).1 nullary
  refine ⟨own, declares, sight, span, mem_outlooks outer, Option.isNone_iff_eq_none.1 visible, ?_⟩
  rintro ⟨params, returns, is', stands⟩
  obtain rfl := Option.some.inj (is.symm.trans is')
  rw [stands.params.length_eq, Ty.eq_nil_of_isNullary nullary] at one
  cases one

end ModuleGraph

end ScriptToGo
