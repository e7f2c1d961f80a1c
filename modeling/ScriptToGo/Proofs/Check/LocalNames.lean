import Mathlib.Data.Fintype.EquivFin
import ScriptToGo.Proofs.Check.ImportedNames
import ScriptToGo.Proofs.Check.Untouched
import ScriptToGo.Proofs.Module.TwoFiles

/-! Whatever local name an import has, the same modules are accepted. -/
namespace ScriptToGo

namespace Check

variable {p : Rerun} {file : FileId}

/-- Looking at what has been recorded changes nothing. -/
theorem state_recordedParams (owner : FileId) (params : List Param) (s : CheckState) :
    ((recordedParams owner params).run s).2 = s := by
  induction params with
  | nil => rfl
  | cons q rest ih => exact ih

theorem state_recordedReturns (owner : FileId) (head : FunctionHead) (s : CheckState) :
    ((recordedReturns owner head).run s).2 = s := by
  rw [recordedReturns]
  split <;> rfl

theorem state_bindImported (name : Name) (owner : FileId) (head : FunctionHead) (hasBody : Bool)
    (s : CheckState) : ((bindImported file name owner head hasBody).run s).2
      = { s with
          symbols := s.symbols.define name.text (.function ((recordedParams owner head.params).run s).1
            ((recordedReturns owner head).run s).1 hasBody) name.span (some file) } := by
  have work : ((bindImported file name owner head hasBody).run s).2
      = ((define file name.text (.function ((recordedParams owner head.params).run s).1
          ((recordedReturns owner head).run ((recordedParams owner head.params).run s).2).1 hasBody)
            name.span).run
          ((recordedReturns owner head).run ((recordedParams owner head.params).run s).2).2).2 := rfl
  rw [work, state_recordedParams, state_recordedReturns]
  rfl

theorem forM_append {α : Type} (list more : List α) (f : α → Check PUnit) :
    (list ++ more).forM f = (do list.forM f; more.forM f) := List.forM_append

theorem forM_cons {α : Type} (a : α) (rest : List α) (f : α → Check PUnit) :
    (a :: rest).forM f = (do f a; rest.forM f) := rfl

/-- An import may be read as three: what it lists before a name, the name, and what it lists after
it. -/
theorem checkImport_split {g : ModuleGraph} {specifier : Name} {m : Module}
    (resolved : g.resolveImport file specifier.text = some m) (default? whole? : Option Name)
    (earlier : List ImportedName) (entry : ImportedName) (later : List ImportedName) :
    checkImport g file ⟨default?, whole?, earlier ++ entry :: later, specifier⟩ = (do
      checkImport g file ⟨default?, whole?, earlier, specifier⟩
      checkImportedName file specifier.text m entry
      checkImport g file ⟨none, none, later, specifier⟩) := by
  have none (f : Name → Check PUnit) (rest : Check PUnit) :
      (do (none : Option Name).forM f; rest) = rest := rfl
  simp only [checkImport, resolved, forM_append, forM_cons, bind_assoc, none]

theorem checkProgram_split {g : ModuleGraph} {l : ListedName} {m : Module}
    (resolved : g.resolveImport file l.specifier.text = some m) :
    l.program.forM (checkTopLevel g file) = (do
      l.first.forM (checkTopLevel g file)
      checkImportedName file l.specifier.text m l.entry
      l.rest.forM (checkTopLevel g file)) := by
  rw [ListedName.program, ListedName.first, ListedName.rest, forM_append, forM_append, forM_cons,
    checkTopLevel, checkImport_split resolved]
  rfl

end Check

/-- What exports a type declares it. -/
theorem Statement.typeMeaning?_of_export? {s : Statement} {name other : String}
    (h : s.export? name = some (.type other)) : (s.typeMeaning? name).isSome := by
  have named {isExported : Bool} {text : String} {e : Export}
      (h : (if isExported && text == name then some e else none) = some (.type other)) :
      text = name := by
    split at h
    next shown => exact beq_iff_eq.1 (Bool.and_eq_true_iff.1 shown).2
    next => cases h
  rw [export?.eq_def] at h
  split at h
  next =>
    rw [typeMeaning?, if_pos (named h)]
    rfl
  next =>
    rw [typeMeaning?, if_pos (named h)]
    rfl
  next =>
    split at h
    · split at h <;> cases h
    · cases h

namespace Check

variable {p : Rerun} {file : FileId} {s : CheckState} {m : Module} {entry : ImportedName}

/-- What an import binds to its local name: something that does not depend on this, unless the import
is that of a type under its own name. -/
theorem exists_bound (file : FileId) (h : p.Alike [] s s)
    (kinds : ∀ name, Option.Rel (SymbolKind.Alike p.back) (s.symbols.kind? name) (s.symbols.kind? name))
    (exported : (m.program.findSome? (Statement.export? entry.imported)).isSome)
    (known : m.ExportsType entry.imported → (s.symbols.kind? entry.imported).isSome)
    (specifier : String) : ∃ kind : SymbolKind, kind.Alike p.back kind ∧
      (m.ExportsType entry.imported → s.symbols.kind? entry.imported = some kind) ∧
      (kind.members?.isSome → m.ExportsType entry.imported) ∧
      ∀ localName, let t := ((checkImportedName file specifier m { entry with localName }).run s).2
        (m.ExportsType entry.imported ∧ localName = entry.imported → t = s) ∧
        (¬(m.ExportsType entry.imported ∧ localName = entry.imported) →
          t = { s with symbols := s.symbols.define localName kind entry.span (some file) }) := by
  obtain ⟨exported, found⟩ := Option.isSome_iff_exists.1 exported
  match exported with
  | .function head hasBody =>
    have noType : ¬m.ExportsType entry.imported := fun is => by cases found.symm.trans is
    obtain ⟨⟨params, -⟩, -⟩ := agrees_recordedParams m.id head.params s s h
    obtain ⟨returns, -⟩ := agrees_recordedReturns m.id head s s h
    let kind : SymbolKind := .function ((recordedParams m.id head.params).run s).1
      ((recordedReturns m.id head).run s).1 hasBody
    have same : kind.Alike p.back kind := .function params returns
    refine ⟨kind, same, fun is => (noType is).elim, by simp [kind, SymbolKind.members?],
      fun localName => ?_⟩
    rw [checkImportedName, found]
    exact ⟨fun is => (noType is.1).elim, fun _ => state_bindImported _ _ _ _ _⟩
  | .type name =>
    obtain ⟨_, -, shown⟩ := List.exists_of_findSome?_eq_some found
    obtain rfl := Statement.typeName_of_export? shown
    obtain ⟨kind, is⟩ := Option.isSome_iff_exists.1 (known found)
    have same := kinds entry.imported
    rw [is] at same
    cases same with
    | some same =>
      refine ⟨kind, same, fun _ => is, fun _ => found, fun localName => ?_⟩
      rw [checkImportedName, found]
      dsimp only
      constructor
      · intro own
        rw [if_neg (not_not_intro own.2)]
        rfl
      · intro other
        rw [if_pos fun own => other ⟨found, own⟩]
        have looked : (kind? entry.imported).run s = (some kind, s) := congrArg (·, s) is
        rw [StateT.run_bind, looked]
        rfl

end Check

/-- A name means nothing in any module, and a program has no other use for it. -/
structure ModuleGraph.IsFresh (g : ModuleGraph) (program : Program) (name : String) : Prop where
  unknown : g.meaning? name = none
  plain : name ∉ Builtin.reservedNames
  avoided : ∀ s ∈ program, s.Avoids name

instance (g : ModuleGraph) (program : Program) (name : String) : Decidable (g.IsFresh program name) :=
  decidable_of_iff
    (g.meaning? name = none ∧ name ∉ Builtin.reservedNames ∧ ∀ s ∈ program, s.Avoids name)
    ⟨fun ⟨unknown, plain, avoided⟩ => ⟨unknown, plain, avoided⟩,
      fun ⟨unknown, plain, avoided⟩ => ⟨unknown, plain, avoided⟩⟩

namespace ListedName

/-- What is imported is a type, and it keeps its name. -/
def KeepsName (l : ListedName) (m : Module) : Prop :=
  m.ExportsType l.entry.imported ∧ l.entry.localName = l.entry.imported

/-- What is imported may be an interface: one has the name, or the importing module itself has given it
to something else before. -/
def MayBeInterface (l : ListedName) (g : ModuleGraph) (m : Module) : Prop :=
  m.ExportsType l.entry.imported ∧
    (l.entry.imported ∈ g.interfaceNames ∨ ∃ s ∈ l.first, l.entry.imported ∈ s.topNames)

/-- Nothing else in a program is taken for the import, and the import for nothing else. -/
structure IsApart (l : ListedName) (g : ModuleGraph) (file : FileId) (m : Module) : Prop where
  /-- Nothing else is declared under the name at the top level. -/
  bound : ∀ s ∈ l.first ++ l.rest, l.entry.localName ∉ s.topNames
  /-- What the module shows to others does not mention it. -/
  shown : ∀ s ∈ l.after, ∀ n ∈ s.shownNodes.flatMap Node.all, l.entry.localName ∉ n.mentions
  /-- It is not the name of an interface, nor that of a type to be imported later. -/
  other : ¬l.KeepsName m → l.entry.localName ∉ g.interfaceNames ∧
    ∀ s ∈ l.rest, ¬g.ImportsType file s l.entry.localName
  /-- The name of what may be an interface always stands for that in the module. -/
  interface : l.MayBeInterface g m → l.entry.localName ∉ Builtin.reservedNames ∧
    ∀ s ∈ l.first ++ l.rest, l.entry.localName ∉ s.localDeclared

variable {l : ListedName} {name : String}

/-- The first name that the import at the head of a program lists. -/
def ofHead? : Program → Option ListedName
  | .importing span ⟨default?, whole?, entry :: later, specifier⟩ :: after =>
    some ⟨[], span, default?, whole?, specifier, [], entry, later, after⟩
  | _ => none

theorem program_of_ofHead? {program : Program} (h : ofHead? program = some l) :
    l.program = program := by
  rw [ofHead?.eq_def] at h
  split at h
  · cases h
    rfl
  · cases h

theorem avoids_importing {span : Span} {decl decl' : ImportDecl}
    (h : (Statement.importing span decl).Avoids name) (default? : decl'.default?.toList ⊆ decl.default?.toList)
    (named : decl'.named ⊆ decl.named) : (Statement.importing span decl').Avoids name where
  mentioned := h.mentioned
  declared := h.declared
  top mem := by
    refine h.top ?_
    rcases List.mem_append.1 mem with mem | mem
    · exact List.mem_append_left _ (List.map_subset _ default? mem)
    · exact List.mem_append_right _ (List.map_subset _ named mem)
  imported mem := h.imported (List.map_subset _ named mem)

/-- A name that a program does not use is none of the import, and no other part of it uses it. -/
theorem avoids_parts (h : ∀ s ∈ l.program, s.Avoids name) :
    (∀ s ∈ l.first, s.Avoids name) ∧ (∀ s ∈ l.rest, s.Avoids name) ∧
      l.entry.imported ≠ name ∧ l.entry.localName ≠ name := by
  obtain ⟨before, importing⟩ := List.forall_mem_append.1 h
  obtain ⟨importing, after⟩ := List.forall_mem_cons.1 importing
  have listed : l.entry ∈ l.earlier ++ l.entry :: l.later := by simp
  refine ⟨?_, ?_, ?_, ?_⟩
  · refine List.forall_mem_append.2 ⟨before, List.forall_mem_singleton.2 ?_⟩
    exact avoids_importing importing (List.Subset.refl _) (List.subset_append_left _ _)
  · refine List.forall_mem_cons.2 ⟨?_, after⟩
    refine avoids_importing importing (List.nil_subset _) ?_
    exact List.Subset.trans (List.subset_cons_self _ _) (List.subset_append_right _ _)
  · exact fun is => importing.imported (is ▸ List.mem_map_of_mem listed)
  · exact fun is => importing.top (is ▸ List.mem_append_right _ (List.mem_map_of_mem listed))

end ListedName

namespace ModuleGraph

open Check

variable {g : ModuleGraph} {name fresh : String} {file : FileId} {statements : List Statement}

/-- At the top level of a module, names that statements do not define stand for what they did before. -/
theorem kind?_checkedUpTo (file : FileId) (avoided : ∀ s ∈ statements, s.Avoids fresh)
    (plain : fresh ∉ Builtin.reservedNames) (ne : fresh ≠ name)
    (top : ∀ s ∈ statements, name ∉ s.topNames) :
    (g.checkedUpTo file statements).symbols.kind? name = g.collected.symbols.kind? name ∧
      (g.checkedUpTo file statements).symbols.kind? fresh = g.collected.symbols.kind? fresh := by
  obtain ⟨p, rfl, rfl, -, here, -, same⟩ := exists_twice (g := g) (takesAmong_id name fresh)
    Function.injective_id ne plain (fun _ _ => rfl) file ⟨avoided, top, fun _ _ _ _ => rfl⟩
  exact ⟨(same.kind?_unused (.inl rfl)).trans (here ▸ kind?_entered),
    (same.kind?_unused (.inr rfl)).trans (here ▸ kind?_entered)⟩

/-- There is always another name that is not in use. -/
theorem exists_unused (g : ModuleGraph) (fresh : String) (statements : List Statement) :
    ∃ name, fresh ≠ name ∧ name ∉ Builtin.reservedNames ∧ name ∉ g.interfaceNames ∧
      (∀ s ∈ statements, name ∉ s.topNames) ∧ ∀ s ∈ statements, name ∉ s.localDeclared := by
  obtain ⟨name, unused⟩ := Infinite.exists_notMem_finset (fresh :: (Builtin.reservedNames ++
    (g.interfaceNames ++ statements.flatMap fun s => s.topNames ++ s.localDeclared))).toFinset
  simp only [List.mem_toFinset, List.mem_cons, List.mem_append, List.mem_flatMap, not_or, not_exists,
    not_and] at unused
  exact ⟨name, Ne.symm unused.1, unused.2.1, unused.2.2.1, fun s mem => (unused.2.2.2 s mem).1,
    fun s mem => (unused.2.2.2 s mem).2⟩

/-- An exported type is known wherever it may be imported. -/
theorem kind?_isSome_of_exportsType {m : Module} (mem : m ∈ g.modules) (exported : m.ExportsType name)
    {s : CheckState} (outermost : s.symbols.outermost = g.collected.symbols.outermost) :
    (s.symbols.kind? name).isSome := by
  obtain ⟨statement, inside, shown⟩ := List.exists_of_findSome?_eq_some exported
  have known := meaning?_isSome mem inside (Statement.typeMeaning?_of_export? shown)
  rw [← kind?_collected_isSome] at known
  obtain ⟨kind, is⟩ := Option.isSome_iff_exists.1 known
  obtain ⟨id, _, named, -⟩ := SymbolTable.kind?_eq_some_iff.1 is
  rw [SymbolTable.lookup_eq, SymbolTable.scopes, inner_collected, List.nil_append,
    List.findSome?_singleton] at named
  have found : (s.symbols.lookup name).isSome := by
    rw [SymbolTable.lookup_eq, SymbolTable.scopes, List.findSome?_append, List.findSome?_singleton,
      outermost, named, Option.isSome_or, Option.isSome_some, Bool.or_true]
  obtain ⟨id, found⟩ := Option.isSome_iff_exists.1 found
  obtain ⟨symbol, has⟩ := SymbolTable.exists_symbol found
  rw [SymbolTable.kind?_eq_some_iff.2 ⟨id, symbol, found, has, rfl⟩]
  rfl

/-- Right before the import, nothing is known in which another name could be taken for the fresh one;
nor for the old one, if what is imported may be an interface. -/
theorem exists_before {l : ListedName} {m : Module} (isFresh : g.IsFresh l.program name)
    {file : FileId} (apart : l.IsApart g file m) :
    ∃ (p : Rerun) (stand : String), p.back = Equiv.swap stand name ∧ stand ≠ name ∧ p.Stays ∧
      p.here = g.entered.symbols ∧ p.fresh = name ∧
      p.Alike [] (g.checkedUpTo file l.first) (g.checkedUpTo file l.first) ∧
      (l.MayBeInterface g m → ¬l.KeepsName m → stand = l.entry.localName) := by
  obtain ⟨avoided, -, -, ne⟩ := ListedName.avoids_parts isFresh.avoided
  have noInterface := notMem_interfaceNames isFresh.unknown
  have swapped {stand : String} (notInterface : stand ∉ g.interfaceNames) :
      ∀ other ∈ g.interfaceNames, Equiv.swap stand name other = other := fun other mem =>
    Equiv.swap_apply_of_ne_of_ne (fun is => notInterface (is ▸ mem)) fun is => noInterface (is ▸ mem)
  obtain ⟨stand, ne, plain, notInterface, top, declared, is⟩ : ∃ stand, name ≠ stand ∧
      stand ∉ Builtin.reservedNames ∧ stand ∉ g.interfaceNames ∧
      (∀ s ∈ l.first, stand ∉ s.topNames) ∧ (∀ s ∈ l.first, stand ∉ s.localDeclared) ∧
      (l.MayBeInterface g m → ¬l.KeepsName m → stand = l.entry.localName) := by
    by_cases both : l.MayBeInterface g m ∧ ¬l.KeepsName m
    · obtain ⟨plain, declared⟩ := apart.interface both.1
      exact ⟨_, ne.symm, plain, (apart.other both.2).1,
        fun s mem => apart.bound s (List.mem_append_left _ mem),
        fun s mem => declared s (List.mem_append_left _ mem), fun _ _ => rfl⟩
    · obtain ⟨stand, ne, plain, notInterface, top, declared⟩ := g.exists_unused name l.first
      exact ⟨stand, ne, plain, notInterface, top, declared, fun may keeps => (both ⟨may, keeps⟩).elim⟩
  obtain ⟨p, -, is', back, here, stays, same⟩ := exists_twice (takesAmong_swap plain isFresh.plain)
    (Equiv.injective _) ne isFresh.plain (swapped notInterface) file
    ⟨avoided, top, fun s mem is => (declared s mem is).elim⟩
  exact ⟨p, stand, back, ne.symm, stays, here, is', same, is⟩

/-- What stands for an imported type, right before the import, has members only if that may be an
interface. -/
theorem mayBeInterface_of_members? {l : ListedName} {m : Module} (isFresh : g.IsFresh l.program name)
    {file : FileId} (isType : m.ExportsType l.entry.imported) {kind : SymbolKind}
    (known : (g.checkedUpTo file l.first).symbols.kind? l.entry.imported = some kind)
    (members : kind.members?.isSome) : l.MayBeInterface g m := by
  obtain ⟨avoided, -, ne, -⟩ := ListedName.avoids_parts isFresh.avoided
  refine ⟨isType, ?_⟩
  by_contra neither
  obtain ⟨notInterface, unbound⟩ := not_or.1 neither
  have own := (kind?_checkedUpTo (g := g) file avoided isFresh.plain ne.symm
    fun s mem bound => unbound ⟨s, mem, bound⟩).1
  have none := members?_collected notInterface
  rw [SymbolTable.members?, ← own, known, Option.bind_some] at none
  rw [none] at members
  cases members

section

variable {l : ListedName} {m : Module} (mem : m ∈ g.modules)
  (exported : (m.program.findSome? (Statement.export? l.entry.imported)).isSome)
  (isFresh : g.IsFresh l.program name) (apart : l.IsApart g file m)
include mem exported isFresh apart

/-- After the import, two runs go on alike, with the old name and with the fresh one. -/
theorem exists_rerun (specifier : String) :
    ∃ p : Rerun, p.toLocalName = ⟨l.entry.localName, name⟩ ∧ p.fresh = name ∧
      (l.KeepsName m → p.Stays) ∧ (¬l.MayBeInterface g m → p.MayHide) ∧
      p.Alike [] ((checkImportedName file specifier m l.entry).run (g.checkedUpTo file l.first)).2
        ((checkImportedName file specifier m { l.entry with localName := name }).run
          (g.checkedUpTo file l.first)).2 := by
  obtain ⟨avoided, -, neImported, neOld⟩ := ListedName.avoids_parts isFresh.avoided
  obtain ⟨before, stand, isSwap, standNe, stays, here, rfl, same, stands⟩ :=
    exists_before isFresh apart
  have bound : ∀ s ∈ l.first, l.entry.localName ∉ s.topNames := fun s mem =>
    apart.bound s (List.mem_append_left _ mem)
  obtain ⟨kindOld, kindFresh⟩ := kind?_checkedUpTo (g := g) file avoided isFresh.plain
    neOld.symm bound
  rw [kind?_collected_of_meaning? isFresh.unknown] at kindFresh
  obtain ⟨module, inner, moduleKind⟩ := same.exists_module
  have outermost : (g.checkedUpTo file l.first).symbols.outermost = g.collected.symbols.outermost := by
    rw [same.tables.outermost, here, outermost_entered]
  have outside : module.kind ≠ .function ∧
      (g.checkedUpTo file l.first).symbols.outermost.kind ≠ .function := by
    rw [outermost, outermost_kind_collected]
    exact ⟨moduleKind, nofun⟩
  have kinds := same.kinds_self stays (by
    rw [here, kind?_entered, kind?_collected_of_meaning? isFresh.unknown])
  obtain ⟨kind, alike, known, isType, bind⟩ := exists_bound file same kinds exported
    (fun is => kind?_isSome_of_exportsType mem is outermost) specifier
  have mayBe (interface : kind.members?.isSome) : l.MayBeInterface g m :=
    mayBeInterface_of_members? isFresh (isType interface) (known (isType interface)) interface
  generalize g.checkedUpTo file l.first = s at *
  rw [isSwap] at kinds alike
  have old : s.symbols.kind? l.entry.localName = some kind ∨
      s.symbols.members? l.entry.localName = none := by
    by_cases keeps : l.KeepsName m
    · rw [keeps.2]
      exact .inl (known keeps.1)
    · refine .inr ?_
      rw [SymbolTable.members?, kindOld]
      exact members?_collected (apart.other keeps).1
  have interface (is : kind.members?.isSome) : l.entry.localName ∉ Builtin.reservedNames ∧
      (s.symbols.kind? l.entry.localName ≠ some kind → stand = l.entry.localName) :=
    ⟨(apart.interface (mayBe is)).1, fun notOwn => stands (mayBe is) fun keeps =>
      notOwn (keeps.2 ▸ known keeps.1)⟩
  have binds (localName : String) : s.symbols.Binds module localName kind
      (s.symbols.define localName kind l.entry.span (some file)) _ :=
    SymbolTable.binds_define inner l.entry.span (some file)
  have sizes : (s.symbols.define before.fresh kind l.entry.span (some file)).symbols.size
        = s.symbols.symbols.size + 1 ∧
      (s.symbols.define before.fresh kind l.entry.span (some file)).symbols.size
        = (s.symbols.define l.entry.localName kind l.entry.span (some file)).symbols.size + 0 := by
    simp [SymbolTable.symbols_define]
  have found {here there : SymbolTable} {scope scope' : Scope}
      (bindsOld : s.symbols.Binds module l.entry.localName kind here scope)
      (bindsFresh : s.symbols.Binds module before.fresh kind there scope') {shift : Nat}
      (size : there.symbols.size = here.symbols.size + shift) :
      ∃ p : Rerun, p.toLocalName = ⟨l.entry.localName, before.fresh⟩ ∧ p.fresh = before.fresh ∧
        (l.KeepsName m → p.Stays) ∧ (¬l.MayBeInterface g m → p.MayHide) ∧
        p.Alike [] { s with symbols := here } { s with symbols := there } := by
    obtain ⟨p, names, fresh, isStays, mayHide, same⟩ := Rerun.exists_alike bindsOld bindsFresh
      neOld.symm file outside size standNe kinds alike kindFresh isFresh.plain old interface
      (fun place span => isSwap ▸ same.types place span)
      fun keeps : l.KeepsName m => keeps.2 ▸ known keeps.1
    exact ⟨p, names, fresh, fun keeps => isStays ▸ keeps,
      fun none => mayHide (Option.not_isSome_iff_eq_none.1 (mt mayBe none)), same⟩
  have bindOld := bind l.entry.localName
  rw [(bind before.fresh).2 fun own => neImported own.2.symm]
  by_cases keeps : l.KeepsName m
  · rw [bindOld.1 keeps]
    exact found (SymbolTable.binds_self inner (keeps.2 ▸ known keeps.1)) (binds _) sizes.1
  · rw [bindOld.2 keeps]
    exact found (binds _) (binds _) sizes.2

/-- Whatever local name an import has, something is wrong with the module or not. -/
theorem errors_renamed (resolved : g.resolveImport file l.specifier.text = some m) :
    (g.checkedUpTo file (l.renamed name).program).errors = []
      ↔ (g.checkedUpTo file l.program).errors = [] := by
  obtain ⟨-, avoided, -⟩ := ListedName.avoids_parts isFresh.avoided
  obtain ⟨p, names, fresh, stays, mayHide, alike⟩ :=
    exists_rerun mem exported isFresh apart l.specifier.text
  have isOld : p.old = l.entry.localName := congrArg LocalName.old names
  have passes : ∀ s ∈ l.rest, p.Passes g file s := by
    intro s inside
    have within : s ∈ l.first ++ l.rest := List.mem_append_right _ inside
    refine p.passes (fresh ▸ avoided s inside) (isOld ▸ apart.bound s within) (fun declared => ?_)
      fun listed => ?_
    · exact mayHide fun may => (apart.interface may).2 s within (isOld ▸ declared)
    · by_contra notStays
      exact (apart.other (mt stays notStays)).2 s inside (isOld ▸ listed)
  have after := (agrees_program g l.rest passes _ _ alike).2.errors
  have rest : (l.renamed name).rest = Statement.renamedAll p.toLocalName [] l.rest := by
    rw [names]
    rfl
  rw [checkedUpTo, checkedUpTo, checkProgram_split resolved,
    checkProgram_split (l := l.renamed name) resolved, rest]
  exact after.symm

end

/-- What is wrong with a module that is checked alone. -/
theorem errors_checkedAfter (g : ModuleGraph) (m : Module) :
    (g.checkedAfter [m]).errors = (g.checkedUpTo m.id m.program).errors := rfl

/-- Whatever local name an import has, the same programs are accepted. -/
theorem isOk_check_renamed {s : Sources} {entry : Path} (loaded : load s entry = .ok g) {u m : Module}
    (mem : u ∈ g.modules) {l : ListedName} (isProgram : u.program = l.program)
    (resolved : g.resolveImport u.id l.specifier.text = some m)
    (exported : (m.program.findSome? (Statement.export? l.entry.imported)).isSome)
    (isFresh : g.IsFresh l.program name) (apart : l.IsApart g u.id m) :
    (g.withProgram u.id (l.renamed name).program).check.isOk = g.check.isOk := by
  have numbered := isNumbered_of_load loaded
  have same : (l.renamed name).program.map Statement.shown = u.program.map Statement.shown := by
    rw [isProgram]
    exact l.shown_renamed name apart.shown
  have spans : (l.renamed name).program.nodes.map Node.span = u.program.nodes.map Node.span := by
    rw [isProgram]
    exact l.spans_renamed name
  have collected : (g.withProgram u.id (l.renamed name).program).collected = g.collected := by
    rw [ModuleGraph.collected, collect_withProgram numbered.ids mem same]
    rfl
  have numbered' := isNumbered_withProgram numbered.ids mem same numbered spans
  rw [Bool.eq_iff_iff, isOk_check_iff numbered', isOk_check_iff numbered, collected]
  refine and_congr_right fun _ => ?_
  rw [modules_withProgram, List.forall_mem_map]
  refine forall₂_congr fun other among => ?_
  have checked (program : Program) :
      ((g.withProgram u.id (l.renamed name).program).checkedUpTo other.id program)
        = g.checkedUpTo other.id program := by
    rw [checkedUpTo, checkedUpTo, checkTopLevel_withProgram numbered.ids mem same, entered, entered,
      collected]
  rw [errors_checkedAfter, errors_checkedAfter, id_replaced, checked, replaced]
  split
  next is =>
    obtain rfl : other = u := List.inj_on_of_nodup_map numbered.ids among mem is
    rw [isProgram]
    exact errors_renamed (mem_modules_of_resolveImport resolved) exported isFresh apart resolved
  · rfl

/-- The graph of an entry file that imports the file next to it. -/
def ofNeighbours (text text' : String) : ModuleGraph :=
  .ofTexts ⟨"main.ts"⟩ text "./b" ⟨"b.ts"⟩ text'

/-- All that the first file imports is the second one, which imports nothing. -/
def AreNeighbours (text text' : String) : Prop :=
  (Program.ofSource text).toOption.map (·.imports.map (·.specifier.text)) = some ["./b"] ∧
    (Program.ofSource text').toOption.map (·.imports.map (·.specifier.text)) = some []

instance (text text' : String) : Decidable (AreNeighbours text text') :=
  inferInstanceAs (Decidable (_ ∧ _))

theorem load_ofNeighbours {text text' : String} (h : AreNeighbours text text') :
    load (.ofFiles [(⟨"main.ts"⟩, text), (⟨"b.ts"⟩, text')] []) ⟨"main.ts"⟩
      = .ok (ofNeighbours text text') := by
  have differ : (⟨"b.ts"⟩ : Path).normalize.steps ≠ (⟨"main.ts"⟩ : Path).normalize.steps := by
    decide +kernel
  refine load_ofTexts rfl ?_ h.1 rfl (by decide +kernel) ?_ h.2
  · simp [Sources.ofFiles, Sources.heldText?, differ]
  · simp [Sources.ofFiles, Sources.heldText?]

/-- A local name for what a module exports, and a name that means nothing. -/
def MayRename (g : ModuleGraph) (file : FileId) (l : ListedName) (name : String) : Prop :=
  (∃ m ∈ g.resolveImport file l.specifier.text,
    (m.program.findSome? (Statement.export? l.entry.imported)).isSome) ∧ g.IsFresh l.program name

instance (g : ModuleGraph) (file : FileId) (l : ListedName) (name : String) :
    Decidable (g.MayRename file l name) := inferInstanceAs (Decidable (_ ∧ _))

def labelSource : String :=
  "import \x7b T as U, f \x7d from './b';\nfunction g(): void \x7b\n  let u: U = f();\n  u.x;\n\x7d\n"

def labelledSource : String :=
  "export interface T \x7b x: number \x7d\nexport function f(): T \x7b return \x7b x: 1 \x7d; \x7d\n"

/-- The graph of a file that imports an interface under another name. -/
def labelGraph : ModuleGraph := .ofNeighbours labelSource labelledSource

theorem label_renamed : load (.ofFiles [(⟨"main.ts"⟩, labelSource), (⟨"b.ts"⟩, labelledSource)] [])
      ⟨"main.ts"⟩ = .ok labelGraph ∧
    ∃ l : ListedName, programOf labelSource = l.program ∧ l.entry.imported = "T" ∧
      l.entry.localName = "U" ∧ labelGraph.check.isOk = true ∧
      (labelGraph.withProgram 0 (l.renamed "V").program).check.isOk = labelGraph.check.isOk := by
  obtain ⟨neighbours, l, found, imported, localName, ⟨⟨m, resolved, exported⟩, isFresh⟩, bound, shown,
      plain, declared, notInterface, unlisted, accepted⟩ :
      AreNeighbours labelSource labelledSource ∧ ∃ l ∈ ListedName.ofHead? (programOf labelSource),
        l.entry.imported = "T" ∧ l.entry.localName = "U" ∧ labelGraph.MayRename 0 l "V" ∧
        (∀ s ∈ l.first ++ l.rest, l.entry.localName ∉ s.topNames) ∧
        (∀ s ∈ l.after, ∀ n ∈ s.shownNodes.flatMap Node.all, l.entry.localName ∉ n.mentions) ∧
        l.entry.localName ∉ Builtin.reservedNames ∧
        (∀ s ∈ l.first ++ l.rest, l.entry.localName ∉ s.localDeclared) ∧
        l.entry.localName ∉ labelGraph.interfaceNames ∧
        (∀ s ∈ l.rest, l.entry.localName ∉ s.importedNames) ∧ labelGraph.check.isOk = true := by
    decide +kernel
  have loaded := load_ofNeighbours neighbours
  have isProgram : programOf labelSource = l.program := (ListedName.program_of_ofHead? found).symm
  have other : ∀ s ∈ l.rest, ¬labelGraph.ImportsType 0 s l.entry.localName :=
    fun s mem ⟨_, _, _, _, listed, _⟩ => unlisted s mem listed
  exact ⟨loaded, l, isProgram, imported, localName, accepted,
    isOk_check_renamed loaded List.mem_cons_self isProgram resolved exported isFresh
      ⟨bound, shown, fun _ => ⟨notInterface, other⟩, fun _ => ⟨plain, declared⟩⟩⟩

/-- Of two files, the first is accepted under only one of the two names. -/
def NameMatters (text text' name : String) : Prop :=
  load (.ofFiles [(⟨"main.ts"⟩, text), (⟨"b.ts"⟩, text')] []) ⟨"main.ts"⟩
      = .ok (ofNeighbours text text') ∧
    ∃ l : ListedName, programOf text = l.program ∧ (ofNeighbours text text').MayRename 0 l name ∧
      ((ofNeighbours text text').withProgram 0 (l.renamed name).program).check.isOk
        ≠ (ofNeighbours text text').check.isOk

theorem nameMatters_of {text text' name : String} (h : AreNeighbours text text' ∧
    ∃ l ∈ ListedName.ofHead? (programOf text), (ofNeighbours text text').MayRename 0 l name ∧
      ((ofNeighbours text text').withProgram 0 (l.renamed name).program).check.isOk
        ≠ (ofNeighbours text text').check.isOk) : NameMatters text text' name := by
  obtain ⟨neighbours, l, found, differ⟩ := h
  exact ⟨load_ofNeighbours neighbours, l, (ListedName.program_of_ofHead? found).symm, differ⟩

/-- Under the new name, what has been imported is not declared again. -/
theorem redeclared_matters : NameMatters "import \x7b f \x7d from './b';\nlet f = 1;\n"
    "export function f(): void \x7b\x7d\n" "g" :=
  nameMatters_of (by decide +kernel)

/-- The other conditions are needed as well: what a module shows to others is looked at before what it
imports, and interfaces are looked up by name wherever values of theirs are used. -/
theorem conditions_needed :
    NameMatters "import \x7b T \x7d from './b';\nfunction g(p: T): void \x7b\x7d\n"
      "export interface T \x7b x: number \x7d\n" "V" ∧
    NameMatters "import \x7b T as U, f \x7d from './b';\nf(1).y;\n"
      ("export interface T \x7b\x7d\n"
        ++ "interface U \x7b y: number \x7d\nexport function f(x: any): U \x7b return x; \x7d\n") "V" ∧
    NameMatters "import \x7b f as T, T as U \x7d from './b';\nlet u: U = 1;\n"
      "export type T = number;\nexport function f(): void \x7b\x7d\n" "V" ∧
    NameMatters ("import \x7b T as U, f \x7d from './b';\nlet u: U = f();\n"
      ++ "\x7b\n  let U = 1;\n  u.x;\n\x7d\n") labelledSource "V" ∧
    NameMatters ("import \x7b T as ptr \x7d from './b';\n"
      ++ "function g(p: ptr<number>): void \x7b\n  p.x;\n\x7d\n")
      "export interface T \x7b x: number \x7d\n" "V" :=
  ⟨nameMatters_of (by decide +kernel), nameMatters_of (by decide +kernel),
    nameMatters_of (by decide +kernel), nameMatters_of (by decide +kernel),
    nameMatters_of (by decide +kernel)⟩

end ModuleGraph

end ScriptToGo
