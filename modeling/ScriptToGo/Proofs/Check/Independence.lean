import ScriptToGo.Proofs.Check.Collected
import ScriptToGo.Proofs.Check.Parallel
import ScriptToGo.Proofs.Check.Traversal
import ScriptToGo.Proofs.Grammar.NodeSpans
import ScriptToGo.Proofs.Module.Preorder

/-! Modules are checked independently of each other. -/
namespace ScriptToGo
open Check

namespace CheckState

/-- The errors that have been found in a module. -/
def errorsOf (s : CheckState) (file : FileId) : List TypeError := s.errors.filter (·.file == file)

/-- The types that have been recorded for a module. -/
def recordsOf (s : CheckState) (file : FileId) : List (Place × Ty) :=
  s.types.records.filter (·.1.1 == file)

/-- In two states, the same has been found in a module. -/
structure FoundSame (file : FileId) (s t : CheckState) : Prop where
  errors : s.errorsOf file = t.errorsOf file
  types : ∀ span, s.types.typeAt file span = t.types.typeAt file span

/-- The type of a place only depends on what has been recorded for its module. -/
theorem typeAt_eq_lookup (s : CheckState) (file : FileId) (span : Span) :
    s.types.typeAt file span = (s.recordsOf file).lookup (file, span) := by
  rw [TypeTable.typeAt, recordsOf]
  induction s.types.records with
  | nil => rfl
  | cons r rest ih =>
    obtain ⟨⟨file', span'⟩, type⟩ := r
    rw [List.lookup_cons, List.filter_cons]
    by_cases same : file' = file
    · subst same
      rw [if_pos (beq_self_eq_true _), List.lookup_cons, ih]
    · have differ : ((file, span) == (file', span')) = false :=
        beq_false_of_ne fun eq => same (Prod.mk.inj eq).1.symm
      rw [differ, if_neg fun eq => same (eq_of_beq eq), ih]

variable {file : FileId} {s t u : CheckState}

theorem FoundSame.of_records (errors : s.errorsOf file = t.errorsOf file)
    (records : s.recordsOf file = t.recordsOf file) : FoundSame file s t :=
  ⟨errors, fun span => by rw [typeAt_eq_lookup, records, typeAt_eq_lookup]⟩

theorem FoundSame.symm (h : FoundSame file s t) : FoundSame file t s :=
  ⟨h.errors.symm, fun span => (h.types span).symm⟩

theorem FoundSame.trans (h : FoundSame file s t) (h' : FoundSame file t u) : FoundSame file s u :=
  ⟨h.errors.trans h'.errors, fun span => (h.types span).trans (h'.types span)⟩

end CheckState

open CheckState (FoundSame)

namespace ModuleGraph

/-- What is known when all declarations are collected. -/
def collected (g : ModuleGraph) : CheckState := ((collect g).run .initial).2

/-- What is known when some modules have been checked after that, one after the other. -/
def checkedAfter (g : ModuleGraph) (order : List Module) : CheckState :=
  ((order.forM (checkModule g)).run g.collected).2

/-- The place belongs to what a function shows to other modules. -/
def IsShown (g : ModuleGraph) (file : FileId) (span : Span) : Prop :=
  ∃ m ∈ g.modules, m.id = file ∧ ∃ n ∈ m.program.signatures, n.span = span

/-- In two states, a module sees the same: only the global scope is open and has the same names,
which stand for the same symbols, and no alias has yet to be looked into. What functions show has
the same types, and so has the module itself. -/
structure SeesSame (g : ModuleGraph) (m : Module) (s t : CheckState) : Prop where
  scope : t.symbols.inner = [] ∧ s.symbols.inner = []
  globals : t.symbols.outermost = s.symbols.outermost
  symbols : ∀ id < s.symbols.symbols.size, t.symbols.symbol? id = s.symbols.symbol? id
  names : ∀ name, t.symbols.lookup name = s.symbols.lookup name
  kinds : ∀ name, t.symbols.kind? name = s.symbols.kind? name
  aliases : ∀ name written, t.symbols.kind? name ≠ some (.«alias» written none)
  signatures : ∀ file span, g.IsShown file span →
    t.types.typeAt file span = s.types.typeAt file span
  own : ∀ span, t.types.typeAt m.id span = s.types.typeAt m.id span

/-- No module has an influence on what is found in another one. -/
structure ChecksApart (g : ModuleGraph) : Prop where
  /-- The modules may be checked in any order. -/
  orders : ∀ order order', order.Perm g.modules → order'.Perm g.modules → ∀ file,
    FoundSame file (g.checkedAfter order) (g.checkedAfter order')
  /-- What is found in a module is what would be found if no other one was checked. -/
  alone : ∀ order, order.Perm g.modules → ∀ m ∈ g.modules,
    FoundSame m.id (g.checkedAfter order) (g.checkedAfter [m])
  /-- Those that are checked first do not change what the next one sees. -/
  sees : ∀ before m after, (before ++ m :: after).Perm g.modules →
    g.SeesSame m g.collected (g.checkedAfter before)

/-- Modules have different numbers, and the nodes of each different ranges. -/
structure IsNumbered (g : ModuleGraph) : Prop where
  ids : (g.modules.map Module.id).Nodup
  spans : ∀ m ∈ g.modules, (m.program.nodes.map Node.span).Nodup

variable {g : ModuleGraph} {m : Module} {t : CheckState} {before : List Module}

theorem inner_collected (g : ModuleGraph) : g.collected.symbols.inner = [] :=
  SymbolTable.inner_eq_nil_iff.2 (keeps_collect stepRelation_backIn g .initial).current

/-- The errors that a module adds when it is checked alone. -/
def newErrors (g : ModuleGraph) (m : Module) : List TypeError :=
  (g.checkedAfter [m]).errors.drop g.collected.errors.length

/-- The types that are recorded when a module is checked alone. -/
def newRecords (g : ModuleGraph) (m : Module) : List (Place × Ty) :=
  let records := (g.checkedAfter [m]).types.records
  records.take (records.length - g.collected.types.records.length)

/-- Some modules have been checked, and each has added what it adds when it is checked alone. -/
structure HasChecked (g : ModuleGraph) (before : List Module) (t : CheckState) : Prop where
  within : ∀ m ∈ before, m ∈ g.modules
  inner : t.symbols.inner = []
  globals : t.symbols.outermost = g.collected.symbols.outermost
  size : g.collected.symbols.symbols.size ≤ t.symbols.symbols.size
  symbols : ∀ id < g.collected.symbols.symbols.size,
    t.symbols.symbol? id = g.collected.symbols.symbol? id
  errors : t.errors = g.collected.errors ++ before.flatMap g.newErrors
  records : t.types.records = before.reverse.flatMap g.newRecords ++ g.collected.types.records

/-- A state has the types that were known when everything was collected, for a module and for what
functions show. -/
def Agrees (g : ModuleGraph) (m : Module) (t : CheckState) : Prop :=
  ∀ file span, file = m.id ∨ g.IsShown file span →
    t.types.typeAt file span = g.collected.types.typeAt file span

/-- A module is about to be checked, first or after others. -/
def starts (g : ModuleGraph) (m : Module) (t : CheckState) (agree : g.Agrees m t) : Starts where
  file := m.id
  own span := ∃ n ∈ m.program.checkedNodes, n.span = span
  known file span := file = m.id ∨ g.IsShown file span
  here := g.collected
  there := t
  known_file _ := .inl rfl
  agree

theorem knowsSignatures_starts (agree : g.Agrees m t) :
    (g.starts m t agree).KnowsSignatures g := by
  intro owner mem s inside n shown
  refine .inr ⟨owner, mem, rfl, n, ?_, rfl⟩
  refine List.mem_flatMap.2 ⟨s, inside, List.mem_flatMap.2 ⟨n, shown, ?_⟩⟩
  rw [Node.all_eq]
  exact List.mem_cons_self

theorem HasChecked.alike (h : g.HasChecked before t) (agree : g.Agrees m t) :
    (g.starts m t agree).Alike 0 g.collected t where
  symbols := .start g.inner_collected h.inner h.globals h.size h.symbols
  depth := by rw [inner_collected, List.length_nil]
  found := aliasesFound_collect g
  errors := ⟨[], by simp [starts], by simp [starts], List.forall_mem_nil _⟩
  types := ⟨[], rfl, rfl, List.forall_mem_nil _⟩

/-- Checking a module goes the same way from both states. -/
theorem HasChecked.alike_check (h : g.HasChecked before t) (agree : g.Agrees m t) :
    (g.starts m t agree).Alike 0 (g.checkedAfter [m]) ((checkModule g m).run t).2 :=
  (parallel_checkModule (knowsSignatures_starts agree) m rfl (fun n mem => ⟨n, mem, rfl⟩) _ _
    (h.alike agree)).2

theorem hasChecked_nil (g : ModuleGraph) : g.HasChecked [] g.collected where
  within := List.forall_mem_nil _
  inner := g.inner_collected
  globals := rfl
  size := Nat.le_refl _
  symbols _ _ := rfl
  errors := (List.append_nil _).symm
  records := rfl

/-- Checked alone, a module adds its errors, none of them about circles of aliases, and types for its
nodes. -/
theorem errors_alone (g : ModuleGraph) (m : Module) :
    (g.checkedAfter [m]).errors = g.collected.errors ++ g.newErrors m ∧
      ∀ e ∈ g.newErrors m, e.file = m.id ∧ ∀ name, e.fault ≠ .circularAlias name := by
  obtain ⟨new, here, -, own⟩ := (g.hasChecked_nil.alike_check fun _ _ _ => rfl).errors
  have here : (g.checkedAfter [m]).errors = g.collected.errors ++ new := here
  obtain rfl : g.newErrors m = new := by rw [newErrors, here, List.drop_left]
  exact ⟨here, own⟩

theorem records_alone (g : ModuleGraph) (m : Module) :
    (g.checkedAfter [m]).types.records = g.newRecords m ++ g.collected.types.records ∧
      ∀ r ∈ g.newRecords m, r.1.1 = m.id ∧ ∃ n ∈ m.program.checkedNodes, n.span = r.1.2 := by
  obtain ⟨new, here, -, own⟩ := (g.hasChecked_nil.alike_check fun _ _ _ => rfl).types
  have here : (g.checkedAfter [m]).types.records = new ++ g.collected.types.records := here
  obtain rfl : g.newRecords m = new := by
    dsimp only [newRecords]
    rw [here, List.length_append, Nat.add_sub_cancel, List.take_left]
  exact ⟨here, own⟩

/-- A place has the type that it had when everything was collected, unless it is checked in one of
the modules that have been checked. -/
theorem HasChecked.typeAt_eq (h : g.HasChecked before t) {file : FileId} {span : Span}
    (apart : ∀ m ∈ before, m.id = file → ∀ n ∈ m.program.checkedNodes, n.span ≠ span) :
    t.types.typeAt file span = g.collected.types.typeAt file span := by
  have none : (before.reverse.flatMap g.newRecords).lookup (file, span) = none := by
    refine List.lookup_eq_none_iff.2 fun r mem => bne_iff_ne.2 fun same => ?_
    obtain ⟨m, isBefore, mem⟩ := List.mem_flatMap.1 mem
    obtain ⟨own, n, checked, place⟩ := (g.records_alone m).2 r mem
    obtain ⟨rfl, rfl⟩ := Prod.ext_iff.1 same
    exact apart m (List.mem_reverse.1 isBefore) own.symm n checked place
  rw [TypeTable.typeAt, h.records, List.lookup_append, none, Option.none_or, TypeTable.typeAt]

/-- What functions show is not checked in any module. -/
theorem IsNumbered.apart_of_isShown (numbered : g.IsNumbered) {file : FileId} {span : Span}
    (shown : g.IsShown file span) (hm : m ∈ g.modules) (same : m.id = file) :
    ∀ n ∈ m.program.checkedNodes, n.span ≠ span := by
  obtain ⟨owner, mem, rfl, n, signature, rfl⟩ := shown
  obtain rfl : m = owner := List.inj_on_of_nodup_map numbered.ids hm mem same
  intro other checked
  exact (Program.signature_span_ne (numbered.spans m hm) n signature other checked).symm

theorem HasChecked.agree (h : g.HasChecked before t) (numbered : g.IsNumbered)
    (fresh : m.id ∉ before.map Module.id) : g.Agrees m t := by
  intro file span known
  refine h.typeAt_eq fun other isBefore same => ?_
  rcases known with rfl | shown
  · exact (fresh (same ▸ List.mem_map_of_mem isBefore)).elim
  · exact numbered.apart_of_isShown shown (h.within other isBefore) same

/-- Wherever a module comes in, it adds what it adds when it is checked alone. -/
theorem HasChecked.check (h : g.HasChecked before t) (numbered : g.IsNumbered) (hm : m ∈ g.modules)
    (fresh : m.id ∉ before.map Module.id) :
    g.HasChecked (before ++ [m]) ((checkModule g m).run t).2 := by
  have alike := h.alike_check (h.agree numbered fresh)
  have inner := alike.symbols.inner
  rw [List.eq_nil_of_length_eq_zero alike.depth, List.forall₂_nil_left_iff] at inner
  obtain ⟨errors, here, there, -⟩ := alike.errors
  obtain rfl := List.append_cancel_left (here.symm.trans (g.errors_alone m).1)
  obtain ⟨records, here, there', -⟩ := alike.types
  obtain rfl := List.append_cancel_right (here.symm.trans (g.records_alone m).1)
  constructor
  case within => exact List.forall_mem_append.2 ⟨h.within, List.forall_mem_singleton.2 hm⟩
  case inner => exact inner
  case globals => exact alike.symbols.outermost'
  case size => exact Nat.le_trans alike.symbols.size (alike.symbols.size' ▸ Nat.le_add_right _ _)
  case symbols => exact alike.symbols.old'
  case errors =>
    rw [there, List.flatMap_append, List.flatMap_singleton, ← List.append_assoc]
    exact congrArg (· ++ g.newErrors m) h.errors
  case records =>
    rw [there', List.reverse_append, List.reverse_singleton, List.singleton_append,
      List.flatMap_cons, List.append_assoc]
    exact congrArg (g.newRecords m ++ ·) h.records

theorem HasChecked.forM (h : g.HasChecked before t) (numbered : g.IsNumbered) {list : List Module}
    (within : ∀ m ∈ list, m ∈ g.modules) (ids : ((before ++ list).map Module.id).Nodup) :
    g.HasChecked (before ++ list) ((list.forM (checkModule g)).run t).2 := by
  induction list generalizing before t with
  | nil => rwa [List.append_nil]
  | cons m rest ih =>
    obtain ⟨hm, others⟩ := List.forall_mem_cons.1 within
    have fresh : m.id ∉ before.map Module.id := by
      rw [List.map_append, List.nodup_append'] at ids
      exact fun mem => ids.2.2 mem (List.mem_map_of_mem List.mem_cons_self)
    have all : before ++ m :: rest = before ++ [m] ++ rest := by rw [List.append_cons]
    rw [all] at ids ⊢
    exact ih (h.check numbered hm fresh) others ids

/-- When several different modules have been checked, it is known what has been added. -/
theorem hasChecked (numbered : g.IsNumbered) {order : List Module}
    (within : ∀ m ∈ order, m ∈ g.modules) (ids : (order.map Module.id).Nodup) :
    g.HasChecked order (g.checkedAfter order) :=
  g.hasChecked_nil.forM numbered within ids

theorem HasChecked.seesSame (h : g.HasChecked before t) (numbered : g.IsNumbered)
    (fresh : m.id ∉ before.map Module.id) : g.SeesSame m g.collected t where
  scope := ⟨h.inner, g.inner_collected⟩
  globals := h.globals
  symbols := h.symbols
  names name := by
    rw [SymbolTable.lookup_eq, SymbolTable.lookup_eq, SymbolTable.scopes, SymbolTable.scopes, h.inner,
      h.globals, g.inner_collected]
  kinds := (h.alike (h.agree numbered fresh)).kind?_eq
  aliases name written := by
    have alike := h.alike (h.agree numbered fresh)
    rw [alike.kind?_eq]
    exact alike.found.kind?_ne name written
  signatures file span shown := h.agree numbered fresh file span (.inr shown)
  own span := h.agree numbered fresh m.id span (.inl rfl)

section

variable {β : Type} {new : Module → List β} {key : β → FileId} {order : List Module}

/-- Of what several modules add, nothing belongs to any other file. -/
theorem filter_flatMap_of_absent (own : ∀ m ∈ order, ∀ b ∈ new m, key b = m.id) {file : FileId}
    (absent : ∀ m ∈ order, m.id ≠ file) :
    (order.flatMap new).filter (fun b => key b == file) = [] := by
  refine List.filter_eq_nil_iff.2 fun b mem => ?_
  obtain ⟨m, among, mem⟩ := List.mem_flatMap.1 mem
  rw [own m among b mem, beq_iff_eq]
  exact absent m among

/-- Of what several modules add, what belongs to one of them is what it adds. -/
theorem filter_flatMap_of_mem (own : ∀ m ∈ order, ∀ b ∈ new m, key b = m.id)
    (ids : (order.map Module.id).Nodup) (mem : m ∈ order) :
    (order.flatMap new).filter (fun b => key b == m.id) = new m := by
  obtain ⟨before, after, rfl⟩ := List.append_of_mem mem
  rw [List.map_append, List.map_cons, List.nodup_middle, List.nodup_cons, List.mem_append] at ids
  obtain ⟨first, others⟩ := List.forall_mem_append.1 own
  obtain ⟨here, last⟩ := List.forall_mem_cons.1 others
  have none := filter_flatMap_of_absent first fun _ mem same =>
    ids.1 (.inl (List.mem_map.2 ⟨_, mem, same⟩))
  have none' := filter_flatMap_of_absent last fun _ mem same =>
    ids.1 (.inr (List.mem_map.2 ⟨_, mem, same⟩))
  have all : (new m).filter (fun b => key b == m.id) = new m :=
    List.filter_eq_self.2 fun b mem => beq_iff_eq.2 (here b mem)
  rw [List.flatMap_append, List.flatMap_cons, List.filter_append, List.filter_append, none, none',
    all, List.nil_append, List.append_nil]

end

variable {order order' : List Module} {t' : CheckState}

theorem HasChecked.alone (h : g.HasChecked order t) (ids : (order.map Module.id).Nodup)
    (mem : m ∈ order) : FoundSame m.id t (g.checkedAfter [m]) := by
  apply FoundSame.of_records
  · have own := fun e mem => ((g.errors_alone m).2 e mem).1
    have all := List.filter_eq_self.2 fun e mem => beq_iff_eq.2 (own e mem)
    rw [CheckState.errorsOf, CheckState.errorsOf, h.errors, (g.errors_alone m).1,
      List.filter_append, List.filter_append, all,
      filter_flatMap_of_mem (fun m _ e mem => ((g.errors_alone m).2 e mem).1) ids mem]
  · have own := fun r mem => ((g.records_alone m).2 r mem).1
    have all := List.filter_eq_self.2 fun r mem => beq_iff_eq.2 (own r mem)
    rw [← List.nodup_reverse, ← List.map_reverse] at ids
    rw [CheckState.recordsOf, CheckState.recordsOf, h.records, (g.records_alone m).1,
      List.filter_append, List.filter_append, all, filter_flatMap_of_mem
        (fun m _ r mem => ((g.records_alone m).2 r mem).1) ids (List.mem_reverse.2 mem)]

theorem HasChecked.absent (h : g.HasChecked order t) {file : FileId}
    (absent : ∀ m ∈ order, m.id ≠ file) : FoundSame file t g.collected := by
  apply FoundSame.of_records
  · rw [CheckState.errorsOf, h.errors, List.filter_append,
      filter_flatMap_of_absent (fun m _ e mem => ((g.errors_alone m).2 e mem).1) absent, List.append_nil]
    rfl
  · rw [CheckState.recordsOf, h.records, List.filter_append, filter_flatMap_of_absent
        (fun m _ r mem => ((g.records_alone m).2 r mem).1)
        fun m mem => absent m (List.mem_reverse.1 mem)]
    rfl

theorem HasChecked.foundSame (h : g.HasChecked order t) (h' : g.HasChecked order' t')
    (ids : (order.map Module.id).Nodup) (ids' : (order'.map Module.id).Nodup)
    (same : ∀ m, m ∈ order ↔ m ∈ order') (file : FileId) : FoundSame file t t' := by
  by_cases among : ∃ m ∈ order, m.id = file
  · obtain ⟨m, mem, rfl⟩ := among
    exact (h.alone ids mem).trans (h'.alone ids' ((same m).1 mem)).symm
  · have absent : ∀ m ∈ order, m.id ≠ file := fun m mem is => among ⟨m, mem, is⟩
    exact (h.absent absent).trans (h'.absent fun m mem => absent m ((same m).2 mem)).symm

theorem check_eq (g : ModuleGraph) : g.check =
    if (g.checkedAfter g.modules).errors.isEmpty then .ok (g.checkedAfter g.modules).types
      else .error (g.checkedAfter g.modules).errors := rfl

theorem not_failed_of_check (accepted : g.check.isOk) : ¬(g.checkedAfter g.modules).Failed := by
  rw [check_eq] at accepted
  split at accepted
  next none => exact not_not_intro (List.isEmpty_iff.1 none)
  next => cases accepted

/-- Unless something is wrong, nothing is wrong with any of the modules that have been checked. -/
theorem HasChecked.not_failed (h : g.HasChecked before t) (fine : ¬t.Failed) :
    ¬g.collected.Failed ∧ ∀ m ∈ before, ¬(g.checkedAfter [m]).Failed := by
  obtain ⟨first, rest⟩ := List.append_eq_nil_iff.1 (h.errors.symm.trans (not_not.1 fine))
  refine ⟨not_not_intro first, fun m mem => not_not_intro ?_⟩
  rw [(g.errors_alone m).1, first, List.flatMap_eq_nil_iff.1 rest m mem, List.append_nil]

/-- The modules of a program that has been loaded are told apart, and so are their nodes. -/
theorem isNumbered_of_load {s : Sources} {entry : Path} (loaded : load s entry = .ok g) :
    g.IsNumbered where
  ids := by
    have numbers : g.modules.map Module.id = List.range g.modules.length := by
      refine List.ext_getElem (by simp) fun i inside _ => ?_
      rw [List.length_map] at inside
      rw [List.getElem_map, List.getElem_range]
      exact id_of_load loaded (List.getElem?_eq_getElem inside)
    rw [numbers]
    exact List.nodup_range
  spans m mem := by
    have isFrom := isFrom_of_load loaded mem
    obtain ⟨tokens, lexed, parsed⟩ := Program.ofSource_eq_ok_iff.1 isFrom.program
    obtain ⟨_, _, nested⟩ := Program.exists_nested lexed parsed
    exact nested.nodup

/-- Modules of a program that has been loaded are checked independently of each other. -/
theorem modules_checked_apart {s : Sources} {entry : Path} (loaded : load s entry = .ok g) :
    g.ChecksApart := by
  have numbered := isNumbered_of_load loaded
  have ids {order : List Module} (perm : order.Perm g.modules) : (order.map Module.id).Nodup :=
    (perm.map Module.id).nodup_iff.2 numbered.ids
  have checked {order : List Module} (perm : order.Perm g.modules) :
      g.HasChecked order (g.checkedAfter order) :=
    hasChecked numbered (fun m mem => perm.mem_iff.1 mem) (ids perm)
  constructor
  case orders =>
    intro order order' perm perm'
    exact (checked perm).foundSame (checked perm') (ids perm) (ids perm')
      fun m => perm.mem_iff.trans perm'.mem_iff.symm
  case alone =>
    intro order perm m mem
    exact (checked perm).alone (ids perm) (perm.mem_iff.2 mem)
  case sees =>
    intro before m after perm
    have all := ids perm
    rw [List.map_append, List.map_cons, List.nodup_append', List.disjoint_cons_right] at all
    have within : ∀ m ∈ before, m ∈ g.modules := fun m mem =>
      perm.mem_iff.1 (List.mem_append_left _ mem)
    exact (hasChecked numbered within all.1).seesSame numbered all.2.2.1

/-- Two files that import a function from each other and call it with a wrong number of arguments.
One of them also uses a type that the other one declares. -/
def exchange : Sources := .ofFiles [
  (⟨"main.ts"⟩, "import \x7b f \x7d from './other'\n"
    ++ "export function g(): N \x7b return f() \x7d"),
  (⟨"other.ts"⟩, "import \x7b g \x7d from './main'\nexport type N = string\n"
    ++ "export function f(n: number): N \x7b return g(n) \x7d")] []

theorem exchange_within : (exchange.loadWithin 2 ⟨"main.ts"⟩).isSome = true := by decide +kernel

def exchangeGraph : ModuleGraph := (exchange.loadWithin 2 ⟨"main.ts"⟩).get exchange_within

theorem exchange_loads : load exchange ⟨"main.ts"⟩ = .ok exchangeGraph :=
  load_of_within (Option.some_get exchange_within).symm

/-- The two files may be checked in either order. -/
theorem exchange_checked_apart :
    load exchange ⟨"main.ts"⟩ = .ok exchangeGraph ∧ exchangeGraph.ChecksApart :=
  ⟨exchange_loads, modules_checked_apart exchange_loads⟩

end ModuleGraph

end ScriptToGo
