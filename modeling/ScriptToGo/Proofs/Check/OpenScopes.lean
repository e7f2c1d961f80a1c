import ScriptToGo.Check.Symbols

/-! The open scopes of a table of symbols are a stack: those on the way from the current one outwards
to the global one. -/
namespace ScriptToGo

namespace SymbolTable

variable {t u : SymbolTable} {id parent : ScopeId}

/-- The scopes from one of them outwards, but for the global one. -/
def innerFrom (t : SymbolTable) (id : ScopeId) (within : id < t.arena.size) : List Scope :=
  match around : t.arena[id].parent? with
  | none => []
  | some parent =>
    have before : parent < id := parent_lt around
    t.arena[id].toScope :: t.innerFrom parent (Nat.lt_trans before within)

/-- The open scopes inside the global one, the innermost first. -/
def inner (t : SymbolTable) : List Scope := t.innerFrom t.currentId t.current_lt

theorem arena_pos (t : SymbolTable) : 0 < t.arena.size := Nat.zero_lt_of_lt t.current_lt

/-- The global scope. -/
def outermost (t : SymbolTable) : Scope :=
  have := t.arena_pos
  t.arena[0].toScope

/-- The open scopes, the innermost first. -/
def scopes (t : SymbolTable) : List Scope := t.inner ++ [t.outermost]

/-- Nothing lies around the first scope only. -/
theorem eq_zero_of_root {within : id < t.arena.size} (root : t.arena[id].parent? = none) :
    id = 0 := by
  have nested := t.nested id within
  rwa [NestedScope.LiesBelow, root] at nested

theorem innerFrom_of_root {within : id < t.arena.size} (root : t.arena[id].parent? = none) :
    t.innerFrom id within = [] := by
  rw [innerFrom]
  split
  next => rfl
  next around => simp [root] at around

theorem innerFrom_of_parent {within : id < t.arena.size}
    (around : t.arena[id].parent? = some parent) :
    t.innerFrom id within = t.arena[id].toScope ::
      t.innerFrom parent (Nat.lt_trans (parent_lt around) within) := by
  rw [innerFrom]
  split
  next root => simp [root] at around
  next other =>
    obtain rfl := Option.some.inj (around.symm.trans other)
    rfl

section

variable {α : Type} {ask : Scope → Option α} {within : id < t.arena.size}

theorem findFrom_of_root (root : t.arena[id].parent? = none) :
    t.findFrom ask id within = ask t.arena[id].toScope := by
  rw [findFrom]
  split
  next found => rw [found]
  next silent =>
    rw [silent]
    split
    next => rfl
    next around => simp [root] at around

theorem findFrom_of_parent (around : t.arena[id].parent? = some parent) :
    t.findFrom ask id within = (ask t.arena[id].toScope).or
      (t.findFrom ask parent (Nat.lt_trans (parent_lt around) within)) := by
  rw [findFrom]
  split
  next found => rw [found, Option.some_or]
  next silent =>
    rw [silent, Option.none_or]
    split
    next root => simp [root] at around
    next other =>
      obtain rfl := Option.some.inj (around.symm.trans other)
      rfl

end

/-- Asking scopes outwards is asking the open ones, one after the other. -/
theorem findFrom_eq {α : Type} (t : SymbolTable) (ask : Scope → Option α) (id : ScopeId)
    (within : id < t.arena.size) :
    t.findFrom ask id within = (t.innerFrom id within ++ [t.outermost]).findSome? ask := by
  induction id using Nat.strongRecOn with
  | ind id ih =>
    cases around : t.arena[id].parent? with
    | none =>
      obtain rfl := eq_zero_of_root around
      rw [findFrom_of_root around, innerFrom_of_root around, List.nil_append,
        List.findSome?_singleton]
      rfl
    | some parent =>
      rw [findFrom_of_parent around, innerFrom_of_parent around, List.cons_append,
        List.findSome?_cons, ih parent (parent_lt around)]
      cases ask t.arena[id].toScope <;> rfl

/-- A name stands for what the innermost open scope that defines it says. -/
theorem lookup_eq (t : SymbolTable) (name : String) :
    t.lookup name = t.scopes.findSome? (·.names.lookup name) := t.findFrom_eq _ _ _

/-- The result type is that of the innermost open scope of a function. -/
theorem returnType?_eq (t : SymbolTable) :
    t.returnType? = (t.scopes.find? (·.kind == .function)).bind Scope.returns? := by
  rw [returnType?, findFrom_eq]
  change (t.scopes.findSome? _).join = _
  induction t.scopes with
  | nil => rfl
  | cons scope outer ih =>
    rw [List.findSome?_cons, List.find?_cons]
    by_cases is : scope.kind = .function
    · rw [if_pos is, beq_iff_eq.2 is]
      rfl
    · rw [if_neg is, beq_false_of_ne is]
      exact ih

/-- The current scope is the innermost one that is open. -/
theorem scopes_eq_cons (t : SymbolTable) : t.scopes = t.current :: t.scopes.tail := by
  have := t.current_lt
  rw [scopes, inner]
  cases around : t.arena[t.currentId].parent? with
  | none =>
    rw [innerFrom_of_root around, List.nil_append, List.tail_cons, List.singleton_inj, outermost,
      current]
    simp only [eq_zero_of_root around]
  | some parent =>
    rw [innerFrom_of_parent around, List.cons_append, List.tail_cons, List.cons.injEq]
    exact ⟨rfl, rfl⟩

theorem current_of_nil (inner : t.inner = []) : t.current = t.outermost := by
  have cons := t.scopes_eq_cons
  rw [scopes, inner, List.nil_append] at cons
  exact (List.cons.inj cons).1.symm

theorem current_of_cons {scope : Scope} {others : List Scope} (inner : t.inner = scope :: others) :
    t.current = scope := by
  have cons := t.scopes_eq_cons
  rw [scopes, inner, List.cons_append] at cons
  exact (List.cons.inj cons).1.symm

theorem current_eq (t : SymbolTable) : t.current = t.inner.headD t.outermost := by
  cases inner : t.inner with
  | nil => exact current_of_nil inner
  | cons scope others => exact current_of_cons inner

/-- Only the global scope is open when it is the current one. -/
theorem inner_eq_nil_iff : t.inner = [] ↔ t.currentId = 0 := by
  have within := t.current_lt
  rw [inner]
  cases around : t.arena[t.currentId].parent? with
  | none => exact iff_of_true (innerFrom_of_root around) (eq_zero_of_root around)
  | some parent =>
    rw [innerFrom_of_parent around]
    exact iff_of_false (List.cons_ne_nil _ _) (Nat.ne_zero_of_lt (parent_lt around))

/-- The current scope is open. -/
theorem current_mem (t : SymbolTable) : t.current ∈ t.scopes := by
  rw [scopes_eq_cons]
  exact List.mem_cons_self

/-- What lies outwards of a scope is told by the scopes that were opened before it. -/
theorem innerFrom_congr (within : id < t.arena.size) (within' : id < u.arena.size)
    (same : ∀ before ≤ id, u.arena[before]? = t.arena[before]?) :
    u.innerFrom id within' = t.innerFrom id within := by
  induction id using Nat.strongRecOn with
  | ind id ih =>
    have here : u.arena[id] = t.arena[id] := by
      have same := same id (Nat.le_refl id)
      rwa [Array.getElem?_eq_getElem within, Array.getElem?_eq_getElem within',
        Option.some_inj] at same
    cases around : t.arena[id].parent? with
    | none => rw [innerFrom_of_root around, innerFrom_of_root (here ▸ around)]
    | some parent =>
      have before := parent_lt around
      have around' : u.arena[id].parent? = some parent := here ▸ around
      rw [innerFrom_of_parent around, innerFrom_of_parent around',
        ih parent before _ _ fun i le => same i (Nat.le_trans le (Nat.le_of_lt before)), here]

theorem mem_arena_of_mem_innerFrom {scope : Scope} {within : id < t.arena.size}
    (mem : scope ∈ t.innerFrom id within) : ∃ node ∈ t.arena, node.toScope = scope := by
  induction id using Nat.strongRecOn with
  | ind id ih =>
    cases around : t.arena[id].parent? with
    | none =>
      rw [innerFrom_of_root around] at mem
      cases mem
    | some parent =>
      rw [innerFrom_of_parent around] at mem
      rcases List.mem_cons.1 mem with rfl | mem
      · exact ⟨_, Array.getElem_mem within, rfl⟩
      · exact ih parent (parent_lt around) mem

/-- Every number in an open scope belongs to a symbol. -/
theorem fits_of_mem_scopes {scope : Scope} (mem : scope ∈ t.scopes) :
    scope.Fits t.symbols.size := by
  rcases List.mem_append.1 mem with mem | mem
  · obtain ⟨node, stored, rfl⟩ := mem_arena_of_mem_innerFrom mem
    exact t.valid node stored
  · obtain rfl := List.mem_singleton.1 mem
    exact t.valid _ (Array.getElem_mem t.arena_pos)

/-- What is found is a symbol. -/
theorem exists_symbol {name : String} {id : SymbolId} (found : t.lookup name = some id) :
    ∃ symbol, t.symbol? id = some symbol := by
  rw [lookup_eq] at found
  obtain ⟨scope, mem, named⟩ := List.exists_of_findSome?_eq_some found
  obtain ⟨before, after, names, -⟩ := List.lookup_eq_some_iff.1 named
  have within := fits_of_mem_scopes mem (name, id) (by simp [names])
  exact ⟨_, Array.getElem?_eq_getElem within⟩

section enter

variable (t : SymbolTable) (kind : ScopeKind)

theorem inner_enter : (t.enter kind).inner = ⟨kind, [], none⟩ :: t.inner := by
  have last := (t.enter kind).current_lt
  have here : (t.enter kind).arena[(t.enter kind).currentId] =
      ⟨⟨kind, [], none⟩, some t.currentId⟩ := Array.getElem_push_eq
  have around := congrArg NestedScope.parent? here
  rw [inner, innerFrom_of_parent around, here, inner]
  refine congrArg (_ :: ·) (innerFrom_congr t.current_lt _ fun before le => ?_)
  exact Array.getElem?_push_lt (Nat.lt_of_le_of_lt le t.current_lt) ▸
    (Array.getElem?_eq_getElem _).symm

theorem outermost_enter : (t.enter kind).outermost = t.outermost :=
  congrArg NestedScope.toScope (Array.getElem_push_lt t.arena_pos)

theorem scopes_enter : (t.enter kind).scopes = ⟨kind, [], none⟩ :: t.scopes := by
  rw [scopes, inner_enter, outermost_enter, scopes, List.cons_append]

/-- A new scope hides no name. -/
theorem lookup_enter (name : String) : (t.enter kind).lookup name = t.lookup name := by
  rw [lookup_eq, scopes_enter, List.findSome?_cons, lookup_eq]
  rfl

theorem kind?_enter (name : String) : (t.enter kind).kind? name = t.kind? name := by
  rw [kind?, lookup_enter]
  rfl

end enter

section exit

variable {within : t.currentId < t.arena.size}

theorem currentId_exit_of_root (root : t.arena[t.currentId].parent? = none) :
    t.exit.currentId = t.currentId :=
  congrArg (Option.getD · t.currentId) root

theorem currentId_exit_of_parent (around : t.arena[t.currentId].parent? = some parent) :
    t.exit.currentId = parent :=
  congrArg (Option.getD · t.currentId) around

theorem outermost_exit (t : SymbolTable) : t.exit.outermost = t.outermost := rfl

/-- Closing the global scope changes nothing. -/
theorem exit_of_nil (inner : t.inner = []) : t.exit = t := by
  have within := t.current_lt
  cases around : t.arena[t.currentId].parent? with
  | none => exact SymbolTable.ext rfl rfl (currentId_exit_of_root around)
  | some parent =>
    rw [SymbolTable.inner, innerFrom_of_parent around] at inner
    cases inner

/-- Closing another scope leads to the one around it. -/
theorem inner_exit (t : SymbolTable) : t.exit.inner = t.inner.tail := by
  have within := t.current_lt
  cases around : t.arena[t.currentId].parent? with
  | none =>
    have root := eq_zero_of_root around
    rw [inner_eq_nil_iff.2 root, inner_eq_nil_iff.2 ((currentId_exit_of_root around).trans root),
      List.tail_nil]
  | some parent =>
    have outer (id : ScopeId) (within : id < t.arena.size) (is : t.exit.currentId = id) :
        t.exit.inner = t.innerFrom id within := by
      subst is
      exact innerFrom_congr _ _ fun _ _ => rfl
    rw [outer parent _ (currentId_exit_of_parent around), inner, innerFrom_of_parent around,
      List.tail_cons]

/-- Closing a scope opens none. -/
theorem mem_of_mem_scopes_exit {scope : Scope} (mem : scope ∈ t.exit.scopes) :
    scope ∈ t.scopes := by
  rw [scopes, inner_exit, outermost_exit, List.mem_append] at mem
  rw [scopes, List.mem_append]
  exact mem.imp_left List.mem_of_mem_tail

end exit

section modifyCurrent

variable {f : Scope → Scope} {symbols : Array Symbol} {grows : t.symbols.size ≤ symbols.size}
  {fits : (f t.current).Fits symbols.size}

theorem current_modifyCurrent : (t.modifyCurrent f symbols grows fits).current = f t.current :=
  congrArg NestedScope.toScope (Array.getElem_set_self t.current_lt)

theorem arena_modifyCurrent_of_ne (other : id ≠ t.currentId) :
    (t.modifyCurrent f symbols grows fits).arena[id]? = t.arena[id]? :=
  Array.getElem?_set_ne t.current_lt other.symm

/-- What is current changes, and what lies outwards of it does not. -/
theorem inner_modifyCurrent :
    (t.modifyCurrent f symbols grows fits).inner = t.inner.modifyHead f := by
  have within := t.current_lt
  have within' : t.currentId < (t.modifyCurrent f symbols grows fits).arena.size :=
    (t.modifyCurrent f symbols grows fits).current_lt
  have here : (t.modifyCurrent f symbols grows fits).arena[t.currentId] =
      { t.arena[t.currentId] with toScope := f t.current } := Array.getElem_set_self within
  change (t.modifyCurrent f symbols grows fits).innerFrom t.currentId within' = _
  rw [inner]
  cases around : t.arena[t.currentId].parent? with
  | none =>
    have around' := (congrArg NestedScope.parent? here).trans around
    rw [innerFrom_of_root around, innerFrom_of_root around', List.modifyHead_nil]
  | some parent =>
    have around' := (congrArg NestedScope.parent? here).trans around
    have before := parent_lt around
    rw [innerFrom_of_parent around, innerFrom_of_parent around', List.modifyHead_cons]
    refine List.cons_eq_cons.2 ⟨congrArg NestedScope.toScope here, innerFrom_congr _ _ ?_⟩
    intro other le
    exact arena_modifyCurrent_of_ne (Nat.ne_of_lt (Nat.lt_of_le_of_lt le before))

theorem outermost_modifyCurrent_of_nil (inner : t.inner = []) :
    (t.modifyCurrent f symbols grows fits).outermost = f t.outermost := by
  have inner' : (t.modifyCurrent f symbols grows fits).inner = [] := by
    rw [inner_modifyCurrent, inner, List.modifyHead_nil]
  rw [← current_of_nil inner', current_modifyCurrent, current_of_nil inner]

theorem outermost_modifyCurrent_of_ne_nil (inner : t.inner ≠ []) :
    (t.modifyCurrent f symbols grows fits).outermost = t.outermost := by
  have inside : 0 ≠ t.currentId := fun bottom => inner (inner_eq_nil_iff.2 bottom.symm)
  refine congrArg NestedScope.toScope (Option.some.inj ?_)
  rw [← Array.getElem?_eq_getElem, ← Array.getElem?_eq_getElem]
  exact arena_modifyCurrent_of_ne inside

/-- The scopes that are open stay so, and only the current one changes. -/
theorem scopes_modifyCurrent :
    (t.modifyCurrent f symbols grows fits).scopes = f t.current :: t.scopes.tail := by
  rw [scopes, inner_modifyCurrent, scopes]
  cases inner : t.inner with
  | nil =>
    rw [outermost_modifyCurrent_of_nil inner, current_of_nil inner]
    rfl
  | cons scope others =>
    rw [outermost_modifyCurrent_of_ne_nil (inner ▸ List.cons_ne_nil _ _), current_of_cons inner]
    rfl

end modifyCurrent

section define

variable (t : SymbolTable) (name : String) (kind : SymbolKind) (span : Span) (file? : Option Nat)

theorem symbols_define : (t.define name kind span file?).symbols =
    t.symbols.push ⟨name, kind, span, file?, t.currentId⟩ := rfl

theorem scopes_define : (t.define name kind span file?).scopes =
    { t.current with names := (name, t.symbols.size) :: t.current.names } :: t.scopes.tail := by
  rw [define]
  exact scopes_modifyCurrent

theorem current_define : (t.define name kind span file?).current =
    { t.current with names := (name, t.symbols.size) :: t.current.names } := by
  rw [define]
  exact current_modifyCurrent

end define

section setReturnType

variable (t : SymbolTable) (type : Ty)

theorem symbols_setReturnType : (t.setReturnType type).symbols = t.symbols := rfl

theorem scopes_setReturnType :
    (t.setReturnType type).scopes = { t.current with returns? := some type } :: t.scopes.tail :=
  scopes_modifyCurrent

end setReturnType

section inside

variable {scope : Scope} {others : List Scope} (inner : t.inner = scope :: others)
  (name : String) (kind : SymbolKind) (span : Span) (file? : Option Nat) (type : Ty)
include inner

theorem inner_define : (t.define name kind span file?).inner =
    { scope with names := (name, t.symbols.size) :: scope.names } :: others := by
  rw [define]
  exact inner_modifyCurrent.trans (by rw [inner, List.modifyHead_cons])

theorem outermost_define : (t.define name kind span file?).outermost = t.outermost := by
  rw [define]
  exact outermost_modifyCurrent_of_ne_nil (inner ▸ List.cons_ne_nil _ _)

theorem inner_setReturnType :
    (t.setReturnType type).inner = { scope with returns? := some type } :: others := by
  rw [setReturnType]
  exact inner_modifyCurrent.trans (by rw [inner, List.modifyHead_cons])

theorem outermost_setReturnType : (t.setReturnType type).outermost = t.outermost := by
  rw [setReturnType]
  exact outermost_modifyCurrent_of_ne_nil (inner ▸ List.cons_ne_nil _ _)

end inside

section setKind

variable (t : SymbolTable) (id : SymbolId) (kind : SymbolKind)

theorem inner_setKind : (t.setKind id kind).inner = t.inner :=
  innerFrom_congr _ _ fun _ _ => rfl

theorem outermost_setKind : (t.setKind id kind).outermost = t.outermost := rfl

theorem scopes_setKind : (t.setKind id kind).scopes = t.scopes := by
  rw [scopes, inner_setKind, outermost_setKind, scopes]

theorem lookup_setKind (name : String) : (t.setKind id kind).lookup name = t.lookup name := by
  rw [lookup_eq, scopes_setKind, lookup_eq]

end setKind

theorem inner_nothing : nothing.inner = [] := innerFrom_of_root rfl

theorem inner_initial : initial.inner = [] := inner_eq_nil_iff.2 rfl

end SymbolTable

end ScriptToGo
