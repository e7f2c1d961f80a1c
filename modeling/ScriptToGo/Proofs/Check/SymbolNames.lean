import ScriptToGo.Proofs.Check.AliasNames
import ScriptToGo.Proofs.Check.Traversal

/-! What the names of a table of symbols stand for after each change of it. -/
namespace ScriptToGo

namespace SymbolTable

variable {t : SymbolTable} {name : String} {id : SymbolId} {kind : SymbolKind}

/-- A definition decides what its name stands for, and nothing about other names. -/
theorem lookup_define (t : SymbolTable) (name : String) (kind : SymbolKind) (span : Span)
    (file? : Option FileId) (other : String) : (t.define name kind span file?).lookup other
      = if other = name then some t.symbols.size else t.lookup other := by
  rw [lookup_eq, lookup_eq, scopes_define, t.scopes_eq_cons, List.findSome?_cons, List.findSome?_cons,
    List.lookup_cons, List.tail_cons]
  by_cases same : other = name
  · rw [if_pos same, beq_iff_eq.2 same]
  · rw [if_neg same, beq_false_of_ne same]

theorem kind?_define (t : SymbolTable) (name : String) (kind : SymbolKind) (span : Span)
    (file? : Option FileId) (other : String) : (t.define name kind span file?).kind? other
      = if other = name then some kind else t.kind? other := by
  rw [kind?, kind?, lookup_define]
  split
  · rw [Option.bind_some, symbol?_define_self]
    rfl
  · cases found : t.lookup other with
    | none => rfl
    | some id =>
      obtain ⟨symbol, has⟩ := exists_symbol found
      rw [Option.bind_some, Option.bind_some, has, symbol?_define has]

/-- Outside of all inner scopes, all that can be seen is in the current one. -/
theorem lookupLocal_eq_lookup (inner : t.inner = []) (name : String) :
    t.lookupLocal name = t.lookup name := by
  rw [lookupLocal, current_of_nil inner, lookup_eq, scopes, inner, List.nil_append,
    List.findSome?_singleton]

theorem inner_define_of_nil (inner : t.inner = []) (name : String) (kind : SymbolKind) (span : Span)
    (file? : Option FileId) : (t.define name kind span file?).inner = [] := by
  rw [define]
  exact inner_modifyCurrent.trans (by rw [inner, List.modifyHead_nil])

theorem kind?_eq_some_iff : t.kind? name = some kind ↔
    ∃ id symbol, t.lookup name = some id ∧ t.symbol? id = some symbol ∧ symbol.kind = kind := by
  simp [kind?, Option.bind_eq_some_iff]

/-- Changing a symbol changes what its name stands for, and that of no other name. -/
theorem kind?_setKind (t : SymbolTable) (id : SymbolId) (kind : SymbolKind) (name : String) :
    (t.setKind id kind).kind? name
      = if t.lookup name = some id then (t.kind? name).map fun _ => kind else t.kind? name := by
  rw [kind?, kind?, lookup_setKind]
  cases found : t.lookup name with
  | none => simp
  | some other =>
    rw [Option.bind_some, Option.bind_some, symbol?_setKind]
    by_cases is : id = other
    · subst is
      cases t.symbol? id <;> simp
    · have differ : ¬some other = some id := fun same => is (Option.some.inj same).symm
      rw [if_neg is, if_neg differ]

/-- Every name is that of the symbol that it stands for. -/
def NamesRight (t : SymbolTable) : Prop :=
  ∀ name id, t.lookup name = some id → ∃ symbol, t.symbol? id = some symbol ∧ symbol.name = name

theorem NamesRight.define (h : t.NamesRight) (name : String) (kind : SymbolKind) (span : Span)
    (file? : Option FileId) : (t.define name kind span file?).NamesRight := by
  intro other id named
  rw [lookup_define] at named
  split at named
  next same =>
    obtain rfl := Option.some.inj named
    exact ⟨_, symbol?_define_self, same.symm⟩
  next =>
    obtain ⟨symbol, has, is⟩ := h other id named
    exact ⟨symbol, symbol?_define has, is⟩

theorem NamesRight.setKind (h : t.NamesRight) (id : SymbolId) (kind : SymbolKind) :
    (t.setKind id kind).NamesRight := by
  intro other id' named
  rw [lookup_setKind] at named
  obtain ⟨symbol, has, rfl⟩ := h other id' named
  rw [symbol?_setKind, has]
  split
  · exact ⟨_, rfl, rfl⟩
  · exact ⟨_, rfl, rfl⟩

/-- What every program knows has the names under which it is found. -/
theorem namesRight_initial : initial.NamesRight := by
  have start : nothing.NamesRight := fun name id named => by
    rw [← lookupLocal_eq_lookup inner_nothing] at named
    cases named
  exact List.foldlRecOn builtins _ start fun t right entry _ => right.define _ _ _ _

end SymbolTable

end ScriptToGo
