import ScriptToGo.Check.Module
import ScriptToGo.Proofs.Check.OpenScopes
import ScriptToGo.Proofs.Types.Proper

/-! States of checking in which all types are proper, and the steps that keep them so. -/
namespace ScriptToGo

namespace SymbolTable

theorem mem_symbols_define {t : SymbolTable} {name : String} {kind : SymbolKind} {span : Span}
    {file? : Option FileId} {symbol : Symbol}
    (h : symbol ∈ (t.define name kind span file?).symbols) :
    symbol.kind = kind ∨ symbol ∈ t.symbols := by
  rw [symbols_define] at h
  rcases Array.mem_push.1 h with h | rfl
  · exact .inr h
  · exact .inl rfl

theorem mem_scopes_define {t : SymbolTable} {name : String} {kind : SymbolKind} {span : Span}
    {file? : Option FileId} {scope : Scope} (h : scope ∈ (t.define name kind span file?).scopes) :
    ∃ old ∈ t.scopes, scope.returns? = old.returns? := by
  rw [scopes_define] at h
  rcases List.mem_cons.1 h with rfl | h
  · exact ⟨t.current, t.current_mem, rfl⟩
  · exact ⟨scope, List.mem_of_mem_tail h, rfl⟩

theorem mem_symbols_setKind {t : SymbolTable} {id : SymbolId} {kind : SymbolKind} {symbol : Symbol}
    (h : symbol ∈ (t.setKind id kind).symbols) : symbol.kind = kind ∨ symbol ∈ t.symbols := by
  obtain ⟨i, within, rfl⟩ := Array.mem_iff_getElem.1 h
  simp only [setKind, Array.getElem_modify]
  split
  · exact .inl rfl
  · exact .inr (Array.getElem_mem _)

theorem mem_of_symbol? {t : SymbolTable} {id : SymbolId} {symbol : Symbol}
    (h : t.symbol? id = some symbol) : symbol ∈ t.symbols := Array.mem_of_getElem? h

theorem mem_of_kind? {t : SymbolTable} {name : String} {kind : SymbolKind}
    (h : t.kind? name = some kind) : ∃ symbol ∈ t.symbols, symbol.kind = kind := by
  obtain ⟨id, -, found⟩ := Option.bind_eq_some_iff.1 h
  obtain ⟨symbol, some, rfl⟩ := Option.map_eq_some_iff.1 found
  exact ⟨symbol, mem_of_symbol? some, rfl⟩

theorem proper_builtins {Good : String → Prop} {failed : Prop}
    (aliases : ∀ name ∈ Builtin.numericAliases, Good name)
    (globals : ∀ g ∈ Builtin.globals, Good g.typeName) :
    ∀ entry ∈ builtins, entry.2.Proper Good failed := by
  refine List.forall_mem_append.2 ⟨List.forall_mem_append.2 ⟨?_, ?_⟩, ?_⟩
  · refine List.forall_mem_map.2 fun p _ => ?_
    cases p <;> trivial
  · exact List.forall_mem_map.2 fun name mem => ⟨aliases name mem, trivial⟩
  · exact List.forall_mem_map.2 globals

end SymbolTable

namespace CheckState

/-- An error has been reported. -/
def Failed (s : CheckState) : Prop := s.errors ≠ []

/-- All types that have been recorded, and all that names and results stand for, are proper. -/
structure Sound (Good : String → Prop) (s : CheckState) : Prop where
  types : ∀ entry ∈ s.types.records, entry.2.Proper Good s.Failed
  kinds : ∀ symbol ∈ s.symbols.symbols, symbol.kind.Proper Good s.Failed
  returns : ∀ scope ∈ s.symbols.scopes, ∀ type ∈ scope.returns?, type.Proper Good s.Failed

variable {Good : String → Prop} {s : CheckState}

theorem failed_report (s : CheckState) (e : TypeError) : (s.report e).Failed :=
  List.append_ne_nil_of_right_ne_nil _ (List.cons_ne_nil _ _)

theorem Sound.report (h : s.Sound Good) (e : TypeError) : (s.report e).Sound Good where
  types entry mem := (h.types entry mem).mono fun _ => failed_report s e
  kinds symbol mem := (h.kinds symbol mem).mono fun _ => failed_report s e
  returns scope mem type some := (h.returns scope mem type some).mono fun _ => failed_report s e

theorem Sound.record (h : s.Sound Good) (file : FileId) (span : Span) {type : Ty}
    (proper : type.Proper Good s.Failed) : (s.record file span type).Sound Good where
  types := List.forall_mem_cons.2 ⟨proper, h.types⟩
  kinds := h.kinds
  returns := h.returns

theorem Sound.typeAt (h : s.Sound Good) {file : FileId} {span : Span} {type : Ty}
    (found : s.types.typeAt file span = some type) : type.Proper Good s.Failed := by
  obtain ⟨before, after, records, -⟩ := List.lookup_eq_some_iff.1 found
  exact h.types ((file, span), type) (by simp [records])

theorem Sound.kind (h : s.Sound Good) {name : String} {kind : SymbolKind}
    (found : s.symbols.kind? name = some kind) : kind.Proper Good s.Failed := by
  obtain ⟨symbol, mem, rfl⟩ := SymbolTable.mem_of_kind? found
  exact h.kinds symbol mem

theorem Sound.returnType (h : s.Sound Good) {type : Ty}
    (found : s.symbols.returnType? = some type) : type.Proper Good s.Failed := by
  rw [SymbolTable.returnType?_eq] at found
  obtain ⟨scope, among, some⟩ := Option.bind_eq_some_iff.1 found
  exact h.returns scope (List.mem_of_find?_eq_some among) type some

theorem Sound.define (h : s.Sound Good) (name : String) {kind : SymbolKind} (span : Span)
    (file? : Option FileId) (proper : kind.Proper Good s.Failed) :
    CheckState.Sound Good { s with symbols := s.symbols.define name kind span file? } where
  types := h.types
  kinds symbol mem := by
    rcases SymbolTable.mem_symbols_define mem with rfl | mem
    · exact proper
    · exact h.kinds symbol mem
  returns scope mem := by
    obtain ⟨old, mem, same⟩ := SymbolTable.mem_scopes_define mem
    rw [same]
    exact h.returns old mem

theorem Sound.setKind (h : s.Sound Good) (id : SymbolId) {kind : SymbolKind}
    (proper : kind.Proper Good s.Failed) :
    CheckState.Sound Good { s with symbols := s.symbols.setKind id kind } where
  types := h.types
  kinds symbol mem := by
    rcases SymbolTable.mem_symbols_setKind mem with rfl | mem
    · exact proper
    · exact h.kinds symbol mem
  returns := by
    rw [SymbolTable.scopes_setKind]
    exact h.returns

theorem Sound.setReturnType (h : s.Sound Good) {type : Ty} (proper : type.Proper Good s.Failed) :
    CheckState.Sound Good { s with symbols := s.symbols.setReturnType type } where
  types := h.types
  kinds := h.kinds
  returns scope mem := by
    rw [SymbolTable.scopes_setReturnType] at mem
    rcases List.mem_cons.1 mem with rfl | mem
    · rintro _ ⟨⟩
      exact proper
    · exact h.returns scope (List.mem_of_mem_tail mem)

theorem Sound.enter (h : s.Sound Good) (kind : ScopeKind) :
    CheckState.Sound Good { s with symbols := s.symbols.enter kind } where
  types := h.types
  kinds := h.kinds
  returns := by
    rw [SymbolTable.scopes_enter]
    exact List.forall_mem_cons.2 ⟨nofun, h.returns⟩

theorem Sound.exit (h : s.Sound Good) :
    CheckState.Sound Good { s with symbols := s.symbols.exit } where
  types := h.types
  kinds := h.kinds
  returns scope mem := h.returns scope (SymbolTable.mem_of_mem_scopes_exit mem)

/-- What is known from the start is added to a table entry by entry. -/
theorem kinds_foldl_define {P : SymbolKind → Prop} (entries : List (String × SymbolKind))
    (t : SymbolTable) (good : ∀ entry ∈ entries, P entry.2)
    (start : ∀ symbol ∈ t.symbols, P symbol.kind) :
    ∀ symbol ∈ (entries.foldl (fun t (name, kind) => t.define name kind .zero none) t).symbols,
      P symbol.kind := by
  induction entries generalizing t with
  | nil => exact start
  | cons entry rest ih =>
    obtain ⟨here, others⟩ := List.forall_mem_cons.1 good
    refine ih _ others fun symbol mem => ?_
    rcases SymbolTable.mem_symbols_define mem with is | mem
    · rw [is]
      exact here
    · exact start symbol mem

theorem kinds_initial {P : SymbolKind → Prop} (good : ∀ entry ∈ SymbolTable.builtins, P entry.2) :
    ∀ symbol ∈ SymbolTable.initial.symbols, P symbol.kind :=
  kinds_foldl_define _ _ good (by simp [SymbolTable.nothing])

theorem sound_initial (good : ∀ entry ∈ SymbolTable.builtins, entry.2.Proper Good False) :
    initial.Sound Good where
  types := List.forall_mem_nil _
  kinds symbol mem := (kinds_initial good symbol mem).mono False.elim
  returns scope mem := by
    have none : ∀ scope ∈ SymbolTable.initial.scopes, scope.returns? = none := by decide +kernel
    rw [none scope mem]
    nofun

end CheckState

end ScriptToGo
