import ScriptToGo.Proofs.Check.AliasNames
import Mathlib.Data.List.Forall2
import ScriptToGo.Proofs.Check.Recorded

/-! Tables of symbols that only differ in how they number what was defined since some moment. A module is
checked in the same way whether others have been checked before or not. -/
namespace ScriptToGo

/-- What is known of a symbol but for the scope in which it was defined. -/
def Symbol.entity (s : Symbol) : Symbol := { s with scope := 0 }

/-- A scope whose names have numbers that are larger by `shift`, all of them new. -/
structure Scope.Renumbered (count shift : Nat) (a b : Scope) : Prop where
  kind : b.kind = a.kind
  returns : b.returns? = a.returns?
  names : b.names = a.names.map fun (name, id) => (name, id + shift)
  new : ∀ entry ∈ a.names, count ≤ entry.2

namespace SymbolTable

/-- Tables with a common past. The second one has seen more symbols since, but the scopes that are
open name none of those. -/
structure Renumbered (past : SymbolTable) (shift : Nat) (s t : SymbolTable) : Prop where
  outermost : s.outermost = past.outermost
  outermost' : t.outermost = past.outermost
  size : past.symbols.size ≤ s.symbols.size
  size' : t.symbols.size = s.symbols.size + shift
  old : ∀ id < past.symbols.size, s.symbol? id = past.symbol? id
  old' : ∀ id < past.symbols.size, t.symbol? id = past.symbol? id
  new : ∀ id, past.symbols.size ≤ id →
    (t.symbol? (id + shift)).map Symbol.entity = (s.symbol? id).map Symbol.entity
  inner : List.Forall₂ (Scope.Renumbered past.symbols.size shift) s.inner t.inner

/-- What a name stands for, with all that is known of it. -/
def entity? (t : SymbolTable) (name : String) : Option Symbol :=
  (t.lookup name).bind fun id => (t.symbol? id).map Symbol.entity

theorem kind?_eq_entity? (t : SymbolTable) (name : String) :
    t.kind? name = (t.entity? name).map Symbol.kind := by
  rw [kind?, entity?]
  cases t.lookup name with
  | none => rfl
  | some id => simp [Function.comp_def, Symbol.entity]

theorem lookup_shift (names : List (String × SymbolId)) (shift : Nat) (name : String) :
    (names.map fun (name, id) => (name, id + shift)).lookup name
      = (names.lookup name).map (· + shift) := by
  induction names with
  | nil => rfl
  | cons entry rest ih =>
    rw [List.map_cons, List.lookup_cons, List.lookup_cons, ih]
    split <;> rfl

theorem mem_of_lookup {names : List (String × SymbolId)} {name : String} {id : SymbolId}
    (found : names.lookup name = some id) : (name, id) ∈ names := by
  obtain ⟨before, after, rfl, -⟩ := List.lookup_eq_some_iff.1 found
  simp

theorem symbol?_setReturnType (t : SymbolTable) (type : Ty) (id : SymbolId) :
    (t.setReturnType type).symbol? id = t.symbol? id := by
  rw [symbol?, symbols_setReturnType, symbol?]

namespace Renumbered

variable {past s t : SymbolTable} {shift : Nat} {name : String}

/-- At first, the second table has only seen more symbols, in scopes that are closed. -/
theorem start (closed : past.inner = []) (closed' : t.inner = [])
    (outermost : t.outermost = past.outermost) (size : past.symbols.size ≤ t.symbols.size)
    (old : ∀ id < past.symbols.size, t.symbol? id = past.symbol? id) :
    Renumbered past (t.symbols.size - past.symbols.size) past t where
  outermost := rfl
  outermost' := outermost
  size := Nat.le_refl _
  size' := (Nat.add_sub_of_le size).symm
  old _ _ := rfl
  old' := old
  new id le := by
    have last : t.symbols.size ≤ id + (t.symbols.size - past.symbols.size) := by omega
    rw [symbol?, symbol?, Array.getElem?_eq_none le, Array.getElem?_eq_none last]
  inner := by
    rw [closed, closed']
    exact .nil

/-- A new symbol has another number, and maybe another scope, in the second table. -/
theorem exists_scope (h : Renumbered past shift s t) {id : SymbolId} (new : past.symbols.size ≤ id)
    {symbol : Symbol} (has : s.symbol? id = some symbol) :
    ∃ scope, t.symbol? (id + shift) = some { symbol with scope } := by
  have entity := h.new id new
  rw [has] at entity
  obtain ⟨other, there, same⟩ := Option.map_eq_some_iff.1 entity
  have is : other = { symbol with scope := other.scope } :=
    congrArg (fun s : Symbol => { s with scope := other.scope }) same
  exact ⟨other.scope, is ▸ there⟩

/-- Names in the scopes inside of the global one are renumbered, and they are all new. -/
theorem lookup_inner {count : Nat} {inner inner' : List Scope}
    (h : List.Forall₂ (Scope.Renumbered count shift) inner inner') (name : String) :
    inner'.findSome? (·.names.lookup name)
        = (inner.findSome? (·.names.lookup name)).map (· + shift)
      ∧ ∀ id ∈ inner.findSome? (·.names.lookup name), count ≤ id := by
  induction h with
  | nil => exact ⟨rfl, nofun⟩
  | @cons a b rest rest' here _ ih =>
    rw [List.findSome?_cons, List.findSome?_cons, here.names, lookup_shift]
    cases found : a.names.lookup name with
    | none => exact ih
    | some id =>
      refine ⟨rfl, ?_⟩
      rintro _ ⟨⟩
      exact here.new _ (mem_of_lookup found)

/-- A name stands for the same in both tables. -/
theorem entity?_eq (h : Renumbered past shift s t) (name : String) :
    t.entity? name = s.entity? name := by
  obtain ⟨shifted, new⟩ := lookup_inner h.inner name
  rw [entity?, entity?, lookup_eq, lookup_eq, scopes, scopes, List.findSome?_append,
    List.findSome?_append, shifted, h.outermost, h.outermost']
  cases found : s.inner.findSome? (·.names.lookup name) with
  | some id => exact h.new id (new id found)
  | none =>
    cases outer : past.outermost.names.lookup name with
    | none => simp [outer]
    | some id =>
      have within : id < past.symbols.size :=
        fits_of_mem_scopes (List.mem_concat_self ..) _ (mem_of_lookup outer)
      simp [outer, h.old id within, h.old' id within]

theorem kind?_eq (h : Renumbered past shift s t) (name : String) : t.kind? name = s.kind? name := by
  rw [kind?_eq_entity?, kind?_eq_entity?, h.entity?_eq]

theorem returnType?_eq (h : Renumbered past shift s t) : t.returnType? = s.returnType? := by
  have inner := h.inner
  rw [t.returnType?_eq, s.returnType?_eq, scopes, scopes, h.outermost, h.outermost']
  generalize s.inner = here, t.inner = there at inner ⊢
  induction inner with
  | nil => rfl
  | @cons a b rest rest' here _ ih =>
    rw [List.cons_append, List.cons_append, List.find?_cons, List.find?_cons, here.kind]
    split
    · exact here.returns
    · exact ih

/-- Inside of a scope of its own, the first table is one scope and others. -/
theorem exists_current (h : Renumbered past shift s t) (inside : 0 < s.inner.length) :
    ∃ a rest b rest', s.inner = a :: rest ∧ t.inner = b :: rest' ∧ s.current = a ∧ t.current = b
      ∧ Scope.Renumbered past.symbols.size shift a b
      ∧ List.Forall₂ (Scope.Renumbered past.symbols.size shift) rest rest' := by
  have inner := h.inner
  cases some : s.inner with
  | nil => simp [some] at inside
  | cons a rest =>
    rw [some] at inner
    obtain ⟨b, rest', first, others, some'⟩ := List.forall₂_cons_left_iff.1 inner
    exact ⟨a, rest, b, rest', rfl, some', current_of_cons some, current_of_cons some', first,
      others⟩

theorem lookupLocal_eq (h : Renumbered past shift s t) (inside : 0 < s.inner.length)
    (name : String) : t.lookupLocal name = (s.lookupLocal name).map (· + shift)
      ∧ ∀ id ∈ s.lookupLocal name, past.symbols.size ≤ id := by
  obtain ⟨a, rest, b, rest', -, -, here, here', first, -⟩ := h.exists_current inside
  rw [lookupLocal, lookupLocal, here, here', first.names, lookup_shift]
  exact ⟨rfl, fun id found => first.new _ (mem_of_lookup found)⟩

theorem enter (h : Renumbered past shift s t) (kind : ScopeKind) :
    Renumbered past shift (s.enter kind) (t.enter kind) where
  outermost := (s.outermost_enter kind).trans h.outermost
  outermost' := (t.outermost_enter kind).trans h.outermost'
  size := h.size
  size' := h.size'
  old := h.old
  old' := h.old'
  new := h.new
  inner := by
    rw [inner_enter, inner_enter]
    exact .cons ⟨rfl, rfl, rfl, List.forall_mem_nil _⟩ h.inner

theorem exit (h : Renumbered past shift s t) : Renumbered past shift s.exit t.exit := by
  refine { h with inner := ?_ }
  have inner := h.inner
  rw [inner_exit, inner_exit]
  generalize s.inner = here, t.inner = there at inner ⊢
  cases inner with
  | nil => exact .nil
  | cons _ others => exact others

theorem define (h : Renumbered past shift s t) (inside : 0 < s.inner.length) (name : String)
    (kind : SymbolKind) (span : Span) (file? : Option FileId) :
    Renumbered past shift (s.define name kind span file?) (t.define name kind span file?) := by
  obtain ⟨a, rest, b, rest', inner, inner', -, -, first, others⟩ := h.exists_current inside
  constructor
  case outermost => rw [outermost_define inner, h.outermost]
  case outermost' => rw [outermost_define inner', h.outermost']
  case size =>
    rw [symbols_define, Array.size_push]
    exact Nat.le_succ_of_le h.size
  case size' =>
    rw [symbols_define, symbols_define, Array.size_push, Array.size_push, h.size']
    omega
  case old =>
    intro id lt
    have ne : id ≠ s.symbols.size := Nat.ne_of_lt (Nat.lt_of_lt_of_le lt h.size)
    rw [symbol?_define_eq, if_neg ne, h.old id lt]
  case old' =>
    intro id lt
    have ne : id ≠ t.symbols.size := by
      have := h.size
      have := h.size'
      omega
    rw [symbol?_define_eq, if_neg ne, h.old' id lt]
  case new =>
    intro id le
    rw [symbol?_define_eq, symbol?_define_eq, h.size']
    by_cases last : id = s.symbols.size
    · rw [if_pos last, if_pos (congrArg (· + shift) last)]
      rfl
    · rw [if_neg last, if_neg fun same => last (Nat.add_right_cancel same), h.new id le]
  case inner =>
    rw [inner_define inner, inner_define inner', h.size']
    refine .cons ⟨first.kind, first.returns, ?_, ?_⟩ others
    · rw [List.map_cons, first.names]
    · exact List.forall_mem_cons.2 ⟨h.size, first.new⟩

theorem setReturnType (h : Renumbered past shift s t) (inside : 0 < s.inner.length) (type : Ty) :
    Renumbered past shift (s.setReturnType type) (t.setReturnType type) := by
  obtain ⟨a, rest, b, rest', inner, inner', -, -, first, others⟩ := h.exists_current inside
  constructor
  case outermost => rw [outermost_setReturnType inner, h.outermost]
  case outermost' => rw [outermost_setReturnType inner', h.outermost']
  case size =>
    rw [symbols_setReturnType]
    exact h.size
  case size' => rw [symbols_setReturnType, symbols_setReturnType, h.size']
  case old => simpa only [symbol?_setReturnType] using h.old
  case old' => simpa only [symbol?_setReturnType] using h.old'
  case new => simpa only [symbol?_setReturnType] using h.new
  case inner =>
    rw [inner_setReturnType inner, inner_setReturnType inner']
    exact .cons ⟨first.kind, rfl, first.names, first.new⟩ others

theorem setKind (h : Renumbered past shift s t) {id : SymbolId} (new : past.symbols.size ≤ id)
    (kind : SymbolKind) :
    Renumbered past shift (s.setKind id kind) (t.setKind (id + shift) kind) where
  outermost := h.outermost
  outermost' := h.outermost'
  size := by
    rw [SymbolTable.setKind, Array.size_modify]
    exact h.size
  size' := by
    rw [SymbolTable.setKind, SymbolTable.setKind, Array.size_modify, Array.size_modify]
    exact h.size'
  old other lt := by
    rw [symbol?_setKind, if_neg (Nat.ne_of_gt (Nat.lt_of_lt_of_le lt new)), h.old other lt]
  old' other lt := by
    have above : other < id + shift := Nat.lt_of_lt_of_le lt (Nat.le_add_right_of_le new)
    rw [symbol?_setKind, if_neg (Nat.ne_of_gt above), h.old' other lt]
  new other le := by
    have same := h.new other le
    rw [symbol?_setKind, symbol?_setKind]
    by_cases here : id = other
    · subst here
      rw [if_pos rfl, if_pos rfl, Option.map_map, Option.map_map]
      have := congrArg (Option.map fun s : Symbol => { s with kind }) same
      simpa [Function.comp_def, Symbol.entity] using this
    · rw [if_neg here, if_neg fun eq => here (Nat.add_right_cancel eq), same]
  inner := by
    rw [inner_setKind, inner_setKind]
    exact h.inner

end Renumbered

end SymbolTable

/-- It is known what every alias stands for. -/
def SymbolTable.AliasesFound (t : SymbolTable) : Prop :=
  ∀ id symbol, t.symbol? id = some symbol → ∀ written, symbol.kind ≠ .«alias» written none

theorem SymbolTable.AliasesFound.kind?_ne {t : SymbolTable} (h : t.AliasesFound) (name : String)
    (written : TypeExpr) : t.kind? name ≠ some (.«alias» written none) := by
  intro stands
  obtain ⟨id, -, found⟩ := Option.bind_eq_some_iff.1 stands
  obtain ⟨symbol, some, kind⟩ := Option.map_eq_some_iff.1 found
  exact h id symbol some written kind

/-- Two states in which a module may be checked: `here`, and `there` where others have been checked
before. -/
structure Starts where
  file : FileId
  /-- The ranges to which checking the module gives types. -/
  own : Span → Prop
  /-- The places that have the same types in both states. -/
  known : FileId → Span → Prop
  here : CheckState
  there : CheckState
  known_file : ∀ span, known file span
  agree : ∀ file span, known file span →
    there.types.typeAt file span = here.types.typeAt file span

namespace Starts

/-- How many symbols have been defined between the two states. -/
def shift (p : Starts) : Nat := p.there.symbols.symbols.size - p.here.symbols.symbols.size

/-- Checking the module gives types to nodes and to those inside of them. -/
def Owns (p : Starts) (nodes : List Node) : Prop := ∀ n ∈ nodes.flatMap Node.all, p.own n.span

theorem owns_singleton {p : Starts} {n : Node} : p.Owns [n] ↔ p.own n.span ∧ p.Owns n.inner := by
  rw [Owns, List.flatMap_singleton, Node.all_eq, List.forall_mem_cons, Owns]

theorem owns_append {p : Starts} {nodes more : List Node} :
    p.Owns (nodes ++ more) ↔ p.Owns nodes ∧ p.Owns more := by
  rw [Owns, List.flatMap_append, List.forall_mem_append, Owns, Owns]

theorem owns_cons {p : Starts} {n : Node} {rest : List Node} :
    p.Owns (n :: rest) ↔ p.Owns [n] ∧ p.Owns rest := by
  rw [← List.singleton_append, owns_append]

/-- The same moment of checking the module, once from `here` and once from `there`. What has been
found since is the same, and nothing of it is about other modules or about circles of aliases. -/
structure Alike (p : Starts) (depth : Nat) (s t : CheckState) : Prop where
  symbols : p.here.symbols.Renumbered p.shift s.symbols t.symbols
  depth : s.symbols.inner.length = depth
  found : s.symbols.AliasesFound
  errors : ∃ new, s.errors = p.here.errors ++ new ∧ t.errors = p.there.errors ++ new
    ∧ ∀ e ∈ new, e.file = p.file ∧ ∀ name, e.fault ≠ .circularAlias name
  types : ∃ new, s.types.records = new ++ p.here.types.records
    ∧ t.types.records = new ++ p.there.types.records
    ∧ ∀ r ∈ new, r.1.1 = p.file ∧ p.own r.1.2

namespace Alike

variable {p : Starts} {depth : Nat} {s t : CheckState}

theorem typeAt_eq (h : p.Alike depth s t) {file : FileId} {span : Span}
    (known : p.known file span) : t.types.typeAt file span = s.types.typeAt file span := by
  obtain ⟨new, here, there, -⟩ := h.types
  have same := p.agree file span known
  rw [TypeTable.typeAt, TypeTable.typeAt] at same ⊢
  rw [here, there, List.lookup_append, List.lookup_append, same]

theorem kind?_eq (h : p.Alike depth s t) (name : String) :
    t.symbols.kind? name = s.symbols.kind? name := h.symbols.kind?_eq name

theorem report (h : p.Alike depth s t) {fault : TypeFault} (span : Span)
    (plain : ∀ name, fault ≠ .circularAlias name) :
    p.Alike depth (s.report ⟨p.file, fault, span⟩) (t.report ⟨p.file, fault, span⟩) := by
  obtain ⟨new, here, there, own⟩ := h.errors
  refine { h with errors := ⟨new ++ [⟨p.file, fault, span⟩], ?_, ?_, ?_⟩ }
  · rw [CheckState.report, here, List.append_assoc]
  · rw [CheckState.report, there, List.append_assoc]
  · exact List.forall_mem_append.2 ⟨own, List.forall_mem_singleton.2 ⟨rfl, plain⟩⟩

theorem record (h : p.Alike depth s t) {span : Span} (own : p.own span) (type : Ty) :
    p.Alike depth (s.record p.file span type) (t.record p.file span type) := by
  obtain ⟨new, here, there, all⟩ := h.types
  refine { h with types := ⟨((p.file, span), type) :: new, ?_, ?_, ?_⟩ }
  · exact congrArg (((p.file, span), type) :: ·) here
  · exact congrArg (((p.file, span), type) :: ·) there
  · exact List.forall_mem_cons.2 ⟨⟨rfl, own⟩, all⟩

/-- Both states go on with other tables of symbols. -/
theorem withSymbols {deeper : Nat} (h : p.Alike depth s t) {symbols symbols' : SymbolTable}
    (renumbered : p.here.symbols.Renumbered p.shift symbols symbols')
    (length : symbols.inner.length = deeper) (found : symbols.AliasesFound) :
    p.Alike deeper { s with symbols } { t with symbols := symbols' } :=
  { symbols := renumbered, depth := length, found, errors := h.errors, types := h.types }

theorem define (h : p.Alike depth s t) (inside : 0 < depth) (name : String) {kind : SymbolKind}
    (span : Span) (file? : Option FileId) (known : ∀ written, kind ≠ .«alias» written none) :
    p.Alike depth { s with symbols := s.symbols.define name kind span file? }
      { t with symbols := t.symbols.define name kind span file? } := by
  have inside : 0 < s.symbols.inner.length := h.depth ▸ inside
  obtain ⟨a, rest, -, -, inner, -⟩ := h.symbols.exists_current inside
  refine h.withSymbols (h.symbols.define inside name kind span file?) ?_ ?_
  · rw [SymbolTable.inner_define inner, ← h.depth, inner]
    rfl
  · intro id symbol some
    rw [SymbolTable.symbol?_define_eq] at some
    split at some
    · obtain rfl := Option.some.inj some
      exact known
    · exact h.found id symbol some

theorem setKind (h : p.Alike depth s t) {id : SymbolId} (new : p.here.symbols.symbols.size ≤ id)
    {kind : SymbolKind} (known : ∀ written, kind ≠ .«alias» written none) :
    p.Alike depth { s with symbols := s.symbols.setKind id kind }
      { t with symbols := t.symbols.setKind (id + p.shift) kind } := by
  have depth := (congrArg List.length (s.symbols.inner_setKind id kind)).trans h.depth
  refine h.withSymbols (h.symbols.setKind new kind) depth ?_
  intro other symbol some
  rw [SymbolTable.symbol?_setKind] at some
  split at some
  · obtain ⟨_, -, rfl⟩ := Option.map_eq_some_iff.1 some
    exact known
  · exact h.found other symbol some

theorem setReturnType (h : p.Alike depth s t) (inside : 0 < depth) (type : Ty) :
    p.Alike depth { s with symbols := s.symbols.setReturnType type }
      { t with symbols := t.symbols.setReturnType type } := by
  have inside : 0 < s.symbols.inner.length := h.depth ▸ inside
  obtain ⟨a, rest, -, -, inner, -⟩ := h.symbols.exists_current inside
  refine h.withSymbols (h.symbols.setReturnType inside type) ?_ ?_
  · rw [SymbolTable.inner_setReturnType inner, ← h.depth, inner]
    rfl
  · intro id symbol some
    rw [SymbolTable.symbol?_setReturnType] at some
    exact h.found id symbol some

theorem enter (h : p.Alike depth s t) (kind : ScopeKind) :
    p.Alike (depth + 1) { s with symbols := s.symbols.enter kind }
      { t with symbols := t.symbols.enter kind } :=
  have deeper := (congrArg List.length (s.symbols.inner_enter kind)).trans
    (congrArg (· + 1) h.depth)
  h.withSymbols (h.symbols.enter kind) deeper h.found

theorem exit (h : p.Alike (depth + 1) s t) :
    p.Alike depth { s with symbols := s.symbols.exit } { t with symbols := t.symbols.exit } := by
  refine h.withSymbols h.symbols.exit ?_ h.found
  rw [SymbolTable.inner_exit, List.length_tail, h.depth, Nat.add_sub_cancel]

end Alike

end Starts

end ScriptToGo
