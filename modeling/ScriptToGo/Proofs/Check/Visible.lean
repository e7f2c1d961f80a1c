import ScriptToGo.Proofs.Check.Renumbering
import ScriptToGo.Proofs.Check.Outlook
import ScriptToGo.Proofs.Check.SymbolNames

/-! While a module is checked, names stand for what the scopes around a place say. -/
namespace ScriptToGo

namespace SymbolTable

/-- What a name stands for in one of the scopes. -/
def kindIn? (t : SymbolTable) (scope : Scope) (name : String) : Option SymbolKind :=
  (scope.names.lookup name).bind fun id => (t.symbol? id).map Symbol.kind

variable {t : SymbolTable} {scope : Scope} {name : String} {kind : SymbolKind}

theorem exists_symbol_of_lookup (open? : scope ∈ t.scopes) {id : SymbolId}
    (named : scope.names.lookup name = some id) : ∃ symbol, t.symbol? id = some symbol := by
  obtain ⟨before, after, names, -⟩ := List.lookup_eq_some_iff.1 named
  have within := fits_of_mem_scopes open? (name, id) (by simp [names])
  exact ⟨_, Array.getElem?_eq_getElem within⟩

/-- The innermost scope that defines a name decides. -/
theorem kind?_eq_findSome? (t : SymbolTable) (name : String) :
    t.kind? name = t.scopes.findSome? (t.kindIn? · name) := by
  have within : ∀ scopes : List Scope, (∀ scope ∈ scopes, scope ∈ t.scopes) →
      ((scopes.findSome? (·.names.lookup name)).bind fun id => (t.symbol? id).map Symbol.kind)
        = scopes.findSome? (t.kindIn? · name) := by
    intro scopes open?
    induction scopes with
    | nil => rfl
    | cons scope rest ih =>
      obtain ⟨here, others⟩ := List.forall_mem_cons.1 open?
      rw [List.findSome?_cons, List.findSome?_cons, kindIn?]
      cases named : scope.names.lookup name with
      | none => exact ih others
      | some id =>
        obtain ⟨symbol, has⟩ := exists_symbol_of_lookup here named
        dsimp only [Option.bind_some]
        rw [has]
        rfl
  rw [kind?, lookup_eq]
  exact within t.scopes fun _ => id

/-- A definition changes nothing about the scopes that were there. -/
theorem kindIn?_define (open? : scope ∈ t.scopes) (other : String) (kind : SymbolKind) (span : Span)
    (file? : Option FileId) : (t.define other kind span file?).kindIn? scope name
      = t.kindIn? scope name := by
  rw [kindIn?, kindIn?]
  cases named : scope.names.lookup name with
  | none => rfl
  | some id =>
    obtain ⟨symbol, has⟩ := exists_symbol_of_lookup open? named
    rw [Option.bind_some, Option.bind_some, has, symbol?_define has]

theorem kindIn?_setKind (t : SymbolTable) (scope : Scope) (name : String) (id : SymbolId)
    (kind : SymbolKind) : (t.setKind id kind).kindIn? scope name
      = if scope.names.lookup name = some id then (t.kindIn? scope name).map fun _ => kind
        else t.kindIn? scope name := by
  rw [kindIn?, kindIn?]
  cases named : scope.names.lookup name with
  | none => rfl
  | some other =>
    rw [Option.bind_some, Option.bind_some, symbol?_setKind]
    by_cases same : id = other
    · subst same
      rw [if_pos rfl, if_pos rfl]
      cases t.symbol? id <;> rfl
    · rw [if_neg same, if_neg fun eq => same (Option.some.inj eq).symm]

end SymbolTable

namespace ModuleGraph

/-- What is known of a name suits what it stands for. -/
inductive Suits (g : ModuleGraph) : Binding → SymbolKind → Prop
  | variable {type keyword?} : Suits g (.variable keyword?) (.variable type keyword?)
  | function {params returns hasBody} : Suits g .function (.function params returns hasBody)
  | shared {meaning kind} : g.Fits False (some meaning) (some kind) → Suits g (.shared meaning) kind
  | renamed {own kind} : Suits g own kind → Suits g (.renamed own) kind

/-- What is known of the names of a scope suits what they stand for. -/
def SuitsScope (g : ModuleGraph) (t : SymbolTable) (names : List (String × Binding))
    (scope : Scope) : Prop :=
  ∀ name, Option.Rel g.Suits (names.lookup name) (t.kindIn? scope name)

/-- A table of symbols knows what can be seen, scope by scope. -/
structure Matches (g : ModuleGraph) (sight : Sight) (t : SymbolTable) : Prop where
  inside : sight ≠ []
  inner : List.Forall₂ (g.SuitsScope t) sight t.inner
  outermost : ∀ name, g.Fits False (g.meaning? name) (t.kindIn? t.outermost name)
  aliases : t.AliasesFound

variable {g : ModuleGraph} {sight : Sight} {t : SymbolTable}

theorem Suits.setBody {binding : Binding} {params : List Field} {returns : Ty} {hadBody : Bool}
    (h : g.Suits binding (.function params returns hadBody)) (hasBody : Bool) :
    g.Suits binding (.function params returns hasBody) := by
  generalize is : SymbolKind.function params returns hadBody = kind at h
  induction h with
  | «variable» => cases is
  | function =>
    cases is
    exact .function
  | shared fits =>
    subst is
    cases fits with
    | function stands => exact .shared (.function stands)
  | renamed _ ih => exact .renamed (ih is)

namespace Matches

/-- What is known of a name suits what it stands for at the place. -/
theorem kind? (h : g.Matches sight t) (name : String) :
    Option.Rel g.Suits (g.binding? sight name) (t.kind? name) := by
  have outermost : Option.Rel g.Suits ((g.meaning? name).map .shared)
      (t.kindIn? t.outermost name) := by
    have fits := h.outermost name
    generalize g.meaning? name = meaning? at fits ⊢
    generalize t.kindIn? t.outermost name = kind? at fits ⊢
    cases fits with
    | nothing => exact .none
    | type => exact .some (.shared .type)
    | global => exact .some (.shared .global)
    | interface => exact .some (.shared .interface)
    | «alias» stands => exact .some (.shared (.«alias» stands))
    | function stands => exact .some (.shared (.function stands))
  rw [SymbolTable.kind?_eq_findSome?, SymbolTable.scopes, binding?, Sight.local?]
  have inner := h.inner
  generalize t.inner = scopes at inner ⊢
  generalize sight = sight at inner ⊢
  induction inner with
  | nil =>
    rw [List.nil_append, List.findSome?_singleton]
    exact outermost
  | @cons names scope _ _ here _ ih =>
    have here := here name
    rw [List.findSome?_cons, List.cons_append, List.findSome?_cons]
    generalize names.lookup name = binding? at here ⊢
    generalize t.kindIn? scope name = kind? at here ⊢
    cases here with
    | none => exact ih
    | some suits => exact .some suits

theorem exists_inner (h : g.Matches sight t) : ∃ names outer scope others,
    sight = names :: outer ∧ t.inner = scope :: others ∧ g.SuitsScope t names scope ∧
      List.Forall₂ (g.SuitsScope t) outer others := by
  have inner := h.inner
  cases is : t.inner with
  | nil =>
    rw [is, List.forall₂_nil_right_iff] at inner
    exact (h.inside inner).elim
  | cons scope others =>
    rw [is, List.forall₂_cons_right_iff] at inner
    obtain ⟨names, outer, here, rest, rfl⟩ := inner
    exact ⟨names, outer, scope, others, rfl, rfl, here, rest⟩

/-- Scopes whose names stand for the same still suit. -/
theorem forall₂_congr {u : SymbolTable} {sight : Sight} {scopes : List Scope}
    (h : List.Forall₂ (g.SuitsScope t) sight scopes)
    (same : ∀ scope ∈ scopes, ∀ name, u.kindIn? scope name = t.kindIn? scope name) :
    List.Forall₂ (g.SuitsScope u) sight scopes := by
  induction h with
  | nil => exact .nil
  | cons here _ ih =>
    obtain ⟨first, others⟩ := List.forall_mem_cons.1 same
    exact .cons (fun name => first name ▸ here name) (ih others)

/-- Defining a name in the innermost scope defines it there. -/
theorem define (h : g.Matches sight t) {name : String} {binding : Binding} {kind : SymbolKind}
    (suits : g.Suits binding kind) (known : ∀ written, kind ≠ .«alias» written none) (span : Span)
    (file? : Option FileId) :
    g.Matches (sight.define name binding) (t.define name kind span file?) := by
  obtain ⟨names, outer, scope, others, rfl, is, here, rest⟩ := h.exists_inner
  have stays {a : Scope} (mem : a ∈ t.scopes) (other : String) :
      (t.define name kind span file?).kindIn? a other = t.kindIn? a other :=
    SymbolTable.kindIn?_define mem name kind span file?
  have all : t.scopes = scope :: others ++ [t.outermost] := by rw [SymbolTable.scopes, is]
  constructor
  case inside => exact List.cons_ne_nil _ _
  case inner =>
    rw [SymbolTable.inner_define is]
    refine .cons (fun other => ?_) (forall₂_congr rest fun a mem other => stays ?_ other)
    · rw [SymbolTable.kindIn?, List.lookup_cons, List.lookup_cons]
      by_cases same : other = name
      · rw [beq_iff_eq.2 same, Option.bind_some, SymbolTable.symbol?_define_self]
        exact .some suits
      · rw [beq_false_of_ne same]
        have before := stays (a := scope) (by simp [all]) other
        rw [SymbolTable.kindIn?] at before
        rw [before]
        exact here other
    · rw [all]
      exact List.mem_append_left _ (List.mem_cons_of_mem _ mem)
  case outermost =>
    intro other
    rw [SymbolTable.outermost_define is, stays (by simp [all])]
    exact h.outermost other
  case aliases =>
    intro id symbol has
    rw [SymbolTable.symbol?_define_eq] at has
    split at has
    · obtain rfl := Option.some.inj has
      exact known
    · exact h.aliases id symbol has

/-- A name that the innermost scope has already may stand for something else that it suits. -/
theorem hold (h : g.Matches sight t) {name : String} {id : SymbolId} {symbol : Symbol}
    {binding : Binding} (named : t.lookupLocal name = some id) (has : t.symbol? id = some symbol)
    (suits : g.Suits binding symbol.kind) : g.Matches (sight.define name binding) t := by
  obtain ⟨names, outer, scope, others, rfl, is, here, rest⟩ := h.exists_inner
  rw [SymbolTable.lookupLocal, SymbolTable.current_of_cons is] at named
  refine { h with inside := List.cons_ne_nil _ _, inner := ?_ }
  rw [is]
  refine .cons (fun other => ?_) rest
  rw [List.lookup_cons]
  by_cases same : other = name
  · rw [beq_iff_eq.2 same, same, SymbolTable.kindIn?, named, Option.bind_some, has]
    exact .some suits
  · rw [beq_false_of_ne same]
    exact here other

/-- It may be found that a function has a body. -/
theorem setBody (h : g.Matches sight t) {id : SymbolId} {symbol : Symbol} {params : List Field}
    {returns : Ty} {hadBody : Bool} (has : t.symbol? id = some symbol)
    (is : symbol.kind = .function params returns hadBody) (hasBody : Bool) :
    g.Matches sight (t.setKind id (.function params returns hasBody)) := by
  have inside (scope : Scope) (name : String) (named : scope.names.lookup name = some id) :
      t.kindIn? scope name = some (.function params returns hadBody) := by
    rw [SymbolTable.kindIn?, named, Option.bind_some, has, ← is]
    rfl
  constructor
  case inside => exact h.inside
  case inner =>
    rw [SymbolTable.inner_setKind]
    refine h.inner.imp fun names scope suits name => ?_
    rw [SymbolTable.kindIn?_setKind]
    have before := suits name
    split
    next named =>
      rw [inside scope name named] at before ⊢
      generalize names.lookup name = binding? at before
      cases before with
      | some suits => exact .some (suits.setBody hasBody)
    · exact before
  case outermost =>
    intro name
    change g.Fits False _ ((t.setKind id _).kindIn? t.outermost name)
    rw [SymbolTable.kindIn?_setKind]
    have before := h.outermost name
    split
    next named =>
      rw [inside _ name named] at before ⊢
      generalize g.meaning? name = meaning? at before
      cases before with
      | function stands => exact .function stands
    · exact before
  case aliases =>
    intro other symbol has'
    rw [SymbolTable.symbol?_setKind] at has'
    split at has'
    · obtain ⟨_, -, rfl⟩ := Option.map_eq_some_iff.1 has'
      intro written
      simp
    · exact h.aliases other symbol has'

theorem enter (h : g.Matches sight t) (kind : ScopeKind) :
    g.Matches ([] :: sight) (t.enter kind) where
  inside := List.cons_ne_nil _ _
  inner := by
    rw [SymbolTable.inner_enter]
    exact .cons (fun _ => .none) h.inner
  outermost name := by
    rw [SymbolTable.outermost_enter]
    exact h.outermost name
  aliases := h.aliases

theorem exit {names : List (String × Binding)} (inside : sight ≠ [])
    (h : g.Matches (names :: sight) t) : g.Matches sight t.exit where
  inside := inside
  inner := by
    obtain ⟨_, _, scope, others, same, is, -, rest⟩ := h.exists_inner
    obtain ⟨rfl, rfl⟩ := List.cons.inj same
    rw [SymbolTable.inner_exit, is, List.tail_cons]
    exact rest
  outermost := h.outermost
  aliases := h.aliases

theorem setReturnType (h : g.Matches sight t) (type : Ty) :
    g.Matches sight (t.setReturnType type) := by
  obtain ⟨names, outer, scope, others, rfl, is, here, rest⟩ := h.exists_inner
  have same (a : Scope) (name : String) :
      (t.setReturnType type).kindIn? a name = t.kindIn? a name := by
    rw [SymbolTable.kindIn?, SymbolTable.kindIn?]
    simp only [SymbolTable.symbol?_setReturnType]
  constructor
  case inside => exact h.inside
  case inner =>
    rw [SymbolTable.inner_setReturnType is]
    exact .cons (fun name => same scope name ▸ here name) (forall₂_congr rest fun a _ => same a)
  case outermost =>
    intro name
    rw [SymbolTable.outermost_setReturnType is, same]
    exact h.outermost name
  case aliases =>
    intro id symbol has
    rw [SymbolTable.symbol?_setReturnType] at has
    exact h.aliases id symbol has

end Matches

end ModuleGraph

end ScriptToGo
