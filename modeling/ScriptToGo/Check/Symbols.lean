import ScriptToGo.Program.Statement
import ScriptToGo.Types.Ty

/-! The names that a program can see, scope by scope. -/
namespace ScriptToGo

/-- The number of a symbol: its place in the order of definition. -/
abbrev SymbolId := Nat

/-- The number of a scope: how many were opened before it. -/
abbrev ScopeId := Nat

/-- What a name stands for. -/
inductive SymbolKind
  /-- A parameter, or a variable together with the word that declares it. -/
  | variable (type : Ty) (keyword? : Option VariableKeyword)
  /-- A function, and whether more than overloads of it have been seen. -/
  | function (params : List Field) (returns : Ty) (hasBody : Bool)
  | builtin (type : Ty)
  | interface (members : List Field)
  /-- A type alias as written, and what it stands for once that is known. -/
  | «alias» (written : TypeExpr) (target? : Option Ty)
  | global (value : Builtin.Global)

/-- A named entity. -/
structure Symbol where
  name : String
  kind : SymbolKind
  span : Span
  /-- The module that declares it; what every program knows has none. -/
  file? : Option Nat
  /-- The scope in which it is defined. -/
  scope : ScopeId

/-- What a scope belongs to. -/
inductive ScopeKind
  | global
  | module
  | function
  | block
deriving DecidableEq

/-- What one scope holds. -/
structure Scope where
  kind : ScopeKind
  /-- The names that it defines, the last definition first. -/
  names : List (String × SymbolId)
  /-- The result type of the function, if the scope is its body. -/
  returns? : Option Ty

/-- Every name of a scope has one of the first `count` symbols. -/
def Scope.Fits (scope : Scope) (count : Nat) : Prop := ∀ entry ∈ scope.names, entry.2 < count

/-- A scope among all those that have been opened. -/
structure NestedScope extends Scope where
  /-- The scope around it. The global one has none. -/
  parent? : Option ScopeId

/-- A scope lies in one that was opened before it. Only the first scope lies in no other. -/
def NestedScope.LiesBelow (scope : NestedScope) (id : ScopeId) : Prop :=
  match scope.parent? with
  | none => id = 0
  | some parent => parent < id

/-- Every symbol and every scope so far. A scope that is closed stays, but nothing leads to it. -/
@[ext]
structure SymbolTable where
  symbols : Array Symbol
  /-- The scopes in the order in which they were opened, the global one first. -/
  arena : Array NestedScope
  /-- The innermost open scope. -/
  currentId : ScopeId
  current_lt : currentId < arena.size
  nested : ∀ id, (within : id < arena.size) → arena[id].LiesBelow id
  /-- Every number in a scope belongs to a symbol. -/
  valid : ∀ scope ∈ arena, scope.Fits symbols.size

namespace SymbolTable

theorem parent_lt {t : SymbolTable} {id parent : ScopeId} {within : id < t.arena.size}
    (around : t.arena[id].parent? = some parent) : parent < id := by
  have nested := t.nested id within
  rwa [NestedScope.LiesBelow, around] at nested

def current (t : SymbolTable) : Scope :=
  have := t.current_lt
  t.arena[t.currentId].toScope

/-- Changes what the current scope holds, and adds the symbols that it may then name. -/
def modifyCurrent (t : SymbolTable) (f : Scope → Scope) (symbols : Array Symbol)
    (grows : t.symbols.size ≤ symbols.size) (fits : (f t.current).Fits symbols.size) :
    SymbolTable :=
  have := t.current_lt
  { symbols
    arena := t.arena.set t.currentId { t.arena[t.currentId] with toScope := f t.current }
    currentId := t.currentId
    current_lt := by rwa [Array.size_set]
    nested := by
      intro id within
      rw [Array.getElem_set]
      split
      next same => exact same ▸ t.nested t.currentId t.current_lt
      next => exact t.nested id _
    valid := by
      intro scope mem
      rcases Array.mem_or_eq_of_mem_set mem with mem | rfl
      · exact fun entry named => Nat.lt_of_lt_of_le (t.valid scope mem entry named) grows
      · exact fits }

/-- Opens a scope inside of the current one. -/
def enter (t : SymbolTable) (kind : ScopeKind) : SymbolTable where
  symbols := t.symbols
  arena := t.arena.push ⟨⟨kind, [], none⟩, some t.currentId⟩
  currentId := t.arena.size
  current_lt := by simp
  nested := by
    intro id within
    rw [Array.getElem_push]
    split
    next => exact t.nested id _
    next last =>
      rw [Array.size_push] at within
      exact Nat.lt_of_lt_of_le t.current_lt (Nat.le_of_not_lt last)
  valid := by
    intro scope mem
    rcases Array.mem_push.1 mem with mem | rfl
    · exact t.valid scope mem
    · exact nofun

/-- Closes the current scope. The global one stays open. -/
def exit (t : SymbolTable) : SymbolTable :=
  have within := t.current_lt
  { t with
    currentId := t.arena[t.currentId].parent?.getD t.currentId
    current_lt := by
      cases around : t.arena[t.currentId].parent? with
      | none => exact within
      | some parent => exact Nat.lt_trans (parent_lt around) within }

/-- Defines a name in the current scope, where it hides earlier ones. -/
def define (t : SymbolTable) (name : String) (kind : SymbolKind) (span : Span)
    (file? : Option Nat) : SymbolTable :=
  let symbol : Symbol := ⟨name, kind, span, file?, t.currentId⟩
  t.modifyCurrent (fun s => { s with names := (name, t.symbols.size) :: s.names })
    (t.symbols.push symbol) (by simp) fun entry named => by
      rw [Array.size_push, Nat.lt_succ_iff]
      rcases List.mem_cons.1 named with rfl | named
      · exact Nat.le_refl _
      · exact Nat.le_of_lt (t.valid _ (Array.getElem_mem t.current_lt) entry named)

/-- What a scope answers, or else the scope around it, and so on outwards. -/
def findFrom {α : Type} (t : SymbolTable) (ask : Scope → Option α) (id : ScopeId)
    (within : id < t.arena.size) : Option α :=
  match ask t.arena[id].toScope with
  | some answer => some answer
  | none =>
    match around : t.arena[id].parent? with
    | none => none
    | some parent =>
      have before : parent < id := parent_lt around
      t.findFrom ask parent (Nat.lt_trans before within)

/-- The symbol that a name stands for, seen from the current scope outwards. -/
def lookup (t : SymbolTable) (name : String) : Option SymbolId :=
  t.findFrom (·.names.lookup name) t.currentId t.current_lt

/-- The symbol that a name stands for in the current scope alone. -/
def lookupLocal (t : SymbolTable) (name : String) : Option SymbolId :=
  t.current.names.lookup name

def symbol? (t : SymbolTable) (id : SymbolId) : Option Symbol := t.symbols[id]?

/-- What a name stands for, seen from the current scope outwards. -/
def kind? (t : SymbolTable) (name : String) : Option SymbolKind :=
  (t.lookup name).bind fun id => (t.symbol? id).map Symbol.kind

/-- Changes what the name of a symbol stands for. -/
def setKind (t : SymbolTable) (id : SymbolId) (kind : SymbolKind) : SymbolTable :=
  { t with
    symbols := t.symbols.modify id fun s => { s with kind }
    valid := by
      rw [Array.size_modify]
      exact t.valid }

/-- The result type of the function around the current scope. -/
def returnType? (t : SymbolTable) : Option Ty :=
  let ask (scope : Scope) := if scope.kind = .function then some scope.returns? else none
  (t.findFrom ask t.currentId t.current_lt).join

/-- Sets the result type of the current scope. -/
def setReturnType (t : SymbolTable) (type : Ty) : SymbolTable :=
  t.modifyCurrent (fun s => { s with returns? := some type }) t.symbols (Nat.le_refl _)
    (t.valid _ (Array.getElem_mem t.current_lt))

/-- The table with the global scope alone, which defines nothing. -/
def nothing : SymbolTable where
  symbols := #[]
  arena := #[⟨⟨.global, [], none⟩, none⟩]
  currentId := 0
  current_lt := by simp
  nested id within := by
    obtain rfl : id = 0 := by simpa using within
    rfl
  valid := by simp [Scope.Fits]

/-- The type that the name of a primitive stands for. -/
def primitiveType : Primitive → Ty
  | .number => .number
  | .string => .string
  | .boolean => .boolean
  | .void => .void
  | .any => .any

/-- What every program knows: the primitive types, the numeric aliases and the global values. -/
def builtins : List (String × SymbolKind) :=
  Primitive.all.map (fun p => (p.spelling, .builtin (primitiveType p)))
    ++ Builtin.numericAliases.map (fun name => (name, .builtin (.«alias» name .number)))
    ++ Builtin.globals.map (fun g => (g.name, .global g))

def initial : SymbolTable :=
  builtins.foldl (fun t (name, kind) => t.define name kind .zero none) nothing

end SymbolTable

end ScriptToGo
