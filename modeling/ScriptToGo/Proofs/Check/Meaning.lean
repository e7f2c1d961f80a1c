import Mathlib.Data.List.Forall2
import Mathlib.Logic.Relation
import ScriptToGo.Proofs.Check.AliasNames

/-! What the names of a program mean before anything is looked into: the first declaration of a name
counts, of whatever module it is. -/
namespace ScriptToGo

namespace TypeExpr

/-- The names of the wrappers, which always stand for these. -/
def isWrapper (name : String) : Bool := name == Builtin.arrayName || (Builtin.pointer? name).isSome

mutual

/-- The names in a written type, without those of wrappers. -/
def mentions : TypeExpr → List String
  | .named _ name args => if isWrapper name then mentionsOf args else name :: mentionsOf args
  | .array _ element => element.mentions
  | .object _ members => memberMentions members
  | .string .. | .number .. | .boolean .. | .null .. => []

def mentionsOf : List TypeExpr → List String
  | [] => []
  | t :: rest => t.mentions ++ mentionsOf rest

def memberMentions : List Member → List String
  | [] => []
  | .mk _ _ _ t :: rest => t.mentions ++ memberMentions rest

end

theorem mentionsOf_subset {span : Span} {name : String} {args : List TypeExpr} :
    mentionsOf args ⊆ (named span name args).mentions := by
  rw [mentions]
  split
  · exact List.Subset.refl _
  · exact List.subset_cons_self _ _

end TypeExpr

/-- What a name means where nothing hides it. -/
inductive Meaning
  | type (type : Ty)
  | global (value : Builtin.Global)
  | interface
  | «alias» (written : TypeExpr)
  | function (file : FileId) (head : FunctionHead)

/-- What a name means in every program. -/
def builtinMeaning? (name : String) : Option Meaning :=
  match SymbolTable.initial.kind? name with
  | some (.builtin type) => some (.type type)
  | some (.global value) => some (.global value)
  | _ => none

namespace Statement

def typeMeaning? (name : String) : Statement → Option Meaning
  | .interface _ decl => if decl.name.text = name then some .interface else none
  | .typeAlias _ decl => if decl.name.text = name then some (.«alias» decl.type) else none
  | _ => none

def functionMeaning? (file : FileId) (name : String) (s : Statement) : Option Meaning :=
  (s.function?.filter fun (head, _) => head.name?.any (·.text == name)).map fun (head, _) =>
    .function file head

end Statement

namespace ModuleGraph

/-- The statements that modules hold, with the modules that hold them, in the order in which they are
found. -/
def declarations (g : ModuleGraph) : List (FileId × Statement) :=
  g.modules.flatMap fun m => m.program.map (m.id, ·)

/-- What a name means when the types of some declarations are known. -/
def typeMeaningIn (found : List (FileId × Statement)) (name : String) : Option Meaning :=
  (builtinMeaning? name).or (found.findSome? fun (_, s) => s.typeMeaning? name)

/-- What a name means when all types and the functions of some declarations are known. Types come
before functions. -/
def meaningAfter (g : ModuleGraph) (found : List (FileId × Statement)) (name : String) :
    Option Meaning :=
  (typeMeaningIn g.declarations name).or
    (found.findSome? fun (file, s) => s.functionMeaning? file name)

/-- What a name means in the whole program. -/
def meaning? (g : ModuleGraph) (name : String) : Option Meaning :=
  g.meaningAfter g.declarations name

/-- The name is that of an alias. -/
def IsAlias (g : ModuleGraph) (name : String) (written : TypeExpr) : Prop :=
  g.meaning? name = some (.«alias» written)

/-- An alias mentions another one in what is written for it. -/
def DependsOn (g : ModuleGraph) (first second : String) : Prop :=
  ∃ written target, g.IsAlias first written ∧ g.IsAlias second target ∧ second ∈ written.mentions

/-- Following what aliases depend on, one comes back to one of them. -/
def HasCircle (g : ModuleGraph) : Prop := ∃ name, Relation.TransGen g.DependsOn name name

variable (g : ModuleGraph)

mutual

/-- A written type stands for a type. -/
inductive Stands : TypeExpr → Ty → Prop
  | arrayOf {span name arg type} : name = Builtin.arrayName → Stands arg type →
      Stands (.named span name [arg]) (.array type)
  | pointer {span name arg type} : name ≠ Builtin.arrayName → (Builtin.pointer? name).isSome →
      Stands arg type → Stands (.named span name [arg]) (.reference name [type])
  | builtin {span name type} : TypeExpr.isWrapper name = false → g.meaning? name = some (.type type) →
      Stands (.named span name []) type
  | interface {span name args types} : TypeExpr.isWrapper name = false →
      g.meaning? name = some .interface → AllStand args types →
      Stands (.named span name args) (.reference name types)
  | «alias» {span name args written target} : TypeExpr.isWrapper name = false →
      g.IsAlias name written → Stands written target →
      Stands (.named span name args) (.«alias» name target)
  | array {span element type} : Stands element type → Stands (.array span element) (.array type)
  | string {span body} : Stands (.string span body) (.stringLit body)
  | number {span text} : Stands (.number span text) (.numberLit text)
  | boolean {span value} : Stands (.boolean span value) (.booleanLit value)
  | null {span} : Stands (.null span) .null
  | object {span members fields} : MembersStand members fields →
      Stands (.object span members) (.object fields)

inductive AllStand : List TypeExpr → List Ty → Prop
  | nil : AllStand [] []
  | cons {t type rest types} : Stands t type → AllStand rest types →
      AllStand (t :: rest) (type :: types)

inductive MembersStand : List Member → List Field → Prop
  | nil : MembersStand [] []
  | cons {span name isOptional t type rest fields} : Stands t type → MembersStand rest fields →
      MembersStand (.mk span name isOptional t :: rest) (.mk name type :: fields)

end

/-- A type that may be left out stands for a type. -/
inductive OptionStands : Option TypeExpr → Ty → Prop
  | none : OptionStands none .any
  | some {t type} : g.Stands t type → OptionStands (some t) type

/-- The types that a function shows. -/
structure SignatureStands (head : FunctionHead) (params : List Field) (returns : Ty) : Prop where
  params : List.Forall₂ (fun (p : Param) f => f.name = p.name.text ∧ g.OptionStands p.type? f.type)
    head.params params
  returns : g.OptionStands head.returns? returns

/-- What is known of a name fits to what the name means. As long as nothing has `failed`, the types
that have been found are those that are written. -/
inductive Fits (failed : Prop) : Option Meaning → Option SymbolKind → Prop
  | nothing : Fits failed none none
  | type {type} : Fits failed (some (.type type)) (some (.builtin type))
  | global {value} : Fits failed (some (.global value)) (some (.global value))
  | interface {members} : Fits failed (some .interface) (some (.interface members))
  | «alias» {written target?} :
      (∀ target ∈ target?, ¬failed → g.Stands written target) →
      Fits failed (some (.«alias» written)) (some (.«alias» written target?))
  | function {file head params returns hasBody} :
      (¬failed → g.SignatureStands head params returns) →
      Fits failed (some (.function file head)) (some (.function params returns hasBody))

variable {g}

theorem Fits.mono {failed later : Prop} {meaning? : Option Meaning} {kind? : Option SymbolKind}
    (h : g.Fits failed meaning? kind?) (more : failed → later) : g.Fits later meaning? kind? := by
  cases h with
  | nothing => exact .nothing
  | type => exact .type
  | global => exact .global
  | interface => exact .interface
  | «alias» stands => exact .«alias» fun target is fine => stands target is (mt more fine)
  | function stands => exact .function fun fine => stands (mt more fine)

theorem typeMeaningIn_ne_function {found : List (FileId × Statement)} {name : String} {file : FileId}
    {head : FunctionHead} : typeMeaningIn found name ≠ some (.function file head) := by
  intro is
  rcases Option.or_eq_some_iff.1 is with builtin | ⟨-, declared⟩
  · rw [builtinMeaning?] at builtin
    split at builtin <;> cases builtin
  · obtain ⟨⟨_, s⟩, -, means⟩ := List.exists_of_findSome?_eq_some declared
    cases s <;> simp [Statement.typeMeaning?] at means

/-- A name that means no function means the same however many functions are known. -/
theorem meaningAfter_eq_iff {found : List (FileId × Statement)} {name : String} {meaning : Meaning}
    (noFunction : ∀ file head, meaning ≠ .function file head) :
    g.meaningAfter found name = some meaning ↔ typeMeaningIn g.declarations name = some meaning := by
  rw [meaningAfter, Option.or_eq_some_iff]
  refine ⟨?_, .inl⟩
  rintro (is | ⟨-, is⟩)
  · exact is
  · obtain ⟨⟨file, s⟩, -, means⟩ := List.exists_of_findSome?_eq_some is
    obtain ⟨⟨head, _⟩, -, rfl⟩ := Option.map_eq_some_iff.1 means
    exact (noFunction file head rfl).elim

theorem meaning?_eq_iff {found : List (FileId × Statement)} {name : String} {meaning : Meaning}
    (noFunction : ∀ file head, meaning ≠ .function file head) :
    g.meaning? name = some meaning ↔ g.meaningAfter found name = some meaning := by
  rw [meaning?, meaningAfter_eq_iff noFunction, meaningAfter_eq_iff noFunction]

theorem isAlias_iff {found : List (FileId × Statement)} {name : String} {written : TypeExpr} :
    g.IsAlias name written ↔ g.meaningAfter found name = some (.«alias» written) :=
  meaning?_eq_iff (by simp)

/-- At first, what is known of names is what every program knows. -/
theorem fits_initial (name : String) :
    g.Fits False (builtinMeaning? name) (SymbolTable.initial.kind? name) := by
  let Builtin (kind : SymbolKind) : Prop := (∃ type, kind = .builtin type) ∨ ∃ value, kind = .global value
  have all : ∀ entry ∈ SymbolTable.builtins, Builtin entry.2 := by
    refine List.forall_mem_append.2 ⟨List.forall_mem_append.2 ⟨?_, ?_⟩, ?_⟩
    · exact List.forall_mem_map.2 fun p _ => .inl ⟨_, rfl⟩
    · exact List.forall_mem_map.2 fun p _ => .inl ⟨_, rfl⟩
    · exact List.forall_mem_map.2 fun p _ => .inr ⟨_, rfl⟩
  rw [builtinMeaning?]
  cases is : SymbolTable.initial.kind? name with
  | none => exact .nothing
  | some kind =>
    obtain ⟨id, -, found⟩ := Option.bind_eq_some_iff.1 is
    obtain ⟨symbol, has, rfl⟩ := Option.map_eq_some_iff.1 found
    rcases CheckState.kinds_initial all symbol (SymbolTable.mem_of_symbol? has) with
      ⟨type, is⟩ | ⟨value, is⟩
    · rw [is]
      exact .type
    · rw [is]
      exact .global

end ModuleGraph

end ScriptToGo
