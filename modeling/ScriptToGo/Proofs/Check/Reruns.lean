import ScriptToGo.Proofs.Check.Renumbering
import ScriptToGo.Proofs.Check.SymbolNames
import ScriptToGo.Proofs.Check.Recorded
import ScriptToGo.Proofs.Program.Renaming
import ScriptToGo.Proofs.Types.Shape

/-! Two runs of checking a module that differ in the local name of one import. -/
namespace ScriptToGo

/-- Checking only tells two meanings of names apart by the names in their types. It is known what
aliases stand for. -/
inductive SymbolKind.Alike (f : String → String) : SymbolKind → SymbolKind → Prop
  | «variable» {a b keyword?} : Ty.Alike f a b → Alike f (.variable a keyword?) (.variable b keyword?)
  | function {params params' a b hasBody} : Field.AllAlike f params params' → Ty.Alike f a b →
      Alike f (.function params a hasBody) (.function params' b hasBody)
  | builtin {a b} : Ty.Alike f a b → Alike f (.builtin a) (.builtin b)
  | interface {members members'} : Field.AllAlike f members members' →
      Alike f (.interface members) (.interface members')
  | «alias» {written written' a b} : Ty.Alike f a b →
      Alike f (.«alias» written (some a)) (.«alias» written' (some b))
  | global {value} : f value.typeName = value.typeName → Alike f (.global value) (.global value)

/-- The members that a name stands for, if it is that of an interface. -/
def SymbolKind.members? : SymbolKind → Option (List Field)
  | .interface members => some members
  | _ => none

/-- Two tables of members, if there are any, that checking cannot tell apart. -/
def Field.OptionAlike (f : String → String) (fields? fields'? : Option (List Field)) : Prop :=
  fields?.map (Field.shapes id) = fields'?.map (Field.shapes f)

theorem Field.OptionAlike.typeIn? {f : String → String} {fields? fields'? : Option (List Field)}
    (h : OptionAlike f fields? fields'?) (name : String) :
    Ty.OptionAlike f (fields?.bind (Field.typeIn? name)) (fields'?.bind (Field.typeIn? name)) := by
  match fields?, fields'? with
  | none, none => exact .none
  | some _, none | none, some _ => cases h
  | some fields, some fields' =>
    have same : AllAlike f fields fields' := Option.some.inj h
    exact same.typeIn? name

theorem SymbolKind.Alike.members? {f : String → String} {kind kind' : SymbolKind}
    (h : kind.Alike f kind') : Field.OptionAlike f kind.members? kind'.members? := by
  cases h with
  | interface same => exact congrArg some same
  | _ => rfl

/-- What is known of two symbols is alike. -/
structure Symbol.Alike (f : String → String) (a b : Symbol) : Prop where
  kind : a.kind.Alike f b.kind
  file : b.file? = a.file?

namespace SymbolTable

/-- The members of the interface that a name stands for. -/
def members? (t : SymbolTable) (name : String) : Option (List Field) :=
  (t.kind? name).bind SymbolKind.members?

end SymbolTable

/-- Two runs of checking a module. In the second one an import has a `new` name, which is `fresh`, or
it still has its old one. -/
structure Rerun extends LocalName where
  fresh : String
  file : FileId
  /-- What the first run knows right after the import, where only the scope of the module is open. -/
  here : SymbolTable
  there : SymbolTable
  module : Scope
  module' : Scope
  /-- How many more symbols the second run has defined. -/
  shift : Nat
  /-- What names in types of the second run stand for in the first one. -/
  back : String → String
  /-- Whether the import may be hidden in scopes inside of the module. -/
  MayHide : Prop
  /-- Whether the old name stands for the same in both runs. -/
  Stays : Prop
  new_or : new = fresh ∨ new = old
  fresh_ne : fresh ≠ old
  freshPlain : TypeExpr.isWrapper fresh = false
  inner : here.inner = [module]
  inner' : there.inner = [module']
  size : there.symbols.size = here.symbols.size + shift
  defined : ∀ name, name ≠ old → name ≠ fresh →
    (module'.names.lookup name).isSome = (module.names.lookup name).isSome
  kinds : ∀ name, name ≠ old → name ≠ fresh →
    Option.Rel (SymbolKind.Alike back) (here.kind? name) (there.kind? name)
  imported : Option.Rel (SymbolKind.Alike back) (here.kind? old) (there.kind? new)
  stays : Stays → Option.Rel (SymbolKind.Alike back) (here.kind? old) (there.kind? old)
  members : ∀ name, Field.OptionAlike back (here.members? (back name)) (there.members? name)
  outside : ∀ scope ∈ [module, module', here.outermost, there.outermost], scope.kind ≠ .function
  back_other : ∀ name, name ≠ old → name ≠ fresh → back name = name
  back_into : ∀ name, name = old ∨ name = fresh → back name = old ∨ back name = fresh
  back_new : (there.members? new).isSome → back new = old
  back_hidden : MayHide → ∀ name, back name = name
  back_wrapper : ∀ name, TypeExpr.isWrapper name = true → back name = name
  back_global : ∀ g ∈ Builtin.globals, ∀ name, back name = g.typeName ↔ name = g.typeName

/-- A scope of the second run, with the same names as in the first one, none of them fresh. It has the
old name of the import exactly if it does for what can be seen. -/
structure Scope.Again (p : Rerun) (known : List (String × Binding)) (a b : Scope) : Prop where
  kind : b.kind = a.kind
  returns : Ty.OptionAlike p.back a.returns? b.returns?
  names : b.names = a.names.map fun (name, id) => (name, id + p.shift)
  new : ∀ entry ∈ a.names, p.here.symbols.size ≤ entry.2
  free : a.names.lookup p.fresh = none
  hides : (known.lookup p.old).isSome = (a.names.lookup p.old).isSome

namespace Rerun

variable (p : Rerun)

/-- The open scopes of both runs. That of the module has got new names since the import, but not that
of the import again. -/
inductive Opened : Sight → List Scope → List Scope → Prop
  | module {added : List (String × SymbolId)} : (∀ entry ∈ added, p.here.symbols.size ≤ entry.2) →
      added.lookup p.fresh = none → added.lookup p.old = none →
      Opened [] [{ p.module with names := added ++ p.module.names }]
        [{ p.module' with
          names := (added.map fun (name, id) => (name, id + p.shift)) ++ p.module'.names }]
  | inside {known a b sight as bs} : Scope.Again p known a b → Opened sight as bs →
      Opened (known :: sight) (a :: as) (b :: bs)

/-- What both runs know of names. -/
structure Tables (sight : Sight) (s t : SymbolTable) : Prop where
  outermost : s.outermost = p.here.outermost
  outermost' : t.outermost = p.there.outermost
  size : p.here.symbols.size ≤ s.symbols.size
  size' : t.symbols.size = s.symbols.size + p.shift
  old : ∀ id < p.here.symbols.size, s.symbol? id = p.here.symbol? id
  old' : ∀ id < p.there.symbols.size, t.symbol? id = p.there.symbol? id
  new : ∀ id, p.here.symbols.size ≤ id →
    Option.Rel (Symbol.Alike p.back) (s.symbol? id) (t.symbol? (id + p.shift))
  opened : p.Opened sight s.inner t.inner
  hidden : (sight.local? p.old).isSome → p.MayHide

variable {p} {sight : Sight}

open SymbolTable (lookup_shift mem_of_lookup)

/-- A name has been defined since the import in both runs, or it stands in both for what it did right
after that. -/
theorem Opened.lookup {as bs : List Scope} (h : p.Opened sight as bs) (name : String) :
    (∃ id, p.here.symbols.size ≤ id ∧ as.findSome? (·.names.lookup name) = some id ∧
      bs.findSome? (·.names.lookup name) = some (id + p.shift) ∧ name ≠ p.fresh ∧
      (name = p.old → (sight.local? p.old).isSome)) ∨
    (as.findSome? (·.names.lookup name) = p.module.names.lookup name ∧
      bs.findSome? (·.names.lookup name) = p.module'.names.lookup name ∧
      (name = p.old → sight.local? p.old = none)) := by
  induction h with
  | @module added new free notOld =>
    rw [List.findSome?_singleton, List.findSome?_singleton, List.lookup_append, List.lookup_append,
      lookup_shift]
    cases found : added.lookup name with
    | none => exact .inr ⟨rfl, rfl, fun _ => rfl⟩
    | some id =>
      refine .inl ⟨id, new _ (mem_of_lookup found), rfl, rfl, ?_, ?_⟩
      · rintro rfl
        cases found.symm.trans free
      · rintro rfl
        cases found.symm.trans notOld
  | @inside known a b sight as bs again _ ih =>
    rw [List.findSome?_cons, List.findSome?_cons, again.names, lookup_shift]
    have hides := again.hides
    cases found : a.names.lookup name with
    | some id =>
      refine .inl ⟨id, again.new _ (mem_of_lookup found), rfl, rfl, ?_, ?_⟩
      · rintro rfl
        cases found.symm.trans again.free
      · rintro rfl
        rw [found, Option.isSome_some] at hides
        rw [Sight.local?, List.findSome?_cons]
        split
        · rfl
        next none => simp [none] at hides
    | none =>
      rcases ih with ⟨id, new, here, there, ne, hidden⟩ | ⟨here, there, seen⟩
      · refine .inl ⟨id, new, here, there, ne, fun is => ?_⟩
        rw [Sight.local?, List.findSome?_cons]
        split
        · rfl
        · exact hidden is
      · refine .inr ⟨here, there, fun is => ?_⟩
        subst is
        rw [found, Option.isSome_none, Option.isSome_eq_false_iff, Option.isNone_iff_eq_none] at hides
        rw [Sight.local?, List.findSome?_cons, hides]
        exact seen rfl

namespace Tables

variable {s t : SymbolTable}

theorem lookup_here (name : String) : p.here.lookup name
    = (p.module.names.lookup name).or (p.here.outermost.names.lookup name) := by
  rw [SymbolTable.lookup_eq, SymbolTable.scopes, p.inner, List.cons_append, List.nil_append,
    List.findSome?_cons, List.findSome?_singleton]
  cases p.module.names.lookup name <;> rfl

theorem lookup_there (name : String) : p.there.lookup name
    = (p.module'.names.lookup name).or (p.there.outermost.names.lookup name) := by
  rw [SymbolTable.lookup_eq, SymbolTable.scopes, p.inner', List.cons_append, List.nil_append,
    List.findSome?_cons, List.findSome?_singleton]
  cases p.module'.names.lookup name <;> rfl

theorem lookup (h : p.Tables sight s t) (name : String) :
    (∃ id, p.here.symbols.size ≤ id ∧ s.lookup name = some id ∧ t.lookup name = some (id + p.shift) ∧
      name ≠ p.fresh ∧ (name = p.old → (sight.local? p.old).isSome)) ∨
    (s.lookup name = p.here.lookup name ∧ t.lookup name = p.there.lookup name ∧
      (name = p.old → sight.local? p.old = none)) := by
  rw [lookup_here, lookup_there, s.lookup_eq, t.lookup_eq, SymbolTable.scopes, SymbolTable.scopes,
    List.findSome?_append, List.findSome?_append, List.findSome?_singleton,
    List.findSome?_singleton, h.outermost, h.outermost']
  rcases h.opened.lookup name with ⟨id, new, here, there, rest⟩ | ⟨here, there, seen⟩
  · rw [here, there]
    exact .inl ⟨id, new, rfl, rfl, rest⟩
  · rw [here, there]
    exact .inr ⟨rfl, rfl, seen⟩

/-- What was known of a name right after the import is still known of it. -/
theorem kind?_of_lookup_here (h : p.Tables sight s t) {name : String}
    (same : s.lookup name = p.here.lookup name) : s.kind? name = p.here.kind? name := by
  rw [SymbolTable.kind?, SymbolTable.kind?, same]
  cases found : p.here.lookup name with
  | none => rfl
  | some id =>
    obtain ⟨symbol, has⟩ := SymbolTable.exists_symbol found
    have within : id < p.here.symbols.size := (Array.getElem?_eq_some_iff.1 has).1
    rw [Option.bind_some, Option.bind_some, h.old id within]

theorem kind?_of_lookup_there (h : p.Tables sight s t) {name : String}
    (same : t.lookup name = p.there.lookup name) : t.kind? name = p.there.kind? name := by
  rw [SymbolTable.kind?, SymbolTable.kind?, same]
  cases found : p.there.lookup name with
  | none => rfl
  | some id =>
    obtain ⟨symbol, has⟩ := SymbolTable.exists_symbol found
    have within : id < p.there.symbols.size := (Array.getElem?_eq_some_iff.1 has).1
    rw [Option.bind_some, Option.bind_some, h.old' id within]

/-- A name that has been defined since stands for something alike. -/
theorem kind?_alike_of_new (h : p.Tables sight s t) {name : String} {id : SymbolId}
    (new : p.here.symbols.size ≤ id) (here : s.lookup name = some id)
    (there : t.lookup name = some (id + p.shift)) :
    Option.Rel (SymbolKind.Alike p.back) (s.kind? name) (t.kind? name) := by
  rw [SymbolTable.kind?, SymbolTable.kind?, here, there, Option.bind_some, Option.bind_some]
  have alike := h.new id new
  generalize s.symbol? id = a? at alike ⊢
  generalize t.symbol? (id + p.shift) = b? at alike ⊢
  cases alike with
  | none => exact .none
  | some alike => exact .some alike.kind

/-- The import is seen under both of its names. -/
theorem kind?_imported (h : p.Tables sight s t) (seen : sight.local? p.old = none) :
    Option.Rel (SymbolKind.Alike p.back) (s.kind? p.old) (t.kind? p.new) := by
  have here : s.lookup p.old = p.here.lookup p.old := by
    rcases h.lookup p.old with ⟨_, _, _, _, _, hidden⟩ | ⟨here, -, -⟩
    · simp [seen] at hidden
    · exact here
  have there : t.lookup p.new = p.there.lookup p.new := by
    rcases h.lookup p.new with ⟨_, _, _, _, ne, hidden⟩ | ⟨-, there, -⟩
    · rcases p.new_or with is | is
      · exact (ne is).elim
      · simp [seen, is] at hidden
    · exact there
  rw [h.kind?_of_lookup_here here, h.kind?_of_lookup_there there]
  exact p.imported

/-- A name stands for something alike in both runs, the import for itself. -/
theorem kind?_alike (h : p.Tables sight s t) {name : String} (ne : name ≠ p.fresh) :
    Option.Rel (SymbolKind.Alike p.back) (s.kind? name)
      (t.kind? (p.toLocalName.inSight sight name)) := by
  rw [LocalName.inSight]
  split
  next is =>
    obtain ⟨rfl, seen⟩ := is
    exact h.kind?_imported (Option.isNone_iff_eq_none.1 seen)
  next other =>
    rcases h.lookup name with ⟨id, new, here, there, -⟩ | ⟨here, there, seen⟩
    · exact h.kind?_alike_of_new new here there
    · have notOld : name ≠ p.old := fun is => other ⟨is, by rw [seen is]; rfl⟩
      rw [h.kind?_of_lookup_here here, h.kind?_of_lookup_there there]
      exact p.kinds name notOld ne

/-- In the scope of the module, a name that is not renamed stands for something alike in both runs. -/
theorem kind?_own (h : p.Tables [] s t) {name : String} (ne : name ≠ p.fresh)
    (stays : name = p.old → p.Stays) :
    Option.Rel (SymbolKind.Alike p.back) (s.kind? name) (t.kind? name) := by
  rcases h.lookup name with ⟨id, new, here, there, -⟩ | ⟨here, there, -⟩
  · exact h.kind?_alike_of_new new here there
  · rw [h.kind?_of_lookup_here here, h.kind?_of_lookup_there there]
    by_cases is : name = p.old
    · subst is
      exact p.stays (stays rfl)
    · exact p.kinds name is ne

/-- Under neither of its names, the import has been defined again where it can be seen. -/
theorem lookup_imported (h : p.Tables sight s t) {name : String}
    (is : name = p.old ∨ name = p.fresh) (seen : name = p.old → sight.local? p.old = none) :
    s.lookup name = p.here.lookup name ∧ t.lookup name = p.there.lookup name := by
  rcases h.lookup name with ⟨_, _, _, _, ne, hidden⟩ | ⟨here, there, -⟩
  · rcases is with is | is
    · simp [seen is] at hidden
      exact (hidden is).elim
    · exact (ne is).elim
  · exact ⟨here, there⟩

theorem members?_alike_of_kind? {f : String → String} {a? b? : Option SymbolKind}
    (h : Option.Rel (SymbolKind.Alike f) a? b?) :
    Field.OptionAlike f (a?.bind SymbolKind.members?) (b?.bind SymbolKind.members?) := by
  cases h with
  | none => rfl
  | some alike => exact alike.members?

/-- Whatever a name in a type of the second run stands for in the first one, the same members are found
for it. -/
theorem members?_alike (h : p.Tables sight s t) (name : String) :
    Field.OptionAlike p.back (s.members? (p.back name)) (t.members? name) := by
  by_cases imported : name = p.old ∨ name = p.fresh
  case neg =>
    obtain ⟨notOld, notFresh⟩ := not_or.1 imported
    have alike := h.kind?_alike notFresh
    rw [LocalName.inSight, if_neg fun is => notOld is.1] at alike
    rw [p.back_other name notOld notFresh]
    exact members?_alike_of_kind? alike
  case pos =>
    by_cases hidden : (sight.local? p.old).isSome
    · -- Where the import may be hidden, names in types are the same in both runs.
      have same := p.back_hidden (h.hidden hidden)
      rcases imported with rfl | rfl
      · have alike := h.kind?_alike p.fresh_ne.symm
        rw [LocalName.inSight, if_neg (by simp [Option.isSome_iff_ne_none.1 hidden])] at alike
        rw [same]
        exact members?_alike_of_kind? alike
      · obtain ⟨here, there⟩ := h.lookup_imported (.inr rfl) fun is => (p.fresh_ne is).elim
        have base := p.members p.fresh
        rw [same] at base ⊢
        rw [SymbolTable.members?, SymbolTable.members?, h.kind?_of_lookup_here here,
          h.kind?_of_lookup_there there]
        exact base
    · have seen : sight.local? p.old = none := Option.not_isSome_iff_eq_none.1 hidden
      obtain ⟨here, -⟩ := h.lookup_imported (p.back_into name imported) fun _ => seen
      obtain ⟨-, there⟩ := h.lookup_imported imported fun _ => seen
      rw [SymbolTable.members?, SymbolTable.members?, h.kind?_of_lookup_here here,
        h.kind?_of_lookup_there there]
      exact p.members name

/-- The name that an interface has in types of the second run stands for the one that it has in types of
the first run. -/
theorem back_inSight (h : p.Tables sight s t) {name : String} (ne : name ≠ p.fresh)
    (interface : (t.members? (p.toLocalName.inSight sight name)).isSome) :
    name = p.back (p.toLocalName.inSight sight name) := by
  rw [LocalName.inSight] at interface ⊢
  by_cases imported : name = p.old
  case neg =>
    rw [if_neg fun is => imported is.1, p.back_other name imported ne]
  case pos =>
    subst imported
    by_cases hidden : (sight.local? p.old).isSome
    · rw [if_neg (by simp [Option.isSome_iff_ne_none.1 hidden]), p.back_hidden (h.hidden hidden)]
    · have seen : sight.local? p.old = none := Option.not_isSome_iff_eq_none.1 hidden
      have is : p.new = p.old ∨ p.new = p.fresh := p.new_or.symm
      obtain ⟨-, there⟩ := h.lookup_imported is fun _ => seen
      rw [if_pos ⟨rfl, by simp [seen]⟩] at interface ⊢
      rw [SymbolTable.members?, h.kind?_of_lookup_there there] at interface
      exact (p.back_new interface).symm

/-- Inside of the module's scope, the innermost scopes have the same names. -/
theorem exists_current (h : p.Tables sight s t) (inside : sight ≠ []) :
    ∃ a as b bs, s.inner = a :: as ∧ t.inner = b :: bs ∧ s.current = a ∧ t.current = b ∧
      ∃ known, Scope.Again p known a b := by
  have opened := h.opened
  generalize here : s.inner = as at opened ⊢
  generalize there : t.inner = bs at opened ⊢
  cases opened with
  | module => exact (inside rfl).elim
  | @inside known a b sight as bs again rest =>
    exact ⟨a, as, b, bs, rfl, rfl, SymbolTable.current_of_cons here,
      SymbolTable.current_of_cons there, known, again⟩

theorem lookupLocal_eq (h : p.Tables sight s t) (inside : sight ≠ []) (name : String) :
    t.lookupLocal name = (s.lookupLocal name).map (· + p.shift) ∧
      ∀ id ∈ s.lookupLocal name, p.here.symbols.size ≤ id := by
  obtain ⟨a, _, b, _, -, -, here, there, _, again⟩ := h.exists_current inside
  rw [SymbolTable.lookupLocal, SymbolTable.lookupLocal, here, there, again.names, lookup_shift]
  exact ⟨rfl, fun id found => again.new _ (mem_of_lookup found)⟩

/-- Both runs find out in the same cases that a scope has a name already. -/
theorem isSome_lookupLocal (h : p.Tables sight s t) {name : String} (ne : name ≠ p.fresh)
    (top : sight = [] → name ≠ p.old) :
    (t.lookupLocal name).isSome = (s.lookupLocal name).isSome := by
  by_cases inside : sight = []
  case neg => rw [(h.lookupLocal_eq inside name).1, Option.isSome_map]
  case pos =>
    have opened := h.opened
    rw [SymbolTable.lookupLocal, SymbolTable.lookupLocal, SymbolTable.current_eq,
      SymbolTable.current_eq]
    subst inside
    generalize s.inner = as at opened ⊢
    generalize t.inner = bs at opened ⊢
    cases opened with
    | @module added =>
      dsimp only [List.headD_cons]
      rw [List.lookup_append, List.lookup_append, lookup_shift, Option.isSome_or, Option.isSome_or,
        Option.isSome_map, p.defined name (top rfl) ne]

theorem returnType?_alike (h : p.Tables sight s t) :
    Ty.OptionAlike p.back s.returnType? t.returnType? := by
  have opened := h.opened
  have outside := p.outside
  simp only [List.forall_mem_cons] at outside
  obtain ⟨module, module', outermost, outermost', -⟩ := outside
  rw [SymbolTable.returnType?_eq, SymbolTable.returnType?_eq, SymbolTable.scopes,
    SymbolTable.scopes, h.outermost, h.outermost']
  generalize s.inner = as at opened ⊢
  generalize t.inner = bs at opened ⊢
  clear h
  induction opened with
  | module => simp [module, module', outermost, outermost', Ty.OptionAlike]
  | @inside known a b sight as bs again _ ih =>
    rw [List.cons_append, List.cons_append, List.find?_cons, List.find?_cons, again.kind]
    split
    · exact again.returns
    · exact ih

theorem enter (h : p.Tables sight s t) (kind : ScopeKind) :
    p.Tables ([] :: sight) (s.enter kind) (t.enter kind) where
  outermost := (s.outermost_enter kind).trans h.outermost
  outermost' := (t.outermost_enter kind).trans h.outermost'
  size := h.size
  size' := h.size'
  old := h.old
  old' := h.old'
  new := h.new
  opened := by
    rw [SymbolTable.inner_enter, SymbolTable.inner_enter]
    exact .inside ⟨rfl, Ty.OptionAlike.none, rfl, List.forall_mem_nil _, rfl, rfl⟩ h.opened
  hidden := h.hidden

theorem exit {known : List (String × Binding)} (h : p.Tables (known :: sight) s t) :
    p.Tables sight s.exit t.exit := by
  have opened := h.opened
  refine { h with opened := ?_, hidden := fun hidden => h.hidden ?_ }
  · rw [SymbolTable.inner_exit, SymbolTable.inner_exit]
    generalize s.inner = as at opened ⊢
    generalize t.inner = bs at opened ⊢
    cases opened with
    | inside _ rest => exact rest
  · rw [Sight.local?, List.findSome?_cons]
    split
    · rfl
    · exact hidden

/-- A name of the import may be defined again only where that hides it. -/
structure MayDefine (p : Rerun) (sight : Sight) (name : String) : Prop where
  notFresh : name ≠ p.fresh
  hides : name = p.old → p.MayHide ∧ sight ≠ []

theorem define (h : p.Tables sight s t) {name : String} (may : MayDefine p sight name)
    {kind kind' : SymbolKind} (alike : kind.Alike p.back kind') (span : Span) (file? : Option FileId)
    (binding : Binding) : p.Tables (sight.define name binding) (s.define name kind span file?)
      (t.define name kind' span file?) := by
  have opened := h.opened
  have size := h.size'
  have later := p.size
  have first := h.size
  generalize here : s.inner = as at opened
  generalize there : t.inner = bs at opened
  obtain ⟨a, others, rfl⟩ : ∃ a others, as = a :: others := by cases opened <;> exact ⟨_, _, rfl⟩
  obtain ⟨b, others', rfl⟩ : ∃ b others, bs = b :: others := by cases opened <;> exact ⟨_, _, rfl⟩
  constructor
  case outermost => rw [SymbolTable.outermost_define here, h.outermost]
  case outermost' => rw [SymbolTable.outermost_define there, h.outermost']
  case size =>
    rw [SymbolTable.symbols_define, Array.size_push]
    omega
  case size' =>
    rw [SymbolTable.symbols_define, SymbolTable.symbols_define, Array.size_push, Array.size_push]
    omega
  case old =>
    intro id lt
    have ne : id ≠ s.symbols.size := by omega
    rw [SymbolTable.symbol?_define_eq, if_neg ne, h.old id lt]
  case old' =>
    intro id lt
    have ne : id ≠ t.symbols.size := by omega
    rw [SymbolTable.symbol?_define_eq, if_neg ne, h.old' id lt]
  case new =>
    intro id le
    rw [SymbolTable.symbol?_define_eq, SymbolTable.symbol?_define_eq, size]
    by_cases last : id = s.symbols.size
    · rw [if_pos last, if_pos (congrArg (· + p.shift) last)]
      exact .some ⟨alike, rfl⟩
    · rw [if_neg last, if_neg fun same => last (Nat.add_right_cancel same)]
      exact h.new id le
  case opened =>
    rw [SymbolTable.inner_define here, SymbolTable.inner_define there, size]
    cases opened with
    | @module added new free notOld =>
      have notImported : name ≠ p.old := fun is => (may.hides is).2 rfl
      refine @Opened.module p ((name, s.symbols.size) :: added) ?_ ?_ ?_
      · exact List.forall_mem_cons.2 ⟨first, new⟩
      · rw [List.lookup_cons, beq_false_of_ne may.notFresh.symm]
        exact free
      · rw [List.lookup_cons, beq_false_of_ne notImported.symm]
        exact notOld
    | @inside known _ _ sight _ _ again rest =>
      refine .inside ⟨again.kind, again.returns, ?_, ?_, ?_, ?_⟩ rest
      · rw [List.map_cons, again.names]
      · exact List.forall_mem_cons.2 ⟨first, again.new⟩
      · rw [List.lookup_cons, beq_false_of_ne may.notFresh.symm]
        exact again.free
      · rw [List.lookup_cons, List.lookup_cons]
        split
        · rfl
        · exact again.hides
  case hidden =>
    intro hidden
    by_cases is : name = p.old
    · exact (may.hides is).1
    · refine h.hidden ?_
      cases sight with
      | nil => exact hidden
      | cons known outer =>
        rw [Sight.define, List.modifyHead_cons, Sight.local?, List.findSome?_cons, List.lookup_cons,
          beq_false_of_ne (Ne.symm is)] at hidden
        exact hidden

/-- A scope that has a name already is the same after it should have been defined again. -/
theorem again (h : p.Tables sight s t) {name : String} (may : MayDefine p sight name)
    (has : (s.lookupLocal name).isSome) (binding : Binding) :
    p.Tables (sight.define name binding) s t := by
  have opened := h.opened
  rw [SymbolTable.lookupLocal, SymbolTable.current_eq] at has
  refine { h with opened := ?_, hidden := fun hidden => ?_ }
  · generalize s.inner = as at opened has ⊢
    generalize t.inner = bs at opened ⊢
    cases opened with
    | module new free notOld => exact .module new free notOld
    | @inside known a b sight as bs again rest =>
      refine .inside { again with hides := ?_ } rest
      rw [List.lookup_cons]
      split
      next is =>
        rw [eq_of_beq is]
        exact has.symm
      · exact again.hides
  · by_cases is : name = p.old
    · exact (may.hides is).1
    · refine h.hidden ?_
      cases sight with
      | nil => exact hidden
      | cons known outer =>
        rw [Sight.define, List.modifyHead_cons, Sight.local?, List.findSome?_cons, List.lookup_cons,
          beq_false_of_ne (Ne.symm is)] at hidden
        exact hidden

theorem setReturnType (h : p.Tables sight s t) (inside : sight ≠ []) {type type' : Ty}
    (alike : type.Alike p.back type') :
    p.Tables sight (s.setReturnType type) (t.setReturnType type') := by
  obtain ⟨a, as, b, bs, here, there, -, -, -, -⟩ := h.exists_current inside
  have opened := h.opened
  rw [here, there] at opened
  constructor
  case outermost => rw [SymbolTable.outermost_setReturnType here, h.outermost]
  case outermost' => rw [SymbolTable.outermost_setReturnType there, h.outermost']
  case size =>
    rw [SymbolTable.symbols_setReturnType]
    exact h.size
  case size' => rw [SymbolTable.symbols_setReturnType, SymbolTable.symbols_setReturnType, h.size']
  case old => simpa only [SymbolTable.symbol?_setReturnType] using h.old
  case old' => simpa only [SymbolTable.symbol?_setReturnType] using h.old'
  case new => simpa only [SymbolTable.symbol?_setReturnType] using h.new
  case opened =>
    rw [SymbolTable.inner_setReturnType here, SymbolTable.inner_setReturnType there]
    cases opened with
    | module => exact (inside rfl).elim
    | inside again rest =>
      exact .inside ⟨again.kind, alike.some, again.names, again.new, again.free, again.hides⟩ rest
  case hidden => exact h.hidden

theorem setKind (h : p.Tables sight s t) {id : SymbolId} (new : p.here.symbols.size ≤ id)
    {kind kind' : SymbolKind} (alike : kind.Alike p.back kind') :
    p.Tables sight (s.setKind id kind) (t.setKind (id + p.shift) kind') where
  outermost := h.outermost
  outermost' := h.outermost'
  size := by
    rw [SymbolTable.setKind, Array.size_modify]
    exact h.size
  size' := by
    rw [SymbolTable.setKind, SymbolTable.setKind, Array.size_modify, Array.size_modify]
    exact h.size'
  old other lt := by
    rw [SymbolTable.symbol?_setKind, if_neg (Nat.ne_of_gt (Nat.lt_of_lt_of_le lt new)), h.old other lt]
  old' other lt := by
    have above : other < id + p.shift := by
      have later := p.size
      exact Nat.lt_of_lt_of_le lt (later ▸ Nat.add_le_add_right new p.shift)
    rw [SymbolTable.symbol?_setKind, if_neg (Nat.ne_of_gt above), h.old' other lt]
  new other le := by
    have same := h.new other le
    rw [SymbolTable.symbol?_setKind, SymbolTable.symbol?_setKind]
    by_cases here : id = other
    · subst here
      rw [if_pos rfl, if_pos rfl]
      generalize s.symbol? id = a? at same ⊢
      generalize t.symbol? (id + p.shift) = b? at same ⊢
      cases same with
      | none => exact .none
      | some same => exact .some ⟨alike, same.file⟩
    · rw [if_neg here, if_neg fun eq => here (Nat.add_right_cancel eq)]
      exact same
  opened := by
    rw [SymbolTable.inner_setKind, SymbolTable.inner_setKind]
    exact h.opened
  hidden := h.hidden

end Tables

end Rerun

end ScriptToGo
