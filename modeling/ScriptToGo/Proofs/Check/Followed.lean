import Mathlib.Data.List.Dedup
import ScriptToGo.Check.Expr
import ScriptToGo.Proofs.Check.Parallel
import ScriptToGo.Proofs.Check.Visible

/-! Unless checking fails, it treats every part of a module by what can be seen from there. -/
namespace ScriptToGo

/-- The name of the field that a property gives; a spread gives those of its value. -/
def Property.name? : Property → Option Name
  | assign _ name _ | shorthand _ name => some name
  | spread .. => none

/-- The names of fields that properties give, in the order in which they are written. -/
def Property.fieldNames (properties : List Property) : List String :=
  properties.filterMap fun p => p.name?.map Name.text

/-- Names in the order in which they come for the first time. -/
def firstUses (names : List String) : List String := names.reverse.dedup.reverse

theorem mem_firstUses {names : List String} {name : String} :
    name ∈ firstUses names ↔ name ∈ names := by
  rw [firstUses, List.mem_reverse, List.mem_dedup, List.mem_reverse]

theorem firstUses_eq_self {names : List String} (distinct : names.Nodup) :
    firstUses names = names := by
  rw [firstUses, (List.nodup_reverse.2 distinct).dedup, List.reverse_reverse]

theorem firstUses_concat (names : List String) (name : String) :
    firstUses (names ++ [name])
      = if name ∈ firstUses names then firstUses names else firstUses names ++ [name] := by
  have step : firstUses (names ++ [name]) = (name :: names.reverse).dedup.reverse := by
    rw [firstUses, List.reverse_append, List.reverse_singleton, List.singleton_append]
  rw [step]
  split
  next known =>
    rw [List.dedup_cons_of_mem (List.mem_reverse.2 (mem_firstUses.1 known)), firstUses]
  next new =>
    have new : name ∉ names.reverse := fun mem => new (mem_firstUses.2 (List.mem_reverse.1 mem))
    rw [List.dedup_cons_of_notMem new, List.reverse_cons, firstUses]

namespace Field

/-- A field that is set again keeps its place. -/
theorem map_name_set (name : String) (type : Ty) (fields : List Field) :
    (set name type fields).map Field.name
      = if name ∈ fields.map Field.name then fields.map Field.name
        else fields.map Field.name ++ [name] := by
  induction fields with
  | nil => rfl
  | cons f rest ih =>
    obtain ⟨other, old⟩ := f
    rw [set]
    by_cases same : other = name
    · rw [if_pos (beq_iff_eq.2 same), if_pos (by simp [same, Field.name]), same]
      rfl
    · rw [if_neg (mt beq_iff_eq.1 same), List.map_cons, ih]
      by_cases later : name ∈ rest.map Field.name
      · have known : name ∈ (mk other old :: rest).map Field.name := List.mem_cons_of_mem _ later
        rw [if_pos later, if_pos known]
        rfl
      · have new : name ∉ (mk other old :: rest).map Field.name := by
          rw [List.map_cons, List.mem_cons, not_or]
          exact ⟨Ne.symm same, later⟩
        rw [if_neg later, if_neg new]
        rfl

theorem map_name_set_of_firstUses {fields : List Field} {names : List String}
    (are : fields.map Field.name = firstUses names) (name : String) (type : Ty) :
    (set name type fields).map Field.name = firstUses (names ++ [name]) := by
  rw [map_name_set, are, firstUses_concat]

end Field

/-- What an expression writes to. -/
def Expr.written? : Expr → Option Expr
  | .binary _ left op _ _ => if op.isAssignment then some left else none
  | .leading _ op _ operand => if op.isUpdate then some operand else none
  | .trailing _ operand _ _ => some operand
  | _ => none

def Node.written? : Node → Option Expr
  | .expression e => e.written?
  | _ => none

namespace SymbolKind

/-- It is known that something has a value. -/
def IsValue : SymbolKind → Prop
  | .variable .. | .function .. | .global _ => True
  | .builtin _ | .interface _ | .«alias» .. => False

/-- It is not known that something keeps its value. -/
def IsWritable : SymbolKind → Prop
  | .variable _ keyword? => keyword? ≠ some .constant
  | .function .. => False
  | .builtin _ | .interface _ | .«alias» .. | .global _ => True

end SymbolKind

namespace Binding

/-- What an imported type that has another name stands for in the end. -/
def root : Binding → Binding
  | .renamed own => own.root
  | binding => binding

/-- What a name stands for has a value that may change: a variable that is no constant, a parameter
or a global value. -/
inductive TakesValues : Binding → Prop
  | variable {keyword?} : keyword? ≠ some .constant → TakesValues (.variable keyword?)
  | global {value} : TakesValues (.shared (.global value))

end Binding

namespace ModuleGraph

variable (g : ModuleGraph)

/-- An expression may be written to: but for parentheses it is a member, an element, or a name that
stands for something with a value that may change. The name of an imported type with another name
may be written to as well, if the type's own name stands for something else where it is imported. -/
inductive MayWrite (sight : Sight) : Expr → Prop
  | member {span object property} : MayWrite sight (.member span object property)
  | index {span object place} : MayWrite sight (.index span object place)
  | ident {span name binding} : g.binding? sight name = some binding → binding.TakesValues →
      MayWrite sight (.ident span name)
  | renamed {span name own} : g.binding? sight name = some (.renamed own) → own.root.TakesValues →
      MayWrite sight (.ident span name)
  | paren {span inner} : MayWrite sight inner → MayWrite sight (.paren span inner)

/-- A type suits a name: if the name stands for the function of some declaration, it is the type of
that function. -/
def SuitsName (sight : Sight) (name : String) (type : Ty) : Prop :=
  ∀ owner head, g.binding? sight name = some (.shared (.function owner head)) →
    ∃ params returns, type = .function params returns ∧ g.SignatureStands head params returns

/-- A type suits a node, and what the node writes to may be written to. An object without spreads
has each field that its properties name once, where it is named first. -/
structure SuitsNode (sight : Sight) (n : Node) (type : Ty) : Prop where
  name : ∀ span name, n = .expression (.ident span name) → g.SuitsName sight name type
  writes : ∀ target, n.written? = some target → g.MayWrite sight target
  fields : ∀ span properties, n = .expression (.object span properties) →
    (∀ p ∈ properties, p.name?.isSome = true) → ∃ fields, type = .object fields ∧
      fields.map Field.name = firstUses (Property.fieldNames properties)

/-- The types that are recorded are those of certain nodes, and suit them. -/
structure Notes (file : FileId) (seen : List (Sight × Node)) (records : List (Place × Ty)) :
    Prop where
  typed : ∀ v ∈ seen, ∃ r ∈ records, r.1 = (file, v.2.span)
  suits : ∀ r ∈ records, ∃ v ∈ seen, r.1 = (file, v.2.span) ∧ g.SuitsNode v.1 v.2 r.2

variable {g} {file : FileId} {seen more : List (Sight × Node)} {records new : List (Place × Ty)}

theorem Suits.signature {owner : FileId} {head : FunctionHead} {kind : SymbolKind}
    (h : g.Suits (.shared (.function owner head)) kind) : ∃ params returns hasBody,
      kind = .function params returns hasBody ∧ g.SignatureStands head params returns := by
  cases h with
  | shared fits =>
    cases fits with
    | function stand => exact ⟨_, _, _, rfl, stand not_false⟩

/-- What has a value that nothing keeps takes values. -/
theorem Suits.takesValues {binding : Binding} {kind kind' : SymbolKind} (h : g.Suits binding kind)
    (value : kind.IsValue) (h' : g.Suits binding kind') (writable : kind'.IsWritable) :
    binding.root.TakesValues := by
  induction h with
  | «variable» =>
    cases h' with
    | «variable» => exact .variable writable
  | function =>
    cases h' with
    | function => exact writable.elim
  | shared fits =>
    cases h' with
    | shared fits' =>
      cases fits with
      | global => exact .global
      | function =>
        cases fits' with
        | function => exact writable.elim
      | type | interface | «alias» => exact value.elim
  | renamed _ ih =>
    cases h' with
    | renamed h' => exact ih value h'

theorem MayWrite.ofRoot {sight : Sight} {span : Span} {name : String} {binding : Binding}
    (stands : g.binding? sight name = some binding) (takes : binding.root.TakesValues) :
    g.MayWrite sight (.ident span name) := by
  cases binding with
  | renamed own => exact .renamed stands takes
  | _ => exact .ident stands takes

namespace Notes

theorem nil : g.Notes file [] [] := ⟨List.forall_mem_nil _, List.forall_mem_nil _⟩

theorem append (first : g.Notes file seen records) (second : g.Notes file more new) :
    g.Notes file (seen ++ more) (new ++ records) where
  typed := List.forall_mem_append.2
    ⟨fun v mem => (first.typed v mem).imp fun _ => .imp_left (List.mem_append_right _),
      fun v mem => (second.typed v mem).imp fun _ => .imp_left (List.mem_append_left _)⟩
  suits := List.forall_mem_append.2
    ⟨fun r mem => (second.suits r mem).imp fun _ => .imp_left (List.mem_append_right _),
      fun r mem => (first.suits r mem).imp fun _ => .imp_left (List.mem_append_left _)⟩

theorem cons (h : g.Notes file seen records) {sight : Sight} {n : Node} {type : Ty}
    (suits : g.SuitsNode sight n type) :
    g.Notes file ((sight, n) :: seen) (((file, n.span), type) :: records) where
  typed := List.forall_mem_cons.2 ⟨⟨_, List.mem_cons_self, rfl⟩,
    fun v mem => (h.typed v mem).imp fun _ => .imp_left (List.mem_cons_of_mem _)⟩
  suits := List.forall_mem_cons.2 ⟨⟨_, List.mem_cons_self, rfl, suits⟩,
    fun r mem => (h.suits r mem).imp fun _ => .imp_left (List.mem_cons_of_mem _)⟩

end Notes

end ModuleGraph

open ModuleGraph CheckState

namespace Check

/-- Work on what is seen from a place. Unless it fails, it leaves the names as `later` describes,
gives types to the nodes that are `seen`, and its result is as described. -/
structure Follows (g : ModuleGraph) (file : FileId) (sight later : Sight)
    (seen : List (Sight × Node)) {α : Type} (work : Check α) (post : α → Prop) : Prop where
  grows : Keeps Grows work
  follows : ∀ s, g.Matches sight s.symbols → ¬(work.run s).2.Failed →
    g.Matches later (work.run s).2.symbols ∧ post (work.run s).1 ∧
      ∃ new, (work.run s).2.types.records = new ++ s.types.records ∧ g.Notes file seen new

/-- Work that only looks at the names leaves them and all types as they are. -/
def Settled (s t : CheckState) : Prop :=
  s.symbols.AliasesFound → t.symbols = s.symbols ∧ t.types = s.types

theorem reportRelation_settled : ReportRelation Settled where
  refl _ _ := ⟨rfl, rfl⟩
  trans first second known := by
    obtain ⟨symbols, types⟩ := first known
    obtain ⟨symbols', types'⟩ := second (symbols ▸ known)
    exact ⟨symbols'.trans symbols, types'.trans types⟩
  report _ _ _ _ := ⟨rfl, rfl⟩

variable {g : ModuleGraph} {file : FileId} {sight mid later : Sight}
  {seen more : List (Sight × Node)} {α β : Type} {post first : α → Prop} {last : β → Prop}

namespace Follows

theorem pure {a : α} (good : post a) : Follows g file sight sight [] (Pure.pure a) post where
  grows := keeps_pure stepRelation_grows a
  follows _ visible _ := ⟨visible, good, [], rfl, .nil⟩

theorem plain (a : α) : Follows g file sight sight [] (Pure.pure a) fun _ => True := pure trivial

theorem mono {x : Check α} (h : Follows g file sight later seen x first)
    (implies : ∀ a, first a → post a) : Follows g file sight later seen x post where
  grows := h.grows
  follows s visible fine := (h.follows s visible fine).imp_right (And.imp_left (implies _))

/-- What comes next may use what is known of the result. -/
theorem bindWith {x : Check α} {f : α → Check β} (before : Follows g file sight mid seen x first)
    (grows : ∀ a, Keeps Grows (f a))
    (after : ∀ a, first a → Follows g file mid later more (f a) last) :
    Follows g file sight later (seen ++ more) (x >>= f) last where
  grows := keeps_bind stepRelation_grows before.grows grows
  follows s visible fine := by
    have fine' : ¬(x.run s).2.Failed := mt (grows _ _).failed fine
    obtain ⟨visible, good, new, records, notes⟩ := before.follows s visible fine'
    obtain ⟨visible, good, new', records', notes'⟩ := (after _ good).follows _ visible fine
    refine ⟨visible, good, new' ++ new, ?_, notes.append notes'⟩
    exact records'.trans (by rw [records, List.append_assoc])

theorem bind {x : Check α} {f : α → Check β} (before : Follows g file sight mid seen x first)
    (after : ∀ a, Follows g file mid later more (f a) last) :
    Follows g file sight later (seen ++ more) (x >>= f) last :=
  before.bindWith (fun a => (after a).grows) fun a _ => after a

/-- Work that only looks at the names. -/
theorem settled {x : Check α} (grows : Keeps Grows x) (h : Keeps Settled x) :
    Follows g file sight sight [] x fun _ => True where
  grows := grows
  follows s visible _ := by
    obtain ⟨symbols, types⟩ := h s visible.aliases
    rw [symbols, types]
    exact ⟨visible, trivial, [], rfl, .nil⟩

/-- Work that begins with looking at names. -/
theorem andThen {x : Check α} {f : α → Check β}
    (before : Follows g file sight mid [] x first)
    (after : ∀ a, Follows g file mid later seen (f a) last) :
    Follows g file sight later seen (x >>= f) last := before.bind after

/-- Work that ends with looking at names, where what is known of the result may be used. -/
theorem thenNothingWith {x : Check α} {f : α → Check β}
    (before : Follows g file sight mid seen x first) (grows : ∀ a, Keeps Grows (f a))
    (after : ∀ a, first a → Follows g file mid later [] (f a) last) :
    Follows g file sight later seen (x >>= f) last := by
  have all := before.bindWith grows after
  rwa [List.append_nil] at all

theorem thenNothing {x : Check α} {f : α → Check β} (before : Follows g file sight mid seen x first)
    (after : ∀ a, Follows g file mid later [] (f a) last) :
    Follows g file sight later seen (x >>= f) last :=
  before.thenNothingWith (fun a => (after a).grows) fun a _ => after a

theorem returns {x : Check α} (h : Follows g file sight later seen x first) {f : α → β} :
    Follows g file sight later seen (x >>= fun a => Pure.pure (f a)) fun _ => True :=
  h.thenNothing fun _ => plain _

theorem discard {x : Check α} {P : Prop} (h : Follows g file sight later seen x fun _ => P) :
    Follows g file sight later seen (Functor.discard x) fun _ => P where
  grows := keeps_discard h.grows
  follows := h.follows

/-- Work that reports an error fails. -/
theorem report {fault : TypeFault} {other : FileId} {span : Span} {post : PUnit → Prop} :
    Follows g file sight later seen (Check.report other fault span) post where
  grows s := s.grows_report _
  follows s _ fine := (fine (s.failed_report _)).elim

theorem reportThen {fault : TypeFault} {other : FileId} {span : Span} {f : PUnit → Check β}
    (after : ∀ a, Follows g file mid later seen (f a) last) :
    Follows g file sight later seen (Check.report other fault span >>= f) last := by
  have reported : Follows g file sight mid [] (Check.report other fault span) fun _ => True :=
    report
  exact reported.andThen after

theorem fault {fault : TypeFault} {other : FileId} {span : Span} {post : Ty → Prop} :
    Follows g file sight later seen (Check.fault other fault span) post where
  grows := keeps_bind stepRelation_grows (fun s => s.grows_report _) fun _ =>
    keeps_pure stepRelation_grows _
  follows s _ fine := (fine (s.failed_report _)).elim

/-- A node that gets its type after the nodes inside of it. -/
theorem recording {n : Node} {find : Check Ty} {first post : Ty → Prop}
    (h : Follows g file sight sight (seenAll sight n.inner) find first)
    (good : ∀ type, first type → g.SuitsNode sight n type ∧ post type) :
    Follows g file sight sight (seenAll sight [n]) (Check.recording file n.span find) post where
  grows := keeps_recording stepRelation_grows file n.span h.grows
  follows s visible fine := by
    obtain ⟨visible, known, new, records, notes⟩ := h.follows s visible fine
    refine ⟨visible, (good _ known).2, ((file, n.span), (find.run s).1) :: new, ?_, ?_⟩
    · exact congrArg (((file, n.span), (find.run s).1) :: ·) records
    · rw [seenAll_singleton]
      exact notes.cons (good _ known).1

/-- As a target, only a name, a member or an element can do without reporting an error. -/
theorem settle {use : Use} {n : Node} {find : Check Ty} {first : Ty → Prop} {P : Prop}
    (h : Follows g file sight sight (seenAll sight n.inner) find first)
    (suits : ∀ type, first type → g.SuitsNode sight n type) :
    Follows g file sight sight (seenAll sight [n]) (Check.settle file use n.span find)
      fun _ => ∀ fault, use = .target fault → P := by
  have recorded := h.recording fun type known => And.intro (suits type known) trivial
  refine recorded.thenNothing fun type => ?_
  cases use with
  | value expected? => exact pure nofun
  | target otherwise => exact fault

/-- An expression that is neither a name nor writes to anything. -/
theorem settlePlain {use : Use} {n : Node} {find : Check Ty} {P : Prop}
    (h : Follows g file sight sight (seenAll sight n.inner) find fun _ => True)
    (suits : ∀ type, g.SuitsNode sight n type) :
    Follows g file sight sight (seenAll sight [n]) (Check.settle file use n.span find)
      fun _ => ∀ fault, use = .target fault → P := h.settle fun type _ => suits type

/-- What is known of a name suits what the name stands for. -/
theorem kind?_bind {name : String} {f : Option SymbolKind → Check β}
    (grows : Keeps Grows (Check.kind? name >>= f))
    (h : ∀ kind?, Option.Rel g.Suits (g.binding? sight name) kind? →
      (∀ written, kind? ≠ some (.«alias» written none)) →
      Follows g file sight later seen (f kind?) last) :
    Follows g file sight later seen (Check.kind? name >>= f) last where
  grows := grows
  follows s visible fine :=
    (h _ (visible.kind? name) (visible.aliases.kind?_ne name)).follows s visible fine

end Follows

theorem follows_typeOfName (name : String) (span : Span) :
    Follows g file sight sight [] (typeOfName file name span) fun type =>
      g.SuitsName sight name type ∧ ∃ binding kind, g.binding? sight name = some binding ∧
        g.Suits binding kind ∧ kind.IsValue := by
  refine .kind?_bind (keeps_typeOfName stepRelation_grows file name span) fun kind? suits _ => ?_
  generalize stands : g.binding? sight name = binding? at suits
  cases suits with
  | none => exact .fault
  | @some binding kind suits =>
    have value (type : Ty) (value : kind.IsValue)
        (same : ∀ params returns hasBody, kind = .function params returns hasBody →
          type = .function params returns) :
        g.SuitsName sight name type ∧ ∃ binding' kind, some binding = some binding' ∧
          g.Suits binding' kind ∧ kind.IsValue := by
      refine ⟨fun owner head is => ?_, binding, kind, rfl, suits, value⟩
      obtain rfl := Option.some.inj (stands.symm.trans is)
      obtain ⟨params, returns, hasBody, is, stand⟩ := suits.signature
      exact ⟨params, returns, same _ _ _ is, stand⟩
    cases kind with
    | «variable» type keyword? => exact .pure (value type trivial nofun)
    | function params returns hasBody =>
      refine .pure (value _ trivial fun _ _ _ is => ?_)
      cases is
      rfl
    | global known => exact .pure (value _ trivial nofun)
    | builtin | interface | «alias» => exact .fault

theorem follows_requireWritable (name : String) (span : Span) :
    Follows g file sight sight [] (requireWritable file name span) fun _ =>
      ∀ binding, g.binding? sight name = some binding →
        ∃ kind, g.Suits binding kind ∧ kind.IsWritable := by
  have grows : Keeps Grows (requireWritable file name span) :=
    keeps_requireWritable stepRelation_grows file name span
  refine .kind?_bind grows fun kind? suits _ => ?_
  generalize g.binding? sight name = binding? at suits
  cases suits with
  | none => exact .pure nofun
  | @some binding kind suits =>
    have writable (writable : kind.IsWritable) (other : Binding) (is : some binding = some other) :
        ∃ kind, g.Suits other kind ∧ kind.IsWritable :=
      ⟨kind, Option.some.inj is ▸ suits, writable⟩
    cases kind with
    | «variable» type keyword? =>
      cases keyword? with
      | none => exact .pure (writable nofun)
      | some keyword =>
        cases keyword with
        | constant => exact .report
        | letWord | varWord => exact .pure (writable nofun)
    | function => exact .report
    | builtin | interface | «alias» | global => exact .pure (writable trivial)

theorem settled_aliasType (free : List String) (name : String) (span : Span) :
    Keeps Settled (aliasType free file name span) := by
  intro s found
  rw [run_aliasType (found.kind?_ne name)]
  exact ⟨rfl, rfl⟩

theorem follows_resolveType (type : TypeExpr) :
    Follows g file sight sight (seenAll sight [.writtenType type]) (resolveType file type)
      fun _ => True := by
  have names : Follows g file sight sight [] definedNames fun _ => True :=
    .settled (keeps_definedNames stepRelation_grows) (keeps_definedNames reportRelation_settled)
  refine names.andThen fun free => .recording (.settled ?_ ?_) fun _ _ => ⟨⟨nofun, nofun, nofun⟩, trivial⟩
  · exact keeps_typeOf stepRelation_grows file
      (fun name span => keeps_aliasType stepRelation_grows free file name span) type
  · exact keeps_typeOf reportRelation_settled file (settled_aliasType free) type

theorem follows_fields? (type : Ty) :
    Follows g file sight sight [] (fields? type) fun _ => True :=
  .settled (keeps_fields? stepRelation_grows type) (keeps_fields? reportRelation_settled type)

theorem follows_callsGlobal (e : Expr) :
    Follows g file sight sight [] (callsGlobal file e) fun _ => True :=
  .settled (keeps_callsGlobal stepRelation_grows file e)
    (keeps_callsGlobal reportRelation_settled file e)

theorem follows_typeOfMember (type : Ty) (property : Name) :
    Follows g file sight sight [] (typeOfMember file type property) fun _ => True :=
  .settled (keeps_typeOfMember stepRelation_grows file type property)
    (keeps_typeOfMember reportRelation_settled file type property)

end Check

open Check

variable {g : ModuleGraph} {file : FileId} {sight : Sight}

mutual

/-- Unless it fails, an expression is treated by what can be seen, and it may be written to if it
has to be. -/
theorem Expr.follows_check (use : Use) (e : Expr) :
    Follows g file sight sight (seenAll sight [.expression e]) (e.check file use)
      fun _ => ∀ fault, use = .target fault → g.MayWrite sight e := by
  match e with
  | .ident span name =>
    rw [Expr.check]
    have named : Follows g file sight sight (seenAll sight [.expression (.ident span name)])
        (recording file span (typeOfName file name span)) fun _ => ∃ binding kind,
          g.binding? sight name = some binding ∧ g.Suits binding kind ∧ kind.IsValue := by
      refine (follows_typeOfName name span).recording fun type known => ⟨⟨?_, nofun, nofun⟩, known.2⟩
      rintro _ _ ⟨⟩
      exact known.1
    cases use with
    | value expected? => exact named.thenNothing fun _ => .pure nofun
    | target otherwise =>
      have grows : Keeps Grows (requireWritable file name span) :=
        keeps_requireWritable stepRelation_grows file name span
      refine named.thenNothingWith (fun type => ?_)
        fun type ⟨binding, kind, stands, suits, value⟩ => ?_
      · exact keeps_bind stepRelation_grows grows fun _ => keeps_pure stepRelation_grows type
      · refine (follows_requireWritable name span).thenNothingWith
          (fun _ => keeps_pure stepRelation_grows type) fun _ writable => .pure fun _ _ => ?_
        obtain ⟨kind', suits', writable⟩ := writable binding stands
        exact .ofRoot stands (suits.takesValues value suits' writable)
  | .member span base property =>
    rw [Expr.check]
    have inside := (Expr.follows_check (.value none) base).thenNothing fun type =>
      follows_typeOfMember type property
    exact inside.recording fun _ _ => ⟨⟨nofun, nofun, nofun⟩, fun _ _ => .member⟩
  | .index span base place =>
    rw [Expr.check]
    have inside := (Expr.follows_check (.value none) base).bind fun type =>
      (Expr.follows_check (.value none) place).discard.returns (f := fun _ => typeOfElement type)
    rw [← seenAll_append] at inside
    exact inside.recording fun _ _ => ⟨⟨nofun, nofun, nofun⟩, fun _ _ => .index⟩
  | .paren span inner =>
    rw [Expr.check]
    refine (Expr.follows_check use inner).recording fun _ known => ⟨⟨nofun, nofun, nofun⟩, ?_⟩
    exact fun fault is => .paren (known fault is)
  | .number .. | .string .. | .boolean .. | .null .. =>
    rw [Expr.check]
    exact .settlePlain (.plain _) fun _ => ⟨nofun, nofun, nofun⟩
  | .template span head holes =>
    rw [Expr.check]
    exact .settlePlain (TemplateHole.follows_checkAll holes).returns fun _ => ⟨nofun, nofun, nofun⟩
  | .array span elements =>
    rw [Expr.check]
    refine .settlePlain ((Expr.follows_checkElements _ elements).thenNothing fun types => ?_)
      fun _ => ⟨nofun, nofun, nofun⟩
    split <;> exact .plain _
  | .object span properties =>
    rw [Expr.check]
    refine .settle (?_ : Follows g file sight sight _ _ fun type =>
        (∀ p ∈ properties, p.name?.isSome = true) → ∃ fields, type = .object fields ∧
          fields.map Field.name = firstUses (Property.fieldNames properties))
      fun type known => ⟨nofun, nofun, ?_⟩
    · refine (Property.follows_checkAll [] properties).thenNothingWith
        (fun _ => keeps_pure stepRelation_grows _) fun fields known => .pure fun plain => ?_
      exact ⟨fields, rfl, known [] rfl plain⟩
    · rintro _ _ ⟨⟩
      exact known
  | .leading span op opSpan operand =>
    rw [Expr.check]
    refine .settle (?_ : Follows g file sight sight _ _ fun _ =>
        op.isUpdate → g.MayWrite sight operand)
      fun _ writes => ⟨nofun, fun target is => ?_, nofun⟩
    · refine (Expr.follows_check _ operand).thenNothingWith (fun _ => ?_) fun _ known => ?_
      · split <;> exact keeps_pure stepRelation_grows _
      · have writes (update : op.isUpdate) : g.MayWrite sight operand := known _ (if_pos update)
        split <;> exact .pure writes
    · obtain ⟨update, is⟩ := Option.ite_none_right_eq_some.1 is
      exact Option.some.inj is ▸ writes update
  | .trailing span operand op opSpan =>
    rw [Expr.check]
    refine .settle (?_ : Follows g file sight sight _ _ fun _ => g.MayWrite sight operand)
      fun _ writes => ⟨nofun, fun target is => Option.some.inj is ▸ writes, nofun⟩
    refine (Expr.follows_check (.target .badStepTarget) operand).discard.thenNothingWith
      (fun _ => keeps_pure stepRelation_grows _) fun _ known => .pure (known _ rfl)
  | .binary span left op opSpan right =>
    rw [Expr.check]
    refine .settle (?_ : Follows g file sight sight _ _ fun _ =>
        op.isAssignment → g.MayWrite sight left)
      fun _ writes => ⟨nofun, fun target is => ?_, nofun⟩
    · change Follows g file sight sight (seenAll sight [.expression left, .expression right]) _ _
      rw [seenAll_cons]
      split
      · refine (Expr.follows_check (.target .badAssignmentTarget) left).bindWith (fun target => ?_)
          fun target known => ?_
        · exact keeps_bind stepRelation_grows (Expr.follows_check (.value _) right).grows fun _ =>
            keeps_pure stepRelation_grows _
        · exact (Expr.follows_check (.value _) right).thenNothing fun _ =>
            .pure fun _ => known _ rfl
      next other =>
        refine (Expr.follows_check (.value none) left).bind fun _ => ?_
        exact (Expr.follows_check (.value none) right).thenNothing fun _ =>
          .pure fun assignment => (other assignment).elim
    · obtain ⟨assignment, is⟩ := Option.ite_none_right_eq_some.1 is
      exact Option.some.inj is ▸ writes assignment
  | .call span callee args =>
    rw [Expr.check]
    refine .settlePlain ?_ fun _ => ⟨nofun, nofun, nofun⟩
    change Follows g file sight sight
      (seenAll sight (.expression callee :: args.map .expression)) _ _
    rw [seenAll_cons]
    refine (Expr.follows_check (.value none) callee).bind fun type => ?_
    split
    next params returns _ =>
      have inside := (Expr.follows_checkArgs params args).returns (f := fun _ => returns)
      refine (follows_callsGlobal callee).andThen fun _ => ?_
      split
      · exact .reportThen fun _ => inside
      · exact inside
    · refine (Expr.follows_checkArgs [] args).thenNothing fun _ => ?_
      split
      · exact .plain _
      · exact .fault
  | .conditional span condition whenTrue whenFalse =>
    rw [Expr.check]
    refine .settlePlain ?_ fun _ => ⟨nofun, nofun, nofun⟩
    change Follows g file sight sight
      (seenAll sight [.expression condition, .expression whenTrue, .expression whenFalse]) _ _
    rw [seenAll_cons, seenAll_cons sight (.expression whenTrue)]
    refine (Expr.follows_check (.value none) condition).discard.bind fun _ => ?_
    refine (Expr.follows_check (.value _) whenTrue).bind fun type => ?_
    exact (Expr.follows_check (.value _) whenFalse).discard.returns
  | .cast span operand type =>
    rw [Expr.check]
    refine .settlePlain ?_ fun _ => ⟨nofun, nofun, nofun⟩
    change Follows g file sight sight (seenAll sight [.expression operand, .writtenType type]) _ _
    rw [seenAll_cons]
    exact (Expr.follows_check (.value none) operand).discard.bind fun _ => follows_resolveType type

theorem Expr.follows_checkElements (expected? : Option Ty) (elements : List Expr) :
    Follows g file sight sight (seenAll sight (elements.map Node.expression))
      (Expr.checkElements file expected? elements) fun _ => True := by
  match elements with
  | [] =>
    rw [Expr.checkElements]
    exact .plain _
  | e :: rest =>
    rw [Expr.checkElements, List.map_cons, seenAll_cons]
    exact (Expr.follows_check (.value expected?) e).bind fun _ =>
      (Expr.follows_checkElements expected? rest).returns

theorem Expr.follows_checkArgs (params : List Field) (args : List Expr) :
    Follows g file sight sight (seenAll sight (args.map Node.expression))
      (Expr.checkArgs file params args) fun _ => True := by
  match args with
  | [] =>
    rw [Expr.checkArgs]
    exact .plain _
  | e :: rest =>
    rw [Expr.checkArgs, List.map_cons, seenAll_cons]
    exact (Expr.follows_check (.value _) e).discard.bind fun _ => Expr.follows_checkArgs _ rest

theorem Property.follows_checkAll (fields : List Field) (properties : List Property) :
    Follows g file sight sight (seenAll sight (properties.map Property.node))
      (Property.checkAll file fields properties) fun result =>
        ∀ names, fields.map Field.name = firstUses names →
          (∀ p ∈ properties, p.name?.isSome = true) →
          result.map Field.name = firstUses (names ++ Property.fieldNames properties) := by
  match properties with
  | [] =>
    rw [Property.checkAll]
    refine .pure fun names are _ => ?_
    rw [are, Property.fieldNames, List.filterMap_nil, List.append_nil]
  | .assign _ name value :: rest =>
    rw [Property.checkAll, List.map_cons, seenAll_cons]
    refine (Expr.follows_check (.value none) value).bind fun type => ?_
    refine (Property.follows_checkAll (Field.set name.text type.widened fields) rest).mono
      fun result known names are plain => ?_
    have later := known _ (Field.map_name_set_of_firstUses are name.text _)
      fun p mem => plain p (List.mem_cons_of_mem _ mem)
    rwa [List.append_assoc] at later
  | .shorthand _ name :: rest =>
    rw [Property.checkAll, List.map_cons, seenAll_cons]
    have named : Follows g file sight sight (seenAll sight [.shorthand name])
        (recording file name.span do return (← typeOfName file name.text name.span).widened)
        fun _ => True :=
      (follows_typeOfName name.text name.span).returns.recording fun _ _ =>
        ⟨⟨nofun, nofun, nofun⟩, trivial⟩
    refine named.bind fun type => ?_
    refine (Property.follows_checkAll (Field.set name.text type fields) rest).mono
      fun result known names are plain => ?_
    have later := known _ (Field.map_name_set_of_firstUses are name.text _)
      fun p mem => plain p (List.mem_cons_of_mem _ mem)
    rwa [List.append_assoc] at later
  | .spread span value :: rest =>
    rw [Property.checkAll, List.map_cons, seenAll_cons]
    refine (Expr.follows_check (.value none) value).bind fun type => ?_
    refine (follows_fields? type).andThen fun new? => ?_
    -- Nothing is claimed of an object with a spread.
    have spreads {result : List Field} (names : List String)
        (_ : fields.map Field.name = firstUses names)
        (plain : ∀ p ∈ Property.spread span value :: rest, p.name?.isSome = true) :
        result.map Field.name = firstUses (names ++ Property.fieldNames (.spread span value :: rest)) :=
      absurd (plain _ List.mem_cons_self) (by simp [Property.name?])
    split
    · exact (Property.follows_checkAll _ rest).mono fun _ _ => spreads
    · split
      · exact (Property.follows_checkAll _ rest).mono fun _ _ => spreads
      · exact Follows.reportThen fun _ =>
          (Property.follows_checkAll _ rest).mono fun _ _ => spreads

theorem TemplateHole.follows_checkAll (holes : List TemplateHole) :
    Follows g file sight sight
      (seenAll sight (holes.map fun hole => Node.expression hole.value))
      (TemplateHole.checkAll file holes) fun _ => True := by
  match holes with
  | [] =>
    rw [TemplateHole.checkAll]
    exact .plain _
  | .mk value _ :: rest =>
    rw [TemplateHole.checkAll, List.map_cons, seenAll_cons]
    exact (Expr.follows_check (.value none) value).discard.bind fun _ =>
      TemplateHole.follows_checkAll rest

end

end ScriptToGo
