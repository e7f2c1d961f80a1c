import ScriptToGo.Proofs.Check.Collected
import ScriptToGo.Proofs.Check.SymbolNames
import ScriptToGo.Proofs.Check.Reruns

/-! Types only refer to wrappers, to interfaces and to the types of global values. -/
namespace ScriptToGo

section

variable (f : String → String)

/-- Taking some names for others changes nothing that is known of a name, and interfaces keep theirs. -/
inductive SymbolKind.Unmoved (name : String) : SymbolKind → Prop
  | «variable» {type keyword?} : type.Alike f type → Unmoved name (.variable type keyword?)
  | function {params returns hasBody} : Field.AllAlike f params params → returns.Alike f returns →
      Unmoved name (.function params returns hasBody)
  | builtin {type} : type.Alike f type → Unmoved name (.builtin type)
  | interface {members} : f name = name → Field.AllAlike f members members →
      Unmoved name (.interface members)
  | «alias» {written target?} : (∀ target ∈ target?, target.Alike f target) →
      Unmoved name (.«alias» written target?)
  | global {value} : f value.typeName = value.typeName → Unmoved name (.global value)

/-- Taking some names for others changes no type that is known. -/
structure CheckState.Unmoved (s : CheckState) : Prop where
  types : ∀ file span type, s.types.typeAt file span = some type → type.Alike f type
  kinds : ∀ name kind, s.symbols.kind? name = some kind → kind.Unmoved f name

end

variable {f : String → String} {s : CheckState}

/-- Once it is known what an alias stands for, what is known of a name is alike if names in types are
taken for others. -/
theorem SymbolKind.Unmoved.alike {name : String} {kind : SymbolKind} (h : kind.Unmoved f name)
    (known : ∀ written, kind ≠ .«alias» written none) : kind.Alike f kind := by
  cases h with
  | «variable» same => exact .variable same
  | function params returns => exact .function params returns
  | builtin same => exact .builtin same
  | interface _ members => exact .interface members
  | @«alias» written target? same =>
    cases target? with
    | none => exact (known written rfl).elim
    | some target => exact .«alias» (same target rfl)
  | global same => exact .global same

namespace CheckState.Unmoved

theorem report (h : s.Unmoved f) (e : TypeError) : (s.report e).Unmoved f := ⟨h.types, h.kinds⟩

theorem record (h : s.Unmoved f) (file : FileId) (span : Span) {type : Ty}
    (same : type.Alike f type) : (s.record file span type).Unmoved f where
  types other place found := by
    rw [CheckState.record, TypeTable.typeAt, TypeTable.record, List.lookup_cons]
    split
    · rintro ⟨⟩
      exact same
    · exact h.types other place found
  kinds := h.kinds

theorem define (h : s.Unmoved f) {name : String} {kind : SymbolKind} (same : kind.Unmoved f name)
    (span : Span) (file? : Option FileId) :
    CheckState.Unmoved f { s with symbols := s.symbols.define name kind span file? } where
  types := h.types
  kinds other kind' found := by
    rw [SymbolTable.kind?_define] at found
    split at found
    next is =>
      cases found
      rw [is]
      exact same
    · exact h.kinds other kind' found

theorem setKind (h : s.Unmoved f) {id : SymbolId} {kind : SymbolKind}
    (same : ∀ name old, s.symbols.lookup name = some id → s.symbols.kind? name = some old →
      kind.Unmoved f name) :
    CheckState.Unmoved f { s with symbols := s.symbols.setKind id kind } where
  types := h.types
  kinds name kind' found := by
    rw [SymbolTable.kind?_setKind] at found
    split at found
    next named =>
      obtain ⟨old, known, rfl⟩ := Option.map_eq_some_iff.1 found
      exact same name old named known
    · exact h.kinds name kind' found

end CheckState.Unmoved

namespace Check

/-- Work from a state leaves all types unmoved, and its result is as described. -/
structure Leaves {α : Type} (f : String → String) (s : CheckState) (work : Check α)
    (post : α → Prop) : Prop where
  state : (work.run s).2.Unmoved f
  result : post (work.run s).1

variable {α β : Type} {post mid : α → Prop} {last : β → Prop}

namespace Leaves

theorem pure (unmoved : s.Unmoved f) {a : α} (good : post a) : Leaves f s (Pure.pure a) post :=
  ⟨unmoved, good⟩

theorem nothing (unmoved : s.Unmoved f) : Leaves f s (Pure.pure ⟨⟩ : Check PUnit) fun _ => True :=
  pure unmoved trivial

theorem bind {x : Check α} {g : α → Check β} (first : Leaves f s x mid)
    (next : ∀ a t, t.Unmoved f → mid a → Leaves f t (g a) last) : Leaves f s (x >>= g) last :=
  have second := next _ _ first.state first.result
  ⟨second.state, second.result⟩

theorem get {g : CheckState → Check β} (h : Leaves f s (g s) last) :
    Leaves f s (MonadState.get >>= g) last := ⟨h.state, h.result⟩

theorem report (unmoved : s.Unmoved f) {file : FileId} {fault : TypeFault} {span : Span} :
    Leaves f s (Check.report file fault span) fun _ => True := ⟨unmoved.report _, trivial⟩

theorem fault (unmoved : s.Unmoved f) {file : FileId} {fault : TypeFault} {span : Span} :
    Leaves f s (Check.fault file fault span) fun type => type.Alike f type :=
  (report unmoved).bind fun _ _ unmoved _ => pure unmoved rfl

theorem recording {find : Check Ty} (h : Leaves f s find fun type => type.Alike f type)
    {file : FileId} {span : Span} :
    Leaves f s (Check.recording file span find) fun type => type.Alike f type :=
  h.bind fun _ _ unmoved same => ⟨unmoved.record file span same, same⟩

theorem kind? {name : String} {g : Option SymbolKind → Check β}
    (h : Leaves f s (g (s.symbols.kind? name)) last) :
    Leaves f s (Check.kind? name >>= g) last := ⟨h.state, h.result⟩

/-- Looking up the symbol of a declaration changes nothing. -/
theorem ownGlobal? {file : FileId} {name : Name} {g : Option SymbolId → Check β}
    (h : ∀ own?, Leaves f s (g own?) last) : Leaves f s (Check.ownGlobal? file name >>= g) last :=
  ⟨(h _).state, (h _).result⟩

theorem discard {x : Check α} (h : Leaves f s x post) :
    Leaves f s (Functor.discard x) fun _ => True := ⟨h.state, trivial⟩

theorem forM {list : List α} {g : α → Check PUnit} (unmoved : s.Unmoved f)
    (h : ∀ a ∈ list, ∀ t, t.Unmoved f → Leaves f t (g a) fun _ => True) :
    Leaves f s (list.forM g) fun _ => True := by
  induction list generalizing s with
  | nil => exact nothing unmoved
  | cons a rest ih =>
    obtain ⟨here, others⟩ := List.forall_mem_cons.1 h
    exact (here s unmoved).bind fun _ _ unmoved _ => ih unmoved others

end Leaves

/-- What aliases stand for is unmoved. -/
def ExpandsUnmoved (f : String → String) (expand : String → Span → Check Ty) : Prop :=
  ∀ name span s, s.Unmoved f → Leaves f s (expand name span) fun type => type.Alike f type

/-- The names of wrappers are not taken for others. -/
def KeepsWrappers (f : String → String) : Prop :=
  ∀ name, TypeExpr.isWrapper name = true → f name = name

mutual

theorem leaves_typeOf (wrappers : KeepsWrappers f) {file : FileId} {expand : String → Span → Check Ty}
    (expands : ExpandsUnmoved f expand) {s : CheckState} (unmoved : s.Unmoved f) (t : TypeExpr) :
    Leaves f s (typeOf file expand t) fun type => type.Alike f type := by
  match t with
  | .named span name args =>
    rw [typeOf]
    refine (leaves_typesOf wrappers expands unmoved args).bind fun types t unmoved same => ?_
    split
    next isWrapper =>
      split
      next type =>
        split
        · have single : type.Alike f type := (List.cons.inj same).1
          exact .pure unmoved single.array
        · exact .pure unmoved (Ty.alike_reference same (wrappers name isWrapper).symm)
      · exact .fault unmoved
    · refine .kind? ?_
      cases found : t.symbols.kind? name with
      | none => exact .fault unmoved
      | some kind =>
        cases unmoved.kinds name kind found with
        | builtin same =>
          dsimp only
          split
          · exact (Leaves.report unmoved).bind fun _ _ unmoved _ => .pure unmoved same
          · exact .pure unmoved same
        | interface stays => exact .pure unmoved (Ty.alike_reference same stays.symm)
        | «alias» => exact expands name span t unmoved
        | «variable» | function | global => exact .fault unmoved
  | .array span element =>
    rw [typeOf]
    exact (leaves_typeOf wrappers expands unmoved element).bind fun _ _ unmoved same =>
      .pure unmoved same.array
  | .object span members =>
    rw [typeOf]
    exact (leaves_fieldsOf wrappers expands unmoved members).bind fun _ _ unmoved same =>
      .pure unmoved (Ty.alike_object same)
  | .string .. | .number .. | .boolean .. | .null .. =>
    rw [typeOf]
    exact .pure unmoved rfl

theorem leaves_typesOf (wrappers : KeepsWrappers f) {file : FileId} {expand : String → Span → Check Ty}
    (expands : ExpandsUnmoved f expand) {s : CheckState} (unmoved : s.Unmoved f)
    (types : List TypeExpr) :
    Leaves f s (typesOf file expand types) fun types => Ty.AllAlike f types types := by
  match types with
  | [] =>
    rw [typesOf]
    exact .pure unmoved .nil
  | t :: rest =>
    rw [typesOf]
    refine (leaves_typeOf wrappers expands unmoved t).bind fun _ _ unmoved first => ?_
    exact (leaves_typesOf wrappers expands unmoved rest).bind fun _ _ unmoved others =>
      .pure unmoved (first.cons others)

theorem leaves_fieldsOf (wrappers : KeepsWrappers f) {file : FileId} {expand : String → Span → Check Ty}
    (expands : ExpandsUnmoved f expand) {s : CheckState} (unmoved : s.Unmoved f)
    (members : List Member) :
    Leaves f s (fieldsOf file expand members) fun fields => Field.AllAlike f fields fields := by
  match members with
  | [] =>
    rw [fieldsOf]
    exact .pure unmoved .nil
  | .mk _ name _ t :: rest =>
    rw [fieldsOf]
    refine (leaves_typeOf wrappers expands unmoved t).bind fun _ _ unmoved first => ?_
    exact (leaves_fieldsOf wrappers expands unmoved rest).bind fun _ _ unmoved others =>
      .pure unmoved (Field.AllAlike.cons first others name)

end

section

variable (wrappers : KeepsWrappers f)
include wrappers

theorem expandsUnmoved_aliasType (free : List String) (file : FileId) :
    ExpandsUnmoved f (aliasType free file) := by
  intro name span s unmoved
  rw [aliasType]
  refine .get ?_
  dsimp only
  split
  · exact .pure unmoved rfl
  next id found =>
    have kind (kind : SymbolKind) (is : (s.symbols.symbol? id).map Symbol.kind = some kind) :
        kind.Unmoved f name := by
      refine unmoved.kinds name kind ?_
      rw [SymbolTable.kind?, found]
      exact is
    split
    next target _ _ _ has =>
      cases kind _ (congrArg (Option.map Symbol.kind) has) with
      | «alias» same =>
        have known : target.Alike f target := same target rfl
        exact .pure unmoved (known.alias name name)
    next written _ file? _ has =>
      split
      next here =>
        have shorter := length_without_lt here
        have expands := expandsUnmoved_aliasType (without name free) (file?.getD file)
        refine (leaves_typeOf wrappers expands unmoved written).recording.bind ?_
        intro target t unmoved same
        have set : Leaves f t (modifySymbols (·.setKind id (.«alias» written (some target))))
            fun _ => True := by
          refine ⟨unmoved.setKind fun _ _ _ _ => .«alias» ?_, trivial⟩
          rintro _ ⟨⟩
          exact same
        exact set.bind fun _ _ unmoved _ => .pure unmoved (same.alias name name)
      · exact .fault unmoved
    · exact .pure unmoved rfl
termination_by free.length

theorem leaves_resolveType (unmoved : s.Unmoved f) (file : FileId) (t : TypeExpr) :
    Leaves f s (resolveType file t) fun type => type.Alike f type :=
  .get (leaves_typeOf wrappers (expandsUnmoved_aliasType wrappers _ file) unmoved t).recording

theorem leaves_resolveOptional (unmoved : s.Unmoved f) (file : FileId) (t? : Option TypeExpr) :
    Leaves f s (resolveOptional file t?) fun type => type.Alike f type := by
  cases t? with
  | none => exact .pure unmoved rfl
  | some t => exact leaves_resolveType wrappers unmoved file t

theorem leaves_collectMembers (unmoved : s.Unmoved f) (file : FileId) (members : List Member) :
    Leaves f s (collectMembers file members) fun fields => Field.AllAlike f fields fields := by
  induction members generalizing s with
  | nil => exact .pure unmoved .nil
  | cons m rest ih =>
    refine (leaves_resolveType wrappers unmoved file m.type).bind fun _ _ unmoved first => ?_
    exact (ih unmoved).bind fun _ _ unmoved others => .pure unmoved (Field.AllAlike.cons first others m.name)

theorem leaves_collectParams (unmoved : s.Unmoved f) (file : FileId) (params : List Param) :
    Leaves f s (collectParams file params) fun fields => Field.AllAlike f fields fields := by
  induction params generalizing s with
  | nil => exact .pure unmoved .nil
  | cons p rest ih =>
    refine (leaves_resolveOptional wrappers unmoved file p.type?).recording.bind ?_
    intro _ _ unmoved first
    exact (ih unmoved).bind fun _ _ unmoved others =>
      .pure unmoved (Field.AllAlike.cons first others p.name.text)

theorem leaves_collectFunction (unmoved : s.Unmoved f) (file : FileId) (head : FunctionHead)
    (hasBody : Bool) : Leaves f s (collectFunction file head hasBody) fun _ => True := by
  refine (leaves_collectParams wrappers unmoved file head.params).bind fun params t unmoved first => ?_
  refine (leaves_resolveOptional wrappers unmoved file head.returns?).bind fun returns t unmoved last => ?_
  split
  · exact .nothing unmoved
  · refine .get ?_
    dsimp only
    split
    · exact ⟨unmoved.define (.function first last) _ _, trivial⟩
    next id found =>
      split
      next _ former result _ _ _ _ has =>
        split
        · -- The parameters and the result that a name has first are the ones that stay.
          have kept (isKnown : Bool) : Leaves f t
              (modifySymbols (·.setKind id (.function former result isKnown))) fun _ => True := by
            refine ⟨unmoved.setKind fun other old named known => ?_, trivial⟩
            have same := unmoved.kinds other old known
            rw [SymbolTable.kind?, named, Option.bind_some, has] at known
            cases known
            cases same with
            | function first last => exact .function first last
          refine (kept _).bind fun _ _ unmoved _ => ?_
          split
          · exact .report unmoved
          · exact .nothing unmoved
        · exact .nothing unmoved
      · exact .report unmoved

end

theorem leaves_defineGlobal (unmoved : s.Unmoved f) (file : FileId) {name : Name} {kind : SymbolKind}
    (same : kind.Unmoved f name.text) :
    Leaves f s (defineGlobal file name kind) fun _ => True := by
  refine .get ?_
  dsimp only
  split
  · exact ⟨unmoved.define same _ _, trivial⟩
  · split
    · exact .report unmoved
    · exact .nothing unmoved

end Check

/-- The name of the interface that a statement declares. -/
def Statement.interfaceName? : Statement → Option String
  | .interface _ decl => some decl.name.text
  | _ => none

namespace Check

theorem leaves_collectTypeName (unmoved : s.Unmoved f) (file : FileId) (statement : Statement)
    (stays : ∀ name ∈ statement.interfaceName?, f name = name) :
    Leaves f s (collectTypeName file statement) fun _ => True := by
  cases statement with
  | interface _ decl => exact leaves_defineGlobal unmoved file (.interface (stays _ rfl) .nil)
  | typeAlias _ decl => exact leaves_defineGlobal unmoved file (.«alias» nofun)
  | _ => exact .nothing unmoved

theorem leaves_collectDeclaration (wrappers : KeepsWrappers f) (unmoved : s.Unmoved f) (file : FileId)
    (statement : Statement) : Leaves f s (collectDeclaration file statement) fun _ => True := by
  cases statement with
  | interface _ decl =>
    refine (leaves_collectMembers wrappers unmoved file decl.members).bind fun members t unmoved same => ?_
    refine .ownGlobal? fun own? => ?_
    cases own? with
    | none => exact .nothing unmoved
    | some id =>
      refine .get ?_
      split
      next is =>
        refine ⟨unmoved.setKind fun name old named known => ?_, trivial⟩
        have stays := unmoved.kinds name old known
        rw [SymbolTable.kind?, named, Option.bind_some, is] at known
        cases known
        cases stays with
        | interface stays => exact .interface stays same
      · exact .nothing unmoved
  | typeAlias _ decl =>
    refine .ownGlobal? fun own? => ?_
    split
    · exact (Leaves.get (expandsUnmoved_aliasType wrappers _ file _ _ _ unmoved)).discard
    · exact .nothing unmoved
  | function _ head => exact leaves_collectFunction wrappers unmoved file head true
  | overload _ head => exact leaves_collectFunction wrappers unmoved file head false
  | _ => exact .nothing unmoved

end Check

/-- What every program knows only mentions the types of global values. -/
theorem CheckState.unmoved_initial (globals : ∀ g ∈ Builtin.globals, f g.typeName = g.typeName) :
    CheckState.initial.Unmoved f where
  types _ _ _ found := nomatch found
  kinds name kind found := by
    obtain ⟨symbol, mem, rfl⟩ := SymbolTable.mem_of_kind? found
    refine CheckState.kinds_initial (P := fun kind => kind.Unmoved f name) ?_ symbol mem
    refine List.forall_mem_append.2 ⟨List.forall_mem_append.2 ⟨?_, ?_⟩, ?_⟩
    · refine List.forall_mem_map.2 fun p _ => .builtin ?_
      cases p <;> rfl
    · exact List.forall_mem_map.2 fun name _ => .builtin rfl
    · exact List.forall_mem_map.2 fun g mem => .global (globals g mem)

/-- If the names of interfaces are not taken for others, and those of wrappers and of the types of
global values are not, then nothing changes in what is collected. -/
theorem ModuleGraph.unmoved_collected (g : ModuleGraph) (wrappers : Check.KeepsWrappers f)
    (globals : ∀ g ∈ Builtin.globals, f g.typeName = g.typeName)
    (interfaces : ∀ m ∈ g.modules, ∀ s ∈ m.program, ∀ name ∈ s.interfaceName?, f name = name) :
    ((Check.collect g).run .initial).2.Unmoved f := by
  have named := Check.Leaves.forM (CheckState.unmoved_initial globals) fun m mem t unmoved =>
    Check.Leaves.forM unmoved fun s inside t unmoved =>
      Check.leaves_collectTypeName unmoved m.id s (interfaces m mem s inside)
  have collected : Check.Leaves f .initial (Check.collect g) fun _ => True :=
    named.bind fun _ t unmoved _ => .forM unmoved fun m _ t unmoved =>
      .forM unmoved fun s _ t unmoved => Check.leaves_collectDeclaration wrappers unmoved m.id s
  exact collected.state

end ScriptToGo
