import ScriptToGo.Proofs.Check.AliasNames
import ScriptToGo.Proofs.Check.Inferred
import ScriptToGo.Proofs.Types.Proper

/-! Every unknown type stands for an error that has been reported. -/
namespace ScriptToGo

/-- Each unknown type that checking has recorded or keeps stands for an error. -/
structure CheckState.Reported (s : CheckState) : Prop where
  types : ∀ entry ∈ s.types.records, entry.2.HasUnknown → s.Failed
  kinds : ∀ symbol ∈ s.symbols.symbols, symbol.kind.HasUnknown → s.Failed
  returns : ∀ scope ∈ s.symbols.scopes, ∀ type ∈ scope.returns?, type.HasUnknown → s.Failed

theorem CheckState.reported_iff_sound {s : CheckState} : s.Reported ↔ s.Sound AnyText where
  mp h :=
    { types := fun entry mem => entry.2.proper_iff.2 (h.types entry mem)
      kinds := fun symbol mem => symbol.kind.proper_iff.2 (h.kinds symbol mem)
      returns := fun scope mem type some => type.proper_iff.2 (h.returns scope mem type some) }
  mpr h :=
    { types := fun entry mem => entry.2.proper_iff.1 (h.types entry mem)
      kinds := fun symbol mem => symbol.kind.proper_iff.1 (h.kinds symbol mem)
      returns := fun scope mem type some => type.proper_iff.1 (h.returns scope mem type some) }

namespace Check

/-- Work that starts in a state forgets no error, and leaves each unknown type with an error: those
that it records or keeps, and those in its result. -/
structure Reports {α : Type} (s : CheckState) (work : Check α) (HasUnknown : α → Prop) : Prop where
  state : (work.run s).2.Reported
  more : s.Failed → (work.run s).2.Failed
  result : HasUnknown (work.run s).1 → (work.run s).2.Failed

/-- Nothing in the result can be unknown. -/
def NoType {α : Type} (_ : α) : Prop := False

/-- Some of the fields, if there are any, are unknown. -/
def SomeFieldsUnknown (fields? : Option (List Field)) : Prop :=
  ∃ fields ∈ fields?, Field.SomeUnknown fields

namespace Yields

variable {α : Type} {s : CheckState}

theorem reports {work : Check α} {post : α → CheckState → Prop} {HasUnknown : α → Prop}
    (h : Yields AnyText s work post) (known : ∀ a t, post a t → HasUnknown a → t.Failed) :
    Reports s work HasUnknown :=
  ⟨CheckState.reported_iff_sound.2 h.sound, h.more, known _ _ h.result⟩

theorem reportsType {work : Check Ty} (h : Yields AnyText s work (IsType AnyText)) :
    Reports s work Ty.HasUnknown := h.reports fun type _ => type.proper_iff.1

theorem reportsTypes {work : Check (List Ty)} (h : Yields AnyText s work (AreTypes AnyText)) :
    Reports s work Ty.SomeUnknown := h.reports fun types _ => (Ty.allProper_iff types).1

theorem reportsFields {work : Check (List Field)} (h : Yields AnyText s work (AreFields AnyText)) :
    Reports s work Field.SomeUnknown := h.reports fun fields _ => (Field.allProper_iff fields).1

theorem reportsNothing {work : Check α} (h : Yields AnyText s work Anything) :
    Reports s work NoType := h.reports fun _ _ _ => False.elim

end Yields

end Check

open Check

/-- If a type is expected of a value, it is known in all parts unless an error has been reported. -/
def Use.Reported (use : Use) (s : CheckState) : Prop :=
  ∀ type ∈ use.expected?, type.HasUnknown → s.Failed

/-- Every check that starts in a state, and every step between checks, leaves each unknown type with
an error. -/
structure CheckState.Answers (s : CheckState) (g : ModuleGraph) : Prop where
  expression : ∀ file use e, use.Reported s → Reports s (Expr.check file use e) Ty.HasUnknown
  elements : ∀ file expected? list, (Use.value expected?).Reported s →
    Reports s (Expr.checkElements file expected? list) Ty.SomeUnknown
  arguments : ∀ file params list, (Field.SomeUnknown params → s.Failed) →
    Reports s (Expr.checkArgs file params list) NoType
  properties : ∀ file fields list, (Field.SomeUnknown fields → s.Failed) →
    Reports s (Property.checkAll file fields list) Field.SomeUnknown
  name : ∀ file name span, Reports s (typeOfName file name span) Ty.HasUnknown
  fields : ∀ type, (type.HasUnknown → s.Failed) → Reports s (fields? type) SomeFieldsUnknown
  member : ∀ file type property, (type.HasUnknown → s.Failed) →
    Reports s (typeOfMember file type property) Ty.HasUnknown
  writtenType : ∀ file type, Reports s (resolveType file type) Ty.HasUnknown
  optionalType : ∀ file type?, Reports s (resolveOptional file type?) Ty.HasUnknown
  /-- Part of a written type, also while aliases are being looked into. -/
  partOfType : ∀ free file type, Reports s (typeOf file (aliasType free file) type) Ty.HasUnknown
  «alias» : ∀ free file name span, IsAlias s name →
    Reports s (aliasType free file name span) Ty.HasUnknown
  members : ∀ file list, Reports s (collectMembers file list) Field.SomeUnknown
  params : ∀ file list, Reports s (collectParams file list) Field.SomeUnknown
  knownParams : ∀ file list, Reports s (recordedParams file list) Field.SomeUnknown
  knownReturns : ∀ file head, Reports s (recordedReturns file head) Ty.HasUnknown
  typeName : ∀ file statement, Reports s (collectTypeName file statement) NoType
  declaration : ∀ file statement, Reports s (collectDeclaration file statement) NoType
  declarator : ∀ file keyword d, Reports s (Declarator.check file keyword d) NoType
  statement : ∀ file statement, Reports s (Statement.check file statement) NoType
  topLevel : ∀ file statement, Reports s (checkTopLevel g file statement) NoType
  opening : ∀ kind, Reports s (modifySymbols (·.enter kind)) NoType
  closing : Reports s (modifySymbols (·.exit)) NoType
  returning : ∀ type, (type.HasUnknown → s.Failed) →
    Reports s (modifySymbols (·.setReturnType type)) NoType
  binding : ∀ file params fields, (Field.SomeUnknown fields → s.Failed) →
    Reports s (bindParams file params fields) NoType

/-- No unknown type that comes up while a program is checked goes without an error. -/
structure ModuleGraph.UnknownsReported (g : ModuleGraph) : Prop where
  initially : CheckState.initial.Reported
  checks : ∀ s : CheckState, s.Reported → s.Answers g
  collecting : ∀ s, g.Collecting s → s.Reported
  /-- Where the declaration of an alias is collected and it is the one that counts, there is an alias
  to look into. -/
  ownAlias : ∀ s, g.Collecting s → ∀ m ∈ g.modules, ∀ span decl,
    .typeAlias span decl ∈ m.program → ((ownGlobal? m.id decl.name).run s).1.isSome →
      Reports s (resolveAlias m.id decl.name.text decl.name.span) Ty.HasUnknown
  final : ((checkModules g).run .initial).2.Reported
  accepted : ∀ types, g.check = .ok types → ∀ entry ∈ types.records, ¬ entry.2.HasUnknown

theorem ignoresSign_anyText : IgnoresSign AnyText := fun _ => Iff.rfl

theorem Use.Reported.proper {use : Use} {s : CheckState} (h : use.Reported s) :
    use.Proper AnyText s.Failed := fun type some => type.proper_iff.2 (h type some)

theorem CheckState.Reported.answers {s : CheckState} (h : s.Reported) (g : ModuleGraph) :
    s.Answers g := by
  have sound := reported_iff_sound.1 h
  have any (text : String) : AnyText text := trivial
  have signs := ignoresSign_anyText
  exact {
    expression := fun _ _ e known =>
      (e.yields_check signs sound known.proper (e.allTexts_of_forall any)).reportsType
    elements := fun _ _ list known =>
      (Expr.yields_checkElements signs sound (Use.Reported.proper known) list
        (Expr.allTextsOf_of_forall any list)).reportsTypes
    arguments := fun _ params list known =>
      (Expr.yields_checkArgs signs sound ((Field.allProper_iff params).2 known) list
        (Expr.allTextsOf_of_forall any list)).reportsNothing
    properties := fun _ fields list known =>
      (Property.yields_checkAll signs sound ((Field.allProper_iff fields).2 known) list
        (Property.allTextsOf_of_forall any list)).reportsFields
    name := fun _ _ _ => (yields_typeOfName sound).reportsType
    fields := fun type known => by
      refine (yields_fields? sound (type.proper_iff.2 known)).reports fun fields? _ proper unknown => ?_
      obtain ⟨fields, some, unknown⟩ := unknown
      exact (Field.allProper_iff fields).1 (proper fields some) unknown
    member := fun _ type _ known =>
      (yields_typeOfMember sound (type.proper_iff.2 known)).reportsType
    writtenType := fun _ type =>
      (yields_resolveType sound (type.allTexts_of_forall any)).reportsType
    optionalType := fun _ _ =>
      (yields_resolveOptional sound fun type _ => type.allTexts_of_forall any).reportsType
    partOfType := fun free file type =>
      (yields_typeOf (expands_aliasType free file) sound type
        (type.allTexts_of_forall any)).reportsType
    «alias» := fun free file name span isAlias =>
      (expands_aliasType free file name span s sound (any name) isAlias).reportsType
    members := fun _ list =>
      (yields_collectMembers sound list (Member.allTextsOf_of_forall any list)).reportsFields
    params := fun _ list =>
      (yields_collectParams sound list fun p _ => p.allTexts_of_forall any).reportsFields
    knownParams := fun _ list =>
      (yields_recordedParams sound list fun p _ => p.allTexts_of_forall any).reportsFields
    knownReturns := fun _ _ => (yields_recordedReturns sound).reportsType
    typeName := fun _ statement =>
      (yields_collectTypeName sound statement (statement.allTexts_of_forall any)).reportsNothing
    declaration := fun _ statement =>
      (yields_collectDeclaration sound statement (statement.allTexts_of_forall any)).reportsNothing
    declarator := fun _ _ d =>
      (Declarator.yields_check signs sound (d.allTexts_of_forall any)).reportsNothing
    statement := fun _ statement =>
      (statement.yields_check signs sound (statement.allTexts_of_forall any)).reportsNothing
    topLevel := fun _ statement =>
      (yields_checkTopLevel signs sound (fun m _ => Statement.allTextsOf_of_forall any m.program)
        statement (statement.allTexts_of_forall any)).reportsNothing
    opening := fun kind => ⟨reported_iff_sound.2 (sound.enter kind), id, False.elim⟩
    closing := ⟨reported_iff_sound.2 sound.exit, id, False.elim⟩
    returning := fun type known =>
      (yields_setReturnType sound (type.proper_iff.2 known)).reportsNothing
    binding := fun _ params fields known =>
      (yields_bindParams sound params ((Field.allProper_iff fields).2 known)).reportsNothing }

theorem CheckState.reported_initial : CheckState.initial.Reported := by
  apply reported_iff_sound.2
  apply sound_initial
  exact SymbolTable.proper_builtins (fun _ _ => trivial) fun _ _ => trivial

/-- The declaration of an alias that counts finds the alias, or an error has been reported. -/
theorem Check.reports_ownAlias {s : CheckState} (h : s.Reported) {file : FileId} {name : Name}
    (named : s.NamesAlias file name.text) (own : ((ownGlobal? file name).run s).1.isSome) :
    Reports s (resolveAlias file name.text name.span) Ty.HasUnknown := by
  have sound := CheckState.reported_iff_sound.1 h
  obtain ⟨id, symbol, found, has, known⟩ := named
  have isOwn : symbol.file? = some file := by
    have own : ((s.symbols.lookupLocal name.text).filter fun id => (s.symbols.symbol? id).any
        fun s => s.file? == some file && s.span == name.span).isSome := own
    rw [found, Option.isSome_filter] at own
    simp [has] at own
    exact own.1
  rcases known isOwn with ⟨written, target?, is⟩ | failed
  · have isAlias : IsAlias s name.text := by
      refine ⟨written, target?, ?_⟩
      rw [SymbolTable.kind?, SymbolTable.lookup_of_lookupLocal found, Option.bind_some, has,
        Option.map_some, is]
    exact Yields.reportsType (.definedNames fun free =>
      expands_aliasType free file _ _ s sound trivial isAlias)
  · have found : Yields AnyText s (resolveAlias file name.text name.span) Anything :=
      .definedNames fun free => (yields_aliasType free file sound trivial).anyway
    exact ⟨CheckState.reported_iff_sound.2 found.sound, found.more, fun _ => found.more failed⟩

namespace ModuleGraph

variable {g : ModuleGraph}

theorem Collecting.reported {s : CheckState} (h : g.Collecting s) : s.Reported := by
  induction h with
  | named =>
    have named : Yields AnyText .initial
        (g.modules.forM fun m => m.program.forM (collectTypeName m.id)) Anything := by
      have start := CheckState.reported_iff_sound.1 CheckState.reported_initial
      refine yields_forM start fun m _ _ sound _ => yields_forM sound fun statement _ _ sound _ => ?_
      exact yields_collectTypeName sound statement (statement.allTexts_of_forall fun _ => trivial)
    exact CheckState.reported_iff_sound.2 named.sound
  | @declared s m statement _ _ _ ih => exact ((ih.answers g).declaration m.id statement).state

theorem reported_checkModules (g : ModuleGraph) : ((checkModules g).run .initial).2.Reported := by
  have start := CheckState.reported_iff_sound.1 CheckState.reported_initial
  have texts (m : Module) : Statement.AllTextsOf AnyText m.program :=
    Statement.allTextsOf_of_forall (fun _ => trivial) m.program
  exact CheckState.reported_iff_sound.2
    (yields_checkModules ignoresSign_anyText start fun m _ => texts m).sound

/-- When a program is accepted, no recorded type is unknown in any part. -/
theorem known_of_check {types : TypeTable} (accepted : g.check = .ok types) :
    ∀ entry ∈ types.records, ¬ entry.2.HasUnknown := by
  rw [ModuleGraph.check] at accepted
  split at accepted
  next clean =>
    cases accepted
    intro entry mem unknown
    exact g.reported_checkModules.types entry mem unknown (List.isEmpty_iff.1 clean)
  · cases accepted

theorem unknowns_reported (g : ModuleGraph) : g.UnknownsReported where
  initially := CheckState.reported_initial
  checks _ reported := reported.answers g
  collecting _ collecting := collecting.reported
  ownAlias _ collecting m mem span decl declares :=
    reports_ownAlias collecting.reported (collecting.namesAlias m mem _ declares span decl rfl)
  final := g.reported_checkModules
  accepted _ := known_of_check

/-- A name that nothing defines has an unknown type, and is an error. -/
example : ((Expr.ident ⟨0, 1⟩ "x").check 0 (.value none)).run .initial =
    (.unknown, (CheckState.initial.report ⟨0, .unknownName "x", ⟨0, 1⟩⟩).record 0 ⟨0, 1⟩ .unknown) := by
  cbv

end ModuleGraph

end ScriptToGo
