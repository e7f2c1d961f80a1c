import ScriptToGo.Proofs.Check.Sound

/-! What checking yields from a sound state: the types of names and of what is declared. -/
namespace ScriptToGo.Check

/-- Work that starts in a state leads to a sound one that has no fewer errors, and its result is as
described. -/
structure Yields {α : Type} (Good : String → Prop) (s : CheckState) (work : Check α)
    (post : α → CheckState → Prop) : Prop where
  sound : (work.run s).2.Sound Good
  more : s.Failed → (work.run s).2.Failed
  result : post (work.run s).1 (work.run s).2

section

variable (Good : String → Prop)

/-- The result is a proper type. -/
def IsType (type : Ty) (t : CheckState) : Prop := type.Proper Good t.Failed

def AreTypes (types : List Ty) (t : CheckState) : Prop := Ty.AllProper Good t.Failed types

def AreFields (fields : List Field) (t : CheckState) : Prop := Field.AllProper Good t.Failed fields

/-- Nothing is said about the result. -/
def Anything {α : Type} (_ : α) (_ : CheckState) : Prop := True

end

variable {Good : String → Prop} {s : CheckState} {α β : Type} {post mid : α → CheckState → Prop}
  {last : β → CheckState → Prop}

namespace Yields

theorem pure (sound : s.Sound Good) {a : α} (good : post a s) :
    Yields Good s (Pure.pure a) post := ⟨sound, id, good⟩

theorem bind {x : Check α} {f : α → Check β} (first : Yields Good s x mid)
    (next : ∀ a t, t.Sound Good → (s.Failed → t.Failed) → mid a t → Yields Good t (f a) last) :
    Yields Good s (x >>= f) last := by
  have second := next _ _ first.sound first.more first.result
  exact ⟨second.sound, fun failed => second.more (first.more failed), second.result⟩

theorem mono {x : Check α} (h : Yields Good s x mid)
    (implies : ∀ a t, t.Sound Good → (s.Failed → t.Failed) → mid a t → post a t) :
    Yields Good s x post :=
  ⟨h.sound, h.more, implies _ _ h.sound h.more h.result⟩

theorem anyway {x : Check α} (h : Yields Good s x post) : Yields Good s x Anything :=
  ⟨h.sound, h.more, trivial⟩

theorem discard {x : Check α} (h : Yields Good s x post) :
    Yields Good s (Functor.discard x) Anything := ⟨h.sound, h.more, trivial⟩

/-- Looking at the state changes nothing. -/
theorem get {f : CheckState → Check β} (h : Yields Good s (f s) last) :
    Yields Good s (MonadState.get >>= f) last := ⟨h.sound, h.more, h.result⟩

theorem kind? {name : String} {f : Option SymbolKind → Check β}
    (h : Yields Good s (f (s.symbols.kind? name)) last) :
    Yields Good s (Check.kind? name >>= f) last := ⟨h.sound, h.more, h.result⟩

theorem recorded? {file : FileId} {span : Span} {f : Option Ty → Check β}
    (h : Yields Good s (f (s.types.typeAt file span)) last) :
    Yields Good s (Check.recorded? file span >>= f) last := ⟨h.sound, h.more, h.result⟩

theorem definedNames {f : List String → Check β} (h : ∀ names, Yields Good s (f names) last) :
    Yields Good s (Check.definedNames >>= f) last :=
  ⟨(h _).sound, (h _).more, (h _).result⟩

end Yields

theorem yields_report (sound : s.Sound Good) {file : FileId} {fault : TypeFault} {span : Span} :
    Yields Good s (report file fault span) fun _ t => t.Failed :=
  ⟨sound.report _, fun _ => s.failed_report _, s.failed_report _⟩

theorem yields_fault (sound : s.Sound Good) {file : FileId} {fault : TypeFault} {span : Span} :
    Yields Good s (Check.fault file fault span) (IsType Good) :=
  (yields_report sound).bind fun _ _ sound _ failed => .pure sound failed

theorem yields_record (sound : s.Sound Good) {file : FileId} {span : Span} {type : Ty}
    (proper : type.Proper Good s.Failed) : Yields Good s (record file span type) Anything :=
  ⟨sound.record file span proper, id, trivial⟩

theorem Yields.recording {find : Check Ty} (h : Yields Good s find (IsType Good)) {file : FileId}
    {span : Span} : Yields Good s (Check.recording file span find) (IsType Good) :=
  h.bind fun _ _ sound _ proper => ⟨sound.record file span proper, id, proper⟩

theorem yields_define (sound : s.Sound Good) {file : FileId} {name : String} {kind : SymbolKind}
    {span : Span} (proper : kind.Proper Good s.Failed) :
    Yields Good s (define file name kind span) Anything :=
  ⟨sound.define name span (some file) proper, id, trivial⟩

theorem yields_setKind (sound : s.Sound Good) {id : SymbolId} {kind : SymbolKind}
    (proper : kind.Proper Good s.Failed) :
    Yields Good s (modifySymbols (·.setKind id kind)) Anything :=
  ⟨sound.setKind id proper, fun failed => failed, trivial⟩

theorem yields_setReturnType (sound : s.Sound Good) {type : Ty}
    (proper : type.Proper Good s.Failed) :
    Yields Good s (modifySymbols (·.setReturnType type)) Anything :=
  ⟨sound.setReturnType proper, id, trivial⟩

theorem yields_inScope (sound : s.Sound Good) {kind : ScopeKind} {work : Check PUnit}
    (h : ∀ t, t.Sound Good → (s.Failed → t.Failed) → Yields Good t work Anything) :
    Yields Good s (inScope kind work) Anything := by
  have inside := h _ (sound.enter kind) id
  exact ⟨inside.sound.exit, inside.more, trivial⟩

theorem yields_bindName (sound : s.Sound Good) {file : FileId} {name : Name} {type : Ty}
    {keyword? : Option VariableKeyword} (proper : type.Proper Good s.Failed) :
    Yields Good s (Check.bind file name type keyword?) Anything := by
  refine .get ?_
  split
  · exact (yields_report sound).anyway
  · exact yields_define sound proper

/-- Work on each of several things goes well if it does from every later state. -/
theorem yields_forM (sound : s.Sound Good) {list : List α} {f : α → Check PUnit}
    (h : ∀ a ∈ list, ∀ t, t.Sound Good → (s.Failed → t.Failed) → Yields Good t (f a) Anything) :
    Yields Good s (list.forM f) Anything := by
  induction list generalizing s with
  | nil => exact .pure sound trivial
  | cons a rest ih =>
    obtain ⟨first, others⟩ := List.forall_mem_cons.1 h
    refine (first s sound id).bind fun _ t sound more _ => ih sound fun b mem u sound later => ?_
    exact others b mem u sound fun failed => later (more failed)

theorem yields_optionForM (sound : s.Sound Good) {a? : Option α} {f : α → Check PUnit}
    (h : ∀ a ∈ a?, Yields Good s (f a) Anything) : Yields Good s (a?.forM f) Anything := by
  cases a? with
  | none => exact .pure sound trivial
  | some a => exact h a rfl

theorem yields_optionMapM (sound : s.Sound Good) {a? : Option α} {f : α → Check Ty}
    (h : ∀ a ∈ a?, Yields Good s (f a) (IsType Good)) :
    Yields Good s (a?.mapM f) fun type? t => ∀ type ∈ type?, type.Proper Good t.Failed := by
  cases a? with
  | none => exact .pure sound nofun
  | some a =>
    have one := h a rfl
    refine ⟨one.sound, one.more, ?_⟩
    rintro _ ⟨⟩
    exact one.result

/-- A name that stands for a type alias. -/
def IsAlias (s : CheckState) (name : String) : Prop :=
  ∃ written target?, s.symbols.kind? name = some (.«alias» written target?)

/-- What a type alias stands for is proper, from every sound state. -/
def Expands (Good : String → Prop) (expand : String → Span → Check Ty) : Prop :=
  ∀ name span s, s.Sound Good → Good name → IsAlias s name →
    Yields Good s (expand name span) (IsType Good)

mutual

theorem yields_typeOf {expand : String → Span → Check Ty} (expands : Expands Good expand)
    {file : FileId} {s : CheckState} (sound : s.Sound Good) (type : TypeExpr)
    (good : type.AllTexts Good) : Yields Good s (typeOf file expand type) (IsType Good) := by
  match type with
  | .named span name args =>
    rw [typeOf]
    refine (yields_typesOf expands sound args good.2).bind fun types t sound _ proper => ?_
    split
    · split
      · refine .pure sound ?_
        split
        · exact proper.1
        · exact ⟨good.1, proper.1, trivial⟩
      · exact yields_fault sound
    · refine .kind? ?_
      split
      next type found =>
        have proper : type.Proper Good t.Failed := sound.kind found
        split
        · refine (yields_report sound).bind fun _ u sound _ failed => .pure sound ?_
          exact proper.mono fun _ => failed
        · exact .pure sound proper
      · exact .pure sound ⟨good.1, proper⟩
      next found => exact expands name span t sound good.1 ⟨_, _, found⟩
      · exact yields_fault sound
      · exact yields_fault sound
  | .array span element =>
    rw [typeOf]
    exact (yields_typeOf expands sound element good).bind fun _ _ sound _ proper =>
      .pure sound proper
  | .object span members =>
    rw [typeOf]
    exact (yields_fieldsOf expands sound members good).bind fun _ _ sound _ proper =>
      .pure sound proper
  | .string .. | .number .. =>
    rw [typeOf]
    exact .pure sound good
  | .boolean .. | .null .. =>
    rw [typeOf]
    exact .pure sound trivial

theorem yields_typesOf {expand : String → Span → Check Ty} (expands : Expands Good expand)
    {file : FileId} {s : CheckState} (sound : s.Sound Good) (types : List TypeExpr)
    (good : TypeExpr.AllTextsOf Good types) :
    Yields Good s (typesOf file expand types) (AreTypes Good) := by
  match types with
  | [] =>
    rw [typesOf]
    exact .pure sound trivial
  | type :: rest =>
    rw [typesOf]
    refine (yields_typeOf expands sound type good.1).bind fun _ _ sound _ first => ?_
    exact (yields_typesOf expands sound rest good.2).bind fun _ _ sound more others =>
      .pure sound ⟨first.mono more, others⟩

theorem yields_fieldsOf {expand : String → Span → Check Ty} (expands : Expands Good expand)
    {file : FileId} {s : CheckState} (sound : s.Sound Good) (members : List Member)
    (good : Member.AllTextsOf Good members) :
    Yields Good s (fieldsOf file expand members) (AreFields Good) := by
  match members with
  | [] =>
    rw [fieldsOf]
    exact .pure sound trivial
  | .mk _ name _ type :: rest =>
    rw [fieldsOf]
    refine (yields_typeOf expands sound type good.2.1).bind fun _ _ sound _ first => ?_
    exact (yields_fieldsOf expands sound rest good.2.2).bind fun _ _ sound more others =>
      .pure sound ⟨good.1, first.mono more, others⟩

end

/-- What an alias stands for is unknown only after an error, and what is no alias stands for
nothing. -/
theorem yields_aliasType (free : List String) (file : FileId) {name : String} {span : Span}
    {s : CheckState} (sound : s.Sound Good) (good : Good name) :
    Yields Good s (aliasType free file name span) fun type t =>
      IsAlias s name → type.Proper Good t.Failed := by
  rw [aliasType]
  refine .get ?_
  dsimp only
  split
  next nothing =>
    refine .pure sound ?_
    rintro ⟨_, _, is⟩
    rw [SymbolTable.kind?, nothing] at is
    cases is
  next id found =>
    split
    next target _ _ _ has =>
      have proper := (sound.kinds _ (SymbolTable.mem_of_symbol? has)).2 target rfl
      exact .pure sound fun _ => ⟨good, proper⟩
    next written _ file? _ has =>
      have texts := (sound.kinds _ (SymbolTable.mem_of_symbol? has)).1
      split
      next here =>
        have shorter := length_without_lt here
        have expands : Expands Good (aliasType (without name free) (file?.getD file)) :=
          fun _ _ _ sound good isAlias =>
            (yields_aliasType _ _ sound good).mono fun _ _ _ _ proper => proper isAlias
        refine (yields_typeOf expands sound written texts).recording.bind fun target t sound _ known => ?_
        have kind : (SymbolKind.«alias» written (some target)).Proper Good t.Failed :=
          ⟨texts, by rintro _ ⟨⟩; exact known⟩
        refine (yields_setKind sound kind).bind fun _ u sound more _ => .pure sound fun _ => ?_
        exact ⟨good, known.mono more⟩
      · exact (yields_fault sound).mono fun _ _ _ _ proper _ => proper
    next other unfinished =>
      refine .pure sound ?_
      rintro ⟨written, target?, is⟩
      rw [SymbolTable.kind?, found] at is
      obtain ⟨⟨_, _, _, _, _⟩, has, rfl⟩ := Option.map_eq_some_iff.1 is
      cases target? with
      | some target => exact (other _ _ _ _ _ _ has).elim
      | none => exact (unfinished _ _ _ _ _ has).elim
termination_by free.length

theorem expands_aliasType (free : List String) (file : FileId) :
    Expands Good (aliasType free file) := fun _ _ _ sound good isAlias =>
  (yields_aliasType free file sound good).mono fun _ _ _ _ proper => proper isAlias

theorem yields_resolveType (sound : s.Sound Good) {file : FileId} {type : TypeExpr}
    (good : type.AllTexts Good) : Yields Good s (resolveType file type) (IsType Good) :=
  .definedNames fun free => (yields_typeOf (expands_aliasType free file) sound type good).recording

theorem yields_resolveOptional (sound : s.Sound Good) {file : FileId} {type? : Option TypeExpr}
    (good : ∀ type ∈ type?, type.AllTexts Good) :
    Yields Good s (resolveOptional file type?) (IsType Good) := by
  cases type? with
  | none => exact .pure sound trivial
  | some type => exact yields_resolveType sound (good type rfl)

end ScriptToGo.Check
