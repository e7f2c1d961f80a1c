import ScriptToGo.Proofs.Check.Meaning
import ScriptToGo.Proofs.Check.SymbolNames

/-! Finding what types stand for follows type aliases, and finds each circle of them. -/
namespace ScriptToGo

def TypeFault.IsCircular (fault : TypeFault) : Prop := ∃ name, fault = .circularAlias name

namespace CheckState

/-- A circle of type aliases has been reported. -/
def Circular (s : CheckState) : Prop := ∃ e ∈ s.errors, e.fault.IsCircular

/-- It is known what an alias stands for. -/
def Knows (s : CheckState) (name : String) : Prop :=
  ∃ written target, s.symbols.kind? name = some (.«alias» written (some target))

/-- Nothing that was found before is lost. -/
structure Onward (s t : CheckState) : Prop where
  failed : s.Failed → t.Failed
  circular : s.Circular → t.Circular
  knows : ∀ name, s.Knows name → t.Knows name
  lookup : ∀ name id, s.symbols.lookup name = some id → t.symbols.lookup name = some id

theorem Onward.refl (s : CheckState) : s.Onward s := ⟨id, id, fun _ => id, fun _ _ => id⟩

theorem Onward.trans {s t u : CheckState} (first : s.Onward t) (next : t.Onward u) : s.Onward u :=
  ⟨fun failed => next.failed (first.failed failed),
    fun circular => next.circular (first.circular circular),
    fun name knows => next.knows name (first.knows name knows),
    fun name id named => next.lookup name id (first.lookup name id named)⟩

theorem circular_report {s : CheckState} {e : TypeError} :
    (s.report e).Circular ↔ s.Circular ∨ e.fault.IsCircular := by
  simp [Circular, report, or_and_right, exists_or]

theorem onward_report (s : CheckState) (e : TypeError) : s.Onward (s.report e) :=
  ⟨fun _ => s.failed_report e, fun circular => circular_report.2 (.inl circular), fun _ => id,
    fun _ _ => id⟩

end CheckState

namespace ModuleGraph

/-- Following what an alias depends on comes to an end. -/
def Grounded (g : ModuleGraph) (name : String) : Prop :=
  Acc (fun later first => g.DependsOn first later) name

theorem Grounded.no_circle {g : ModuleGraph} {name : String} (h : g.Grounded name) :
    ¬Relation.TransGen g.DependsOn name name := by
  induction h with
  | intro name _ ih =>
    intro circle
    obtain ⟨next, first, back⟩ := Relation.TransGen.head'_iff.1 circle
    exact ih next first (Relation.TransGen.tail' back first)

/-- The global names are known as they should be when some functions have been found, and what is
known of aliases agrees with what they depend on. -/
structure Gathering (g : ModuleGraph) (found : List (FileId × Statement)) (s : CheckState) :
    Prop where
  inner : s.symbols.inner = []
  named : s.symbols.NamesRight
  fits : ∀ name, g.Fits s.Failed (g.meaningAfter found name) (s.symbols.kind? name)
  circle : s.Circular → g.HasCircle
  grounded : ¬s.Circular → ∀ name, s.Knows name → g.Grounded name

variable {g : ModuleGraph} {found : List (FileId × Statement)} {s : CheckState}

namespace Gathering

/-- Different names stand for different symbols. -/
theorem eq_of_lookup (h : g.Gathering found s) {name other : String} {id : SymbolId}
    (first : s.symbols.lookup name = some id) (second : s.symbols.lookup other = some id) :
    name = other := by
  obtain ⟨symbol, has, rfl⟩ := h.named name id first
  obtain ⟨_, has', rfl⟩ := h.named other id second
  rw [Option.some.inj (has.symm.trans has')]

theorem exists_kind? (h : g.Gathering found s) {name : String} {written : TypeExpr}
    (isAlias : g.IsAlias name written) :
    ∃ target?, s.symbols.kind? name = some (.«alias» written target?) := by
  have fits := h.fits name
  rw [isAlias_iff.1 isAlias] at fits
  cases is : s.symbols.kind? name with
  | none =>
    rw [is] at fits
    cases fits
  | some kind =>
    rw [is] at fits
    cases fits
    exact ⟨_, rfl⟩

theorem isAlias (h : g.Gathering found s) {name : String} {written : TypeExpr} {target? : Option Ty}
    (is : s.symbols.kind? name = some (.«alias» written target?)) : g.IsAlias name written := by
  have fits := h.fits name
  rw [is] at fits
  generalize meaning : g.meaningAfter found name = meaning? at fits
  cases fits
  exact isAlias_iff.2 meaning

theorem meaning_of_builtin (h : g.Gathering found s) {name : String} {type : Ty}
    (is : s.symbols.kind? name = some (.builtin type)) :
    g.meaningAfter found name = some (.type type) := by
  have fits := h.fits name
  rw [is] at fits
  generalize g.meaningAfter found name = meaning? at fits ⊢
  cases fits
  rfl

theorem meaning_of_interface (h : g.Gathering found s) {name : String} {members : List Field}
    (is : s.symbols.kind? name = some (.interface members)) :
    g.meaningAfter found name = some .interface := by
  have fits := h.fits name
  rw [is] at fits
  generalize g.meaningAfter found name = meaning? at fits ⊢
  cases fits
  rfl

theorem report (h : g.Gathering found s) {e : TypeError} (circle : e.fault.IsCircular → g.HasCircle) :
    g.Gathering found (s.report e) where
  inner := h.inner
  named := h.named
  fits name := (h.fits name).mono fun _ => s.failed_report e
  circle circular := (CheckState.circular_report.1 circular).elim h.circle circle
  grounded none := h.grounded fun circular => none (CheckState.circular_report.2 (.inl circular))

theorem record (h : g.Gathering found s) (file : FileId) (span : Span) (type : Ty) :
    g.Gathering found (s.record file span type) := { h with }

/-- It is found what the type that an alias stands for. -/
theorem expand (h : g.Gathering found s) {name : String} {written : TypeExpr}
    (isAlias : g.IsAlias name written) {id : SymbolId} (named : s.symbols.lookup name = some id)
    {target : Ty} (stands : ¬s.Failed → g.Stands written target)
    (grounded : ¬s.Circular → g.Grounded name) :
    g.Gathering found
      { s with symbols := s.symbols.setKind id (.«alias» written (some target)) } where
  inner := (SymbolTable.inner_setKind ..).trans h.inner
  named := h.named.setKind id _
  fits other := by
    dsimp only
    rw [SymbolTable.kind?_setKind]
    split
    next named' =>
      obtain rfl := h.eq_of_lookup named named'
      obtain ⟨target?, is⟩ := h.exists_kind? isAlias
      rw [is, isAlias_iff.1 isAlias]
      exact .«alias» fun _ is fine => Option.mem_some_iff.1 is ▸ stands fine
    · exact h.fits other
  circle := h.circle
  grounded none other knows := by
    obtain ⟨written', target', is⟩ := knows
    dsimp only at is
    rw [SymbolTable.kind?_setKind] at is
    split at is
    next named' => exact h.eq_of_lookup named named' ▸ grounded none
    · exact h.grounded none other ⟨_, _, is⟩

/-- Nothing is lost when it is found what an alias stands for. -/
theorem onward_expand {id : SymbolId} {written : TypeExpr} {target : Ty} :
    s.Onward { s with symbols := s.symbols.setKind id (.«alias» written (some target)) } where
  failed := fun failed => failed
  circular := fun circular => circular
  knows name knows := by
    obtain ⟨written', target', is⟩ := knows
    rw [CheckState.Knows]
    dsimp only
    rw [SymbolTable.kind?_setKind, is]
    split
    · exact ⟨_, _, rfl⟩
    · exact ⟨_, _, rfl⟩
  lookup := fun _ _ named => (SymbolTable.lookup_setKind ..).trans named

end Gathering

end ModuleGraph

open ModuleGraph

namespace Check

/-- Work leads on from a state in which names are known as they should be to such a state, and its
result is as described. -/
structure Explores {α : Type} (g : ModuleGraph) (found : List (FileId × Statement)) (s : CheckState)
    (work : Check α) (post : α → CheckState → Prop) : Prop where
  gathering : g.Gathering found (work.run s).2
  onward : s.Onward (work.run s).2
  result : post (work.run s).1 (work.run s).2

variable {g : ModuleGraph} {found : List (FileId × Statement)} {s : CheckState} {α β : Type}
  {post mid : α → CheckState → Prop} {last : β → CheckState → Prop}

namespace Explores

theorem pure (h : g.Gathering found s) {a : α} (good : post a s) :
    Explores g found s (Pure.pure a) post := ⟨h, .refl s, good⟩

theorem bind {x : Check α} {f : α → Check β} (first : Explores g found s x mid)
    (next : ∀ a t, g.Gathering found t → s.Onward t → mid a t → Explores g found t (f a) last) :
    Explores g found s (x >>= f) last := by
  have second := next _ _ first.gathering first.onward first.result
  exact ⟨second.gathering, first.onward.trans second.onward, second.result⟩

theorem mono {x : Check α} (h : Explores g found s x mid)
    (implies : ∀ a t, g.Gathering found t → s.Onward t → mid a t → post a t) :
    Explores g found s x post :=
  ⟨h.gathering, h.onward, implies _ _ h.gathering h.onward h.result⟩

/-- Looking at the state changes nothing. -/
theorem get {f : CheckState → Check β} (h : Explores g found s (f s) last) :
    Explores g found s (MonadState.get >>= f) last := ⟨h.gathering, h.onward, h.result⟩

theorem kind? {name : String} {f : Option SymbolKind → Check β}
    (h : Explores g found s (f (s.symbols.kind? name)) last) :
    Explores g found s (Check.kind? name >>= f) last := ⟨h.gathering, h.onward, h.result⟩

theorem report (h : g.Gathering found s) {file : FileId} {fault : TypeFault} {span : Span}
    (plain : ∀ name, fault ≠ .circularAlias name) :
    Explores g found s (Check.report file fault span) fun _ t => t.Failed :=
  ⟨h.report fun ⟨name, is⟩ => (plain name is).elim, CheckState.onward_report _ _, s.failed_report _⟩

theorem fault (h : g.Gathering found s) {file : FileId} {fault : TypeFault} {span : Span}
    (plain : ∀ name, fault ≠ .circularAlias name) :
    Explores g found s (Check.fault file fault span) fun _ t => t.Failed :=
  (report h plain).bind fun _ _ h _ failed => .pure h failed

/-- A circle that is there may be reported. -/
theorem circular (h : g.Gathering found s) {file : FileId} {name : String} {span : Span}
    (circle : g.HasCircle) :
    Explores g found s (Check.fault file (.circularAlias name) span) fun _ t =>
      t.Failed ∧ t.Circular :=
  ⟨h.report fun _ => circle, CheckState.onward_report _ _, s.failed_report _,
    CheckState.circular_report.2 (.inr ⟨name, rfl⟩)⟩

theorem recording {find : Check Ty} {post : Ty → CheckState → Prop}
    (h : Explores g found s find post) (ignores : ∀ type t file span, post type t →
      post type (t.record file span type)) (file : FileId) (span : Span) :
    Explores g found s (Check.recording file span find) post :=
  h.bind fun type t h _ good =>
    ⟨h.record file span type, ⟨id, id, fun _ => id, fun _ _ => id⟩, ignores type t file span good⟩

end Explores

/-- All aliases with these names are known, unless a circle of aliases has been reported. -/
def KnowsAll (g : ModuleGraph) (names : List String) (t : CheckState) : Prop :=
  ¬t.Circular → ∀ name ∈ names, ∀ written, g.IsAlias name written → t.Knows name

/-- All aliases in a written type are known, unless a circle has been reported, and the type that has
been found is the right one, unless anything has been reported. -/
def Answers (g : ModuleGraph) (written : TypeExpr) (type : Ty) (t : CheckState) : Prop :=
  KnowsAll g written.mentions t ∧ (¬t.Failed → g.Stands written type)

def AllAnswer (g : ModuleGraph) (written : List TypeExpr) (types : List Ty) (t : CheckState) : Prop :=
  KnowsAll g (TypeExpr.mentionsOf written) t ∧ (¬t.Failed → g.AllStand written types)

def MembersAnswer (g : ModuleGraph) (members : List Member) (fields : List Field) (t : CheckState) :
    Prop :=
  KnowsAll g (TypeExpr.memberMentions members) t ∧ (¬t.Failed → g.MembersStand members fields)

/-- An alias is known, unless a circle has been reported, and stands for what is written for it, unless
anything has been reported. -/
def AliasAnswers (g : ModuleGraph) (name : String) (type : Ty) (t : CheckState) : Prop :=
  (¬t.Circular → t.Knows name) ∧
    (¬t.Failed → ∃ written target, g.IsAlias name written ∧ type = .«alias» name target ∧
      g.Stands written target)

/-- Aliases with these names may be looked into. -/
def MayEnter (g : ModuleGraph) (found : List (FileId × Statement)) (names : List String)
    (expand : String → Span → Check Ty) : Prop :=
  ∀ name ∈ names, ∀ written, g.IsAlias name written → ∀ span s, g.Gathering found s →
    Explores g found s (expand name span) (AliasAnswers g name)

theorem KnowsAll.mono {names : List String} {t u : CheckState} (h : KnowsAll g names t)
    (onward : t.Onward u) : KnowsAll g names u :=
  fun none name mem written isAlias =>
    onward.knows name (h (mt onward.circular none) name mem written isAlias)

theorem KnowsAll.append {names more : List String} {t : CheckState} (h : KnowsAll g names t)
    (others : KnowsAll g more t) : KnowsAll g (names ++ more) t := fun none name mem =>
  (List.mem_append.1 mem).elim (h none name) (others none name)

theorem KnowsAll.cons {name : String} {names : List String} {t : CheckState} (h : KnowsAll g names t)
    (here : ¬t.Circular → ∀ written, g.IsAlias name written → t.Knows name) :
    KnowsAll g (name :: names) t := fun none other mem => by
  rcases List.mem_cons.1 mem with rfl | mem
  · exact here none
  · exact h none other mem

theorem MayEnter.subset {names more : List String} {expand : String → Span → Check Ty}
    (h : MayEnter g found more expand) (subset : names ⊆ more) : MayEnter g found names expand :=
  fun name mem => h name (subset mem)

section

variable {expand : String → Span → Check Ty}

/-- What the arguments of a wrapper stand for, that wrapper stands for. -/
theorem stands_wrapper {span : Span} {name : String} {args : List TypeExpr} {type : Ty}
    (wrapper : TypeExpr.isWrapper name = true) (stand : g.AllStand args [type]) :
    g.Stands (.named span name args)
      (if name == Builtin.arrayName then .array type else .reference name [type]) := by
  cases stand with
  | cons first rest =>
    cases rest with
    | nil =>
      split
      next is => exact .arrayOf (eq_of_beq is) first
      next other =>
        refine .pointer (fun is => other (beq_iff_eq.2 is)) ?_ first
        rw [TypeExpr.isWrapper, Bool.or_eq_true] at wrapper
        exact wrapper.resolve_left other

mutual

theorem explores_typeOf {file : FileId} {s : CheckState} (h : g.Gathering found s) (t : TypeExpr)
    (expands : MayEnter g found t.mentions expand) :
    Explores g found s (typeOf file expand t) (Answers g t) := by
  match t with
  | .named span name args =>
    rw [typeOf]
    refine (explores_typesOf h args (expands.subset TypeExpr.mentionsOf_subset)).bind ?_
    intro types t h _ answers
    split
    next wrapper =>
      have mentions : (TypeExpr.named span name args).mentions = TypeExpr.mentionsOf args := by
        rw [TypeExpr.mentions]
        exact if_pos wrapper
      split
      · exact .pure h ⟨mentions ▸ answers.1, fun fine => stands_wrapper wrapper (answers.2 fine)⟩
      · refine (Explores.fault h (by simp)).mono fun _ _ _ onward failed => ?_
        exact ⟨mentions ▸ answers.1.mono onward, fun fine => (fine failed).elim⟩
    next noWrapper =>
      have noWrapper : TypeExpr.isWrapper name = false := Bool.not_eq_true _ ▸ noWrapper
      have mentions : (TypeExpr.named span name args).mentions
          = name :: TypeExpr.mentionsOf args := by
        rw [TypeExpr.mentions, if_neg (Bool.not_eq_true _ ▸ noWrapper)]
      have here : name ∈ (TypeExpr.named span name args).mentions := by
        rw [mentions]
        exact List.mem_cons_self
      -- Unless it is an alias, only the names in the arguments have to be known.
      have others (none : ∀ written, ¬g.IsAlias name written) {u : CheckState} (onward : t.Onward u) :
          KnowsAll g (TypeExpr.named span name args).mentions u := by
        rw [mentions]
        exact (answers.1.mono onward).cons fun _ written isAlias => (none written isAlias).elim
      refine .kind? ?_
      split
      next type is =>
        have none (written : TypeExpr) (isAlias : g.IsAlias name written) : False := by
          obtain ⟨target?, other⟩ := h.exists_kind? isAlias
          cases is.symm.trans other
        have means : g.meaning? name = some (.type type) :=
          (meaning?_eq_iff (by simp)).2 (h.meaning_of_builtin is)
        cases args with
        | nil => exact .pure h ⟨others none (.refl t), fun _ => .builtin noWrapper means⟩
        | cons arg rest =>
          refine (Explores.report h (by simp)).bind fun _ u h onward failed => .pure h ?_
          exact ⟨others none onward, fun fine => (fine failed).elim⟩
      next members is =>
        have none (written : TypeExpr) (isAlias : g.IsAlias name written) : False := by
          obtain ⟨target?, other⟩ := h.exists_kind? isAlias
          cases is.symm.trans other
        have means : g.meaning? name = some .interface :=
          (meaning?_eq_iff (by simp)).2 (h.meaning_of_interface is)
        exact .pure h ⟨others none (.refl t), fun fine => .interface noWrapper means (answers.2 fine)⟩
      next written target? is =>
        have isAlias := h.isAlias is
        refine (expands name here written isAlias span t h).mono fun type u _ onward known => ⟨?_, ?_⟩
        · rw [mentions]
          exact (answers.1.mono onward).cons fun none _ _ => known.1 none
        · intro fine
          obtain ⟨written, target, isAlias, rfl, stands⟩ := known.2 fine
          exact .«alias» noWrapper isAlias stands
      next kind _ _ noAlias is =>
        have none (written : TypeExpr) (isAlias : g.IsAlias name written) : False := by
          obtain ⟨target?, other⟩ := h.exists_kind? isAlias
          exact noAlias written target? (Option.some.inj (is.symm.trans other))
        refine (Explores.fault h (by simp)).mono fun _ _ _ onward failed => ?_
        exact ⟨others none onward, fun fine => (fine failed).elim⟩
      next is =>
        have none (written : TypeExpr) (isAlias : g.IsAlias name written) : False := by
          obtain ⟨target?, other⟩ := h.exists_kind? isAlias
          cases is.symm.trans other
        refine (Explores.fault h (by simp)).mono fun _ _ _ onward failed => ?_
        exact ⟨others none onward, fun fine => (fine failed).elim⟩
  | .array span element =>
    rw [typeOf]
    refine (explores_typeOf h element expands).bind fun type t h _ answers => .pure h ?_
    exact ⟨answers.1, fun fine => .array (answers.2 fine)⟩
  | .object span members =>
    rw [typeOf]
    refine (explores_fieldsOf h members expands).bind fun fields t h _ answers => .pure h ?_
    exact ⟨answers.1, fun fine => .object (answers.2 fine)⟩
  | .string .. | .number .. | .boolean .. | .null .. =>
    rw [typeOf]
    refine .pure h ⟨fun _ => List.forall_mem_nil _, fun _ => ?_⟩
    constructor

theorem explores_typesOf {file : FileId} {s : CheckState} (h : g.Gathering found s)
    (types : List TypeExpr) (expands : MayEnter g found (TypeExpr.mentionsOf types) expand) :
    Explores g found s (typesOf file expand types) (AllAnswer g types) := by
  match types with
  | [] =>
    rw [typesOf]
    exact .pure h ⟨fun _ => List.forall_mem_nil _, fun _ => .nil⟩
  | t :: rest =>
    rw [typesOf]
    rw [TypeExpr.mentionsOf] at expands
    refine (explores_typeOf h t (expands.subset (List.subset_append_left _ _))).bind ?_
    intro type u h _ first
    refine (explores_typesOf h rest (expands.subset (List.subset_append_right _ _))).bind ?_
    intro types v h onward others
    refine .pure h ⟨?_, fun fine => .cons (first.2 (mt onward.failed fine)) (others.2 fine)⟩
    exact (first.1.mono onward).append others.1

theorem explores_fieldsOf {file : FileId} {s : CheckState} (h : g.Gathering found s)
    (members : List Member) (expands : MayEnter g found (TypeExpr.memberMentions members) expand) :
    Explores g found s (fieldsOf file expand members) (MembersAnswer g members) := by
  match members with
  | [] =>
    rw [fieldsOf]
    exact .pure h ⟨fun _ => List.forall_mem_nil _, fun _ => .nil⟩
  | .mk _ name _ t :: rest =>
    rw [fieldsOf]
    rw [TypeExpr.memberMentions] at expands
    refine (explores_typeOf h t (expands.subset (List.subset_append_left _ _))).bind ?_
    intro type u h _ first
    refine (explores_fieldsOf h rest (expands.subset (List.subset_append_right _ _))).bind ?_
    intro fields v h onward others
    refine .pure h ⟨?_, fun fine => .cons (first.2 (mt onward.failed fine)) (others.2 fine)⟩
    exact (first.1.mono onward).append others.1

end

end

/-- Every alias that may not be looked into leads to the one that is asked for. -/
def LeadsHere (g : ModuleGraph) (free : List String) (name : String) : Prop :=
  ∀ other written, g.IsAlias other written → other ∉ free →
    Relation.TransGen g.DependsOn other name

/-- What the alias leads to, the aliases that are not free lead to as well. -/
theorem LeadsHere.step {free : List String} {name next : String} (h : LeadsHere g free name)
    (depends : g.DependsOn name next) : LeadsHere g (without name free) next := by
  intro other written isAlias busy
  by_cases same : other = name
  · exact same ▸ .single depends
  · refine .tail (h other written isAlias fun isFree => busy ?_) depends
    exact List.mem_filter.2 ⟨isFree, by simpa using same⟩

/-- Looking into an alias finds what it stands for, or reports a circle that is there. -/
theorem explores_aliasType (free : List String) (file : FileId) {name : String} {written : TypeExpr}
    (isAlias : g.IsAlias name written) (leads : LeadsHere g free name) (span : Span) {s : CheckState}
    (h : g.Gathering found s) :
    Explores g found s (aliasType free file name span) (AliasAnswers g name) := by
  obtain ⟨target?, kind⟩ := h.exists_kind? isAlias
  obtain ⟨id, ⟨_, _, symbolSpan, file?, scope⟩, named, has, rfl⟩ := SymbolTable.kind?_eq_some_iff.1 kind
  rw [aliasType]
  refine .get ?_
  simp only [named, has]
  cases target? with
  | some target =>
    refine .pure h ⟨fun _ => ⟨written, target, kind⟩, fun fine => ?_⟩
    have fits := h.fits name
    rw [kind, isAlias_iff.1 isAlias] at fits
    cases fits with
    | «alias» stands => exact ⟨written, target, isAlias, rfl, stands target rfl fine⟩
  | none =>
    dsimp only
    split
    next isFree =>
      have shorter := length_without_lt isFree
      have expands : MayEnter g found written.mentions
          (aliasType (without name free) (file?.getD file)) := by
        intro next mention other isNext span t h
        exact explores_aliasType _ _ isNext (leads.step ⟨written, other, isAlias, isNext, mention⟩) span h
      have inside : Explores g found s (typeOf (file?.getD file) _ written) (Answers g written) :=
        explores_typeOf h written expands
      refine (inside.recording (fun _ _ _ _ answers => answers) _ _).bind ?_
      intro target t h onward answers
      have named := onward.lookup name id named
      have grounded (none : ¬t.Circular) : g.Grounded name := by
        refine Acc.intro name fun next depends => ?_
        obtain ⟨own, target, isOwn, isNext, mention⟩ := depends
        obtain rfl := Meaning.«alias».inj (Option.some.inj (isOwn.symm.trans isAlias))
        exact h.grounded none next (answers.1 none next mention target isNext)
      refine ⟨h.expand isAlias named answers.2 grounded, Gathering.onward_expand, fun _ => ?_, ?_⟩
      · obtain ⟨target?, kind⟩ := h.exists_kind? isAlias
        refine ⟨written, target, ?_⟩
        change (t.symbols.setKind id (.«alias» written (some target))).kind? name = _
        rw [SymbolTable.kind?_setKind, if_pos named, kind]
        rfl
      · exact fun fine => ⟨written, target, isAlias, rfl, answers.2 fine⟩
    next busy =>
      refine (Explores.circular h ⟨name, leads name written isAlias busy⟩).mono ?_
      exact fun _ _ _ _ failed => ⟨fun none => (none failed.2).elim, fun fine => (fine failed.1).elim⟩
termination_by free.length

end Check

end ScriptToGo
