import ScriptToGo.Proofs.Check.AliasSearch
import ScriptToGo.Proofs.Check.Collected

/-! What is known of the global names once all declarations are collected. -/
namespace ScriptToGo

namespace Statement

variable {s : Statement} {file : FileId} {head : FunctionHead} {hasBody : Bool}

theorem functionMeaning?_of_unnamed (is : s.function? = some (head, hasBody))
    (unnamed : head.name? = none) (name : String) : s.functionMeaning? file name = none := by
  simp [functionMeaning?, is, unnamed]

theorem functionMeaning?_of_named (is : s.function? = some (head, hasBody)) {name : Name}
    (named : head.name? = some name) (other : String) : s.functionMeaning? file other
      = if name.text = other then some (.function file head) else none := by
  simp only [functionMeaning?, is, Option.filter_some, named, Option.any_some, beq_iff_eq]
  split <;> rfl

end Statement

namespace ModuleGraph

open Check

variable {g : ModuleGraph} {found : List (FileId × Statement)} {s : CheckState} {file : FileId}

/-- Work on all statements of all modules is work on all declarations. -/
theorem forM_declarations (g : ModuleGraph) (f : FileId → Statement → Check PUnit) :
    (g.modules.forM fun m => m.program.forM (f m.id)) = g.declarations.forM fun d => f d.1 d.2 := by
  rw [declarations]
  induction g.modules with
  | nil => rfl
  | cons m rest ih =>
    rw [List.flatMap_cons]
    refine Eq.trans ?_ List.forM_append.symm
    rw [List.forM_map]
    exact congrArg (fun others => m.program.forM (f m.id) >>= fun _ => others) ih

/-- What work on one declaration after the other brings about. -/
theorem forM_reaches {I : List (FileId × Statement) → CheckState → Prop}
    {f : FileId → Statement → Check PUnit}
    (step : ∀ done file statement s, I done s →
      I (done ++ [(file, statement)]) ((f file statement).run s).2)
    (list : List (FileId × Statement)) {done : List (FileId × Statement)} {s : CheckState}
    (start : I done s) : I (done ++ list) ((list.forM fun d => f d.1 d.2).run s).2 := by
  induction list generalizing done s with
  | nil =>
    rw [List.append_nil]
    exact start
  | cons d rest ih =>
    rw [List.append_cons]
    exact ih (step done d.1 d.2 s start)

theorem typeMeaningIn_append (found : List (FileId × Statement)) (file : FileId) (s : Statement)
    (name : String) : typeMeaningIn (found ++ [(file, s)]) name
      = (typeMeaningIn found name).or (s.typeMeaning? name) := by
  rw [typeMeaningIn, typeMeaningIn, List.findSome?_append, List.findSome?_singleton, Option.or_assoc]

theorem meaningAfter_append (found : List (FileId × Statement)) (file : FileId) (s : Statement)
    (name : String) : g.meaningAfter (found ++ [(file, s)]) name
      = (g.meaningAfter found name).or (s.functionMeaning? file name) := by
  rw [meaningAfter, meaningAfter, List.findSome?_append, List.findSome?_singleton, Option.or_assoc]

theorem Fits.isSome_eq {failed : Prop} {meaning? : Option Meaning} {kind? : Option SymbolKind}
    (h : g.Fits failed meaning? kind?) : meaning?.isSome = kind?.isSome := by
  cases h <;> rfl

/-- The global names are known as they should be when the names of the types of some declarations have
been found. -/
structure Naming (g : ModuleGraph) (found : List (FileId × Statement)) (s : CheckState) : Prop where
  inner : s.symbols.inner = []
  named : s.symbols.NamesRight
  fits : ∀ name, g.Fits False (typeMeaningIn found name) (s.symbols.kind? name)
  plain : ¬s.Circular
  unknown : ∀ name, ¬s.Knows name

theorem naming_initial (g : ModuleGraph) : g.Naming [] .initial where
  inner := SymbolTable.inner_initial
  named := SymbolTable.namesRight_initial
  fits name := by
    rw [typeMeaningIn, List.findSome?_nil, Option.or_none]
    exact fits_initial name
  plain := by
    rintro ⟨_, none, _⟩
    cases none
  unknown name := by
    rintro ⟨written, target, is⟩
    have fits := fits_initial (g := g) name
    change SymbolTable.initial.kind? name = _ at is
    rw [is, builtinMeaning?, is] at fits
    cases fits

/-- A statement that adds nothing to what is known changes nothing. -/
theorem Naming.same (h : g.Naming found s) {statement : Statement}
    (adds : ∀ name, typeMeaningIn found name = none → statement.typeMeaning? name = none) :
    g.Naming (found ++ [(file, statement)]) s :=
  { h with
    fits name := by
      have same : typeMeaningIn (found ++ [(file, statement)]) name = typeMeaningIn found name := by
        rw [typeMeaningIn_append]
        cases is : typeMeaningIn found name with
        | none => exact adds name is
        | some meaning => rfl
      rw [same]
      exact h.fits name }

theorem Naming.report (h : g.Naming found s) {e : TypeError} (plain : ¬e.fault.IsCircular) :
    g.Naming found (s.report e) :=
  { h with plain := fun circular => (CheckState.circular_report.1 circular).elim h.plain plain }

/-- When the name of a type is defined, it means that type unless it has a meaning already. -/
theorem Naming.defineGlobal (h : g.Naming found s) {name : Name} {kind : SymbolKind}
    {statement : Statement} {meaning : Meaning}
    (means : ∀ other, statement.typeMeaning? other = if name.text = other then some meaning else none)
    (fits : g.Fits False (some meaning) (some kind))
    (new : ∀ written target, kind ≠ .«alias» written (some target)) :
    g.Naming (found ++ [(file, statement)]) ((defineGlobal file name kind).run s).2 := by
  have only (other : String) (differ : name.text ≠ other) : statement.typeMeaning? other = none := by
    rw [means, if_neg differ]
  rw [Check.defineGlobal]
  simp only [StateT.run_bind, StateT.run_get, pure_bind]
  rw [SymbolTable.lookupLocal_eq_lookup h.inner]
  split
  next free =>
    have noMeaning : typeMeaningIn found name.text = none := by
      have same := (h.fits name.text).isSome_eq
      rw [SymbolTable.kind?, free, Option.bind_none] at same
      exact Option.not_isSome_iff_eq_none.1 (ne_true_of_eq_false same)
    change g.Naming _ { s with symbols := s.symbols.define name.text kind name.span (some file) }
    refine ⟨SymbolTable.inner_define_of_nil h.inner _ _ _ _, h.named.define _ _ _ _, fun other => ?_,
      h.plain, fun other => ?_⟩
    · dsimp only
      rw [SymbolTable.kind?_define, typeMeaningIn_append]
      split
      next same =>
        rw [same, noMeaning, Option.none_or, means, if_pos rfl]
        exact fits
      next differ =>
        rw [only other (Ne.symm differ), Option.or_none]
        exact h.fits other
    · rintro ⟨written, target, is⟩
      dsimp only at is
      rw [SymbolTable.kind?_define] at is
      split at is
      · exact new written target (Option.some.inj is)
      · exact h.unknown other ⟨written, target, is⟩
  next id named =>
    have has : ∃ known, typeMeaningIn found name.text = some known := by
      obtain ⟨symbol, has⟩ := SymbolTable.exists_symbol named
      have same := (h.fits name.text).isSome_eq
      rw [SymbolTable.kind?_eq_some_iff.2 ⟨id, symbol, named, has, rfl⟩] at same
      exact Option.isSome_iff_exists.1 same
    have stays : g.Naming (found ++ [(file, statement)]) s := by
      refine h.same fun other none => only other ?_
      rintro rfl
      obtain ⟨known, is⟩ := has
      cases none.symm.trans is
    split
    · refine stays.report ?_
      rintro ⟨_, other⟩
      cases other
    · exact stays

theorem Naming.collectTypeName (h : g.Naming found s) (file : FileId) (statement : Statement) :
    g.Naming (found ++ [(file, statement)]) ((collectTypeName file statement).run s).2 := by
  rw [Check.collectTypeName.eq_def]
  split
  next decl =>
    exact h.defineGlobal (fun _ => rfl) .interface (by simp)
  next decl => exact h.defineGlobal (fun _ => rfl) (.«alias» (by simp)) (by simp)
  next noInterface noAlias =>
    refine h.same fun name _ => ?_
    cases statement with
    | interface span decl => exact (noInterface span decl rfl).elim
    | typeAlias span decl => exact (noAlias span decl rfl).elim
    | _ => rfl

/-- Once the names of all types are known, the declarations can be looked at. -/
theorem Naming.gathering (h : g.Naming g.declarations s) : g.Gathering [] s where
  inner := h.inner
  named := h.named
  fits name := by
    rw [meaningAfter, List.findSome?_nil, Option.or_none]
    exact (h.fits name).mono False.elim
  circle circular := (h.plain circular).elim
  grounded _ name knows := (h.unknown name knows).elim

end ModuleGraph

namespace Check

open ModuleGraph

variable {g : ModuleGraph} {found : List (FileId × Statement)} {s : CheckState} {file : FileId}

theorem Explores.definedNames {β : Type} {f : List String → Check β} {last : β → CheckState → Prop}
    (h : Explores g found s (f (s.symbols.symbols.toList.map Symbol.name)) last) :
    Explores g found s (Check.definedNames >>= f) last := ⟨h.gathering, h.onward, h.result⟩

/-- Outside of all aliases, each of them may be looked into. -/
theorem leadsHere_definedNames (h : g.Gathering found s) (name : String) :
    LeadsHere g (s.symbols.symbols.toList.map Symbol.name) name := by
  intro other written isAlias busy
  obtain ⟨target?, is⟩ := h.exists_kind? isAlias
  obtain ⟨id, _, named, -, -⟩ := SymbolTable.kind?_eq_some_iff.1 is
  obtain ⟨symbol, has, rfl⟩ := h.named other id named
  have mem := Array.mem_toList_iff.2 (SymbolTable.mem_of_symbol? has)
  exact (busy (List.mem_map_of_mem mem)).elim

theorem explores_resolveType (h : g.Gathering found s) (t : TypeExpr) :
    Explores g found s (resolveType file t) (Answers g t) := by
  refine .definedNames (.recording (explores_typeOf h t ?_) (fun _ _ _ _ answers => answers) file _)
  exact fun name _ written isAlias span _ later =>
    explores_aliasType _ file isAlias (leadsHere_definedNames h name) span later

theorem explores_resolveOptional (h : g.Gathering found s) (t? : Option TypeExpr) :
    Explores g found s (resolveOptional file t?) fun type t => ¬t.Failed → g.OptionStands t? type := by
  cases t? with
  | none => exact .pure h fun _ => .none
  | some t =>
    exact (explores_resolveType h t).mono fun _ _ _ _ answers fine => .some (answers.2 fine)

theorem explores_resolveAlias (h : g.Gathering found s) (name : String) (span : Span) :
    Explores g found s (resolveAlias file name span) fun _ _ => True := by
  refine .definedNames ?_
  by_cases isAlias : ∃ written, g.IsAlias name written
  · obtain ⟨written, isAlias⟩ := isAlias
    have leads := leadsHere_definedNames h name
    exact (explores_aliasType _ file isAlias leads span h).mono fun _ _ _ _ _ => trivial
  · have noAlias {id : SymbolId} {symbol : Symbol} (named : s.symbols.lookup name = some id)
        (has : s.symbols.symbol? id = some symbol) (written : TypeExpr) (target? : Option Ty) :
        symbol.kind ≠ .«alias» written target? := fun is =>
      isAlias ⟨written, h.isAlias (SymbolTable.kind?_eq_some_iff.2 ⟨id, symbol, named, has, is⟩)⟩
    rw [aliasType]
    refine .get ?_
    dsimp only
    split
    · exact .pure h trivial
    next id named =>
      split
      next has => exact (noAlias named has _ _ rfl).elim
      next has => exact (noAlias named has _ _ rfl).elim
      · exact .pure h trivial

theorem explores_collectMembers (h : g.Gathering found s) (members : List Member) :
    Explores g found s (collectMembers file members) fun _ _ => True := by
  induction members generalizing s with
  | nil => exact .pure h trivial
  | cons m rest ih =>
    refine (explores_resolveType h m.type).bind fun _ _ h _ _ => ?_
    exact (ih h).bind fun _ _ h _ _ => .pure h trivial

theorem explores_collectParams (h : g.Gathering found s) (params : List Param) :
    Explores g found s (collectParams file params) fun fields t => ¬t.Failed →
      List.Forall₂ (fun (p : Param) f => f.name = p.name.text ∧ g.OptionStands p.type? f.type)
        params fields := by
  induction params generalizing s with
  | nil => exact .pure h fun _ => .nil
  | cons p rest ih =>
    refine (Explores.recording (explores_resolveOptional h p.type?) ?_ file _).bind ?_
    · exact fun _ _ _ _ stands => stands
    intro type t h _ first
    refine (ih h).bind fun fields u h onward others => .pure h fun fine => ?_
    exact .cons ⟨rfl, first (mt onward.failed fine)⟩ (others fine)

/-- Work that follows on what has been explored. -/
theorem Explores.reaches {α β : Type} {x : Check α} {f : α → Check β} {mid : α → CheckState → Prop}
    {I : CheckState → Prop} (first : Explores g found s x mid)
    (next : ∀ a t, g.Gathering found t → s.Onward t → mid a t → I ((f a).run t).2) :
    I ((x >>= f).run s).2 := next _ _ first.gathering first.onward first.result

/-- Asking whether a declaration counts changes nothing. -/
theorem reaches_ownGlobal? {β : Type} {f : Option SymbolId → Check β} {I : CheckState → Prop}
    {name : Name} (next : ∀ own, I ((f own).run s).2) : I ((ownGlobal? file name >>= f).run s).2 :=
  next _

end Check

namespace ModuleGraph

open Check

variable {g : ModuleGraph} {found more : List (FileId × Statement)} {s : CheckState}

namespace Gathering

/-- Declarations that give no name a meaning are no news. -/
theorem same (h : g.Gathering found s)
    (adds : ∀ name, g.meaningAfter more name = g.meaningAfter found name) : g.Gathering more s :=
  { h with
    fits name := by
      rw [adds]
      exact h.fits name }

/-- What is not an alias may be known better, and fits as before. -/
theorem setKind (h : g.Gathering found s) {id : SymbolId} {symbol : Symbol} (kind : SymbolKind)
    (has : s.symbols.symbol? id = some symbol) (noAlias : ¬kind.IsAlias)
    (fits : ∀ meaning?, g.Fits s.Failed meaning? (some symbol.kind) →
      g.Fits s.Failed meaning? (some kind)) :
    g.Gathering found { s with symbols := s.symbols.setKind id kind } where
  inner := (SymbolTable.inner_setKind ..).trans h.inner
  named := h.named.setKind id kind
  fits name := by
    dsimp only
    rw [SymbolTable.kind?_setKind]
    split
    next named =>
      have is := SymbolTable.kind?_eq_some_iff.2 ⟨id, symbol, named, has, rfl⟩
      have before := h.fits name
      rw [is] at before ⊢
      exact fits _ before
    · exact h.fits name
  circle := h.circle
  grounded none name knows := by
    obtain ⟨written, target, is⟩ := knows
    dsimp only at is
    rw [SymbolTable.kind?_setKind] at is
    split at is
    · obtain ⟨_, -, rfl⟩ := Option.map_eq_some_iff.1 is
      exact (noAlias ⟨_, _, rfl⟩).elim
    · exact h.grounded none name ⟨_, _, is⟩

/-- A new name means what it is defined as. -/
theorem define (h : g.Gathering found s) {name : String} {kind : SymbolKind} {span : Span}
    {file? : Option FileId} (noAlias : ¬kind.IsAlias)
    (fits : g.Fits s.Failed (g.meaningAfter more name) (some kind))
    (others : ∀ other, other ≠ name → g.meaningAfter more other = g.meaningAfter found other) :
    g.Gathering more { s with symbols := s.symbols.define name kind span file? } where
  inner := SymbolTable.inner_define_of_nil h.inner _ _ _ _
  named := h.named.define _ _ _ _
  fits other := by
    dsimp only
    rw [SymbolTable.kind?_define]
    split
    next same =>
      rw [same]
      exact fits
    next differ =>
      rw [others other differ]
      exact h.fits other
  circle := h.circle
  grounded none other knows := by
    obtain ⟨written, target, is⟩ := knows
    dsimp only at is
    rw [SymbolTable.kind?_define] at is
    split at is
    · obtain rfl := Option.some.inj is
      exact (noAlias ⟨_, _, rfl⟩).elim
    · exact h.grounded none other ⟨_, _, is⟩

/-- A function that is defined is known under its name, unless that means something already. -/
theorem defineFunction (h : g.Gathering found s) {file : FileId} {statement : Statement}
    {head : FunctionHead} {hasBody : Bool} (is : statement.function? = some (head, hasBody))
    {name : Name} (named : head.name? = some name) {params : List Field} {returns : Ty}
    (stand : ¬s.Failed → g.SignatureStands head params returns) :
    g.Gathering (found ++ [(file, statement)])
      ((defineFunction file name params returns hasBody).run s).2 := by
  have means (other : String) : g.meaningAfter (found ++ [(file, statement)]) other
      = (g.meaningAfter found other).or
        (if name.text = other then some (.function file head) else none) := by
    rw [meaningAfter_append, Statement.functionMeaning?_of_named is named]
  rw [Check.defineFunction]
  simp only [StateT.run_bind, StateT.run_get, pure_bind]
  rw [SymbolTable.lookupLocal_eq_lookup h.inner]
  have same := (h.fits name.text).isSome_eq
  split
  next free =>
    have noMeaning : g.meaningAfter found name.text = none := by
      rw [SymbolTable.kind?, free, Option.bind_none] at same
      exact Option.not_isSome_iff_eq_none.1 (ne_true_of_eq_false same)
    refine h.define (by rintro ⟨_, _, other⟩; cases other) ?_ fun other differ => ?_
    · rw [means, noMeaning, Option.none_or, if_pos rfl]
      exact .function stand
    · rw [means, if_neg (Ne.symm differ), Option.or_none]
  next id free =>
    obtain ⟨symbol, has⟩ := SymbolTable.exists_symbol free
    -- The name means something already, and goes on to mean that.
    have stays (other : String) :
        g.meaningAfter (found ++ [(file, statement)]) other = g.meaningAfter found other := by
      rw [means]
      split
      next is =>
        rw [SymbolTable.kind?_eq_some_iff.2 ⟨id, symbol, free, has, rfl⟩, is] at same
        exact Option.or_of_isSome same
      next => exact Option.or_none
    have h := h.same stays
    have noCircle {e : TypeError} (plain : ∀ name, e.fault ≠ .circularAlias name) :
        e.fault.IsCircular → g.HasCircle := fun ⟨name, is⟩ => (plain name is).elim
    split
    next params returns hadBody _ _ _ has' =>
      split
      · have later := h.setKind (.function params returns (hadBody || hasBody)) has'
          (by rintro ⟨_, _, other⟩; cases other) fun meaning? fits => by
            cases fits with
            | function stands => exact .function stands
        rw [StateT.run_bind]
        split
        · exact later.report (noCircle (by simp))
        · exact later
      · exact h
    · exact h.report (noCircle (by simp))

theorem collectFunction (h : g.Gathering found s) {file : FileId} {statement : Statement}
    {head : FunctionHead} {hasBody : Bool} (is : statement.function? = some (head, hasBody)) :
    g.Gathering (found ++ [(file, statement)]) ((collectFunction file head hasBody).run s).2 := by
  rw [collectFunction_eq]
  refine (explores_collectParams h head.params).reaches fun params t h _ first => ?_
  refine (explores_resolveOptional h head.returns?).reaches fun returns u h onward second => ?_
  cases named : head.name? with
  | none =>
    refine h.same fun other => ?_
    rw [meaningAfter_append, Statement.functionMeaning?_of_unnamed is named, Option.or_none]
  | some name =>
    exact h.defineFunction is named fun fine => ⟨first (mt onward.failed fine), second fine⟩

theorem collectDeclaration (h : g.Gathering found s) (file : FileId) (statement : Statement) :
    g.Gathering (found ++ [(file, statement)]) ((collectDeclaration file statement).run s).2 := by
  have same (none : statement.function? = none) {s : CheckState} (h : g.Gathering found s) :
      g.Gathering (found ++ [(file, statement)]) s := h.same fun name => by
    rw [meaningAfter_append, Statement.functionMeaning?, none, Option.filter_none, Option.map_none,
      Option.or_none]
  rw [Check.collectDeclaration.eq_def]
  split
  next decl =>
    refine (explores_collectMembers h decl.members).reaches fun members t h _ _ => ?_
    have h := same rfl h
    refine reaches_ownGlobal? fun own => ?_
    split
    · exact h
    next id =>
      simp only [StateT.run_bind, StateT.run_get, pure_bind]
      split
      next is =>
        obtain ⟨symbol, has, kind⟩ := Option.map_eq_some_iff.1 is
        refine h.setKind (.interface members) has (by rintro ⟨_, _, other⟩; cases other) ?_
        intro meaning? fits
        rw [kind] at fits
        cases fits with
        | interface => exact .interface
      · exact h
  next decl =>
    have h := same rfl h
    refine reaches_ownGlobal? fun own => ?_
    split
    · exact (explores_resolveAlias h decl.name.text decl.name.span).gathering
    · exact h
  · exact h.collectFunction rfl
  · exact h.collectFunction rfl
  next noInterface noAlias noFunction noOverload =>
    refine same ?_ h
    cases statement with
    | function span head text body => exact (noFunction span head text body rfl).elim
    | overload span head => exact (noOverload span head rfl).elim
    | _ => rfl

end Gathering

/-- What holds once the names of all types are known, and goes on to hold with every declaration that
is collected, holds when everything is collected. -/
theorem collect_reaches {I : List (FileId × Statement) → CheckState → Prop}
    (start : ∀ s, g.Gathering [] s → I [] s)
    (step : ∀ done file statement s, I done s →
      I (done ++ [(file, statement)]) ((collectDeclaration file statement).run s).2) :
    I g.declarations ((collect g).run .initial).2 := by
  have naming := forM_reaches (I := g.Naming)
    (fun _ file statement _ h => h.collectTypeName file statement) g.declarations g.naming_initial
  rw [collect, forM_declarations, forM_declarations]
  exact forM_reaches step g.declarations (start _ naming.gathering)

/-- When everything is collected, the global names are known as they should be. -/
theorem gathering_collect (g : ModuleGraph) :
    g.Gathering g.declarations ((collect g).run .initial).2 :=
  collect_reaches (fun _ h => h) fun _ file statement _ h => h.collectDeclaration file statement

/-- When everything is collected, it is known what each alias stands for. -/
theorem knows_collect {name : String} {written : TypeExpr} (isAlias : g.IsAlias name written) :
    ((collect g).run .initial).2.Knows name := by
  obtain ⟨target?, is⟩ := g.gathering_collect.exists_kind? isAlias
  obtain ⟨id, symbol, named, has, kind⟩ := SymbolTable.kind?_eq_some_iff.1 is
  cases target? with
  | none => exact (aliasesFound_collect g id symbol has written kind).elim
  | some target => exact ⟨written, target, is⟩

/-- Collecting reports a circle of aliases exactly if there is one. -/
theorem circular_collect_iff : ((collect g).run .initial).2.Circular ↔ g.HasCircle := by
  have h := g.gathering_collect
  refine ⟨h.circle, fun circle => ?_⟩
  obtain ⟨name, circle⟩ := circle
  by_contra none
  obtain ⟨_, ⟨written, _, isAlias, _⟩, _⟩ := Relation.TransGen.head'_iff.1 circle
  exact (h.grounded none name (knows_collect isAlias)).no_circle circle

end ModuleGraph

end ScriptToGo
