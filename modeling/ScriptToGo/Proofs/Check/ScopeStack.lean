import ScriptToGo.Proofs.Check.SymbolNames

/-! A table of symbols behaves as a stack of maps, and what that finds is told by its past alone, by
what was done last in the scopes that are still open. -/
namespace ScriptToGo

/-- What can be done to a table of symbols. -/
inductive ScopeStep
  | enter (kind : ScopeKind)
  | exit
  | define (name : String) (kind : SymbolKind) (span : Span) (file? : Option FileId)
  | setReturnType (type : Ty)

namespace ScopeStep

/-- How many scopes are open inside the global one after a step. -/
def depthFrom (depth : Nat) : ScopeStep → Nat
  | enter _ => depth + 1
  | exit => depth - 1
  | _ => depth

def isDefinition : ScopeStep → Bool
  | define .. => true
  | _ => false

def isEntry : ScopeStep → Bool
  | enter _ => true
  | _ => false

def Defines (name : String) (step : ScopeStep) : Prop :=
  ∃ kind span file?, step = define name kind span file?

def Enters (step : ScopeStep) : Prop := ∃ kind, step = enter kind

def SetsReturnType (step : ScopeStep) : Prop := ∃ type, step = setReturnType type

end ScopeStep

/-- What has been done to a table, in order. -/
abbrev ScopeHistory := List ScopeStep

namespace ScopeHistory

/-- How many scopes are open inside the global one in the end. -/
def depth (h : ScopeHistory) : Nat := h.foldl ScopeStep.depthFrom 0

/-- How many symbols are defined, which is the number of the next one. -/
def definitions (h : ScopeHistory) : Nat := h.countP ScopeStep.isDefinition

/-- The scope that is the innermost one at some moment stays open. -/
def StaysOpen (before after : ScopeHistory) : Prop :=
  ∀ first, first <+: after → depth before ≤ depth (before ++ first)

/-- The last step of some sort in the scope that is still open at some level, and what came before
that step. The global scope is at level zero. -/
def LastAt (h : ScopeHistory) (level : Nat) (sort : ScopeStep → Prop) (before : ScopeHistory)
    (step : ScopeStep) : Prop :=
  ∃ after, h = before ++ step :: after ∧ sort step ∧ depth before = level ∧
    StaysOpen before (step :: after) ∧
    ∀ first later rest, after = first ++ later :: rest → sort later →
      depth (before ++ step :: first) ≠ level

/-- A name has last been defined, in the scope that is still open at some level, as the symbol with
some number. -/
def Defined (h : ScopeHistory) (level : Nat) (name : String) (id : SymbolId) : Prop :=
  ∃ before step, h.LastAt level (ScopeStep.Defines name) before step ∧ before.definitions = id

/-- The scope that is still open at some level is that of a function. -/
def IsFunction (h : ScopeHistory) (level : Nat) : Prop :=
  level ≤ h.depth ∧ ∃ outer before, level = outer + 1 ∧
    h.LastAt outer ScopeStep.Enters before (.enter .function)

variable {h before : ScopeHistory} {level : Nat} {sort : ScopeStep → Prop} {step next : ScopeStep}

theorem depth_concat (h : ScopeHistory) (step : ScopeStep) :
    depth (h ++ [step]) = step.depthFrom (depth h) := by
  rw [depth, List.foldl_append, depth, List.foldl_cons, List.foldl_nil]

theorem definitions_concat (h : ScopeHistory) (step : ScopeStep) :
    definitions (h ++ [step]) = definitions h + if step.isDefinition then 1 else 0 := by
  rw [definitions, List.countP_append, List.countP_singleton, definitions]

theorem LastAt.le_depth (last : h.LastAt level sort before step) : level ≤ h.depth := by
  obtain ⟨after, rfl, -, rfl, stays, -⟩ := last
  exact stays _ List.prefix_rfl

theorem LastAt.concat (last : (h ++ [next]).LastAt level sort before step) :
    (before = h ∧ step = next ∧ sort next ∧ h.depth = level) ∨
      (h.LastAt level sort before step ∧ ¬(sort next ∧ h.depth = level)) := by
  obtain ⟨after, split, sorted, here, stays, last⟩ := last
  rcases List.eq_nil_or_concat after with rfl | ⟨rest, final, rfl⟩
  · obtain ⟨rfl, same⟩ := List.append_inj' split rfl
    obtain rfl := List.singleton_inj.1 same
    exact .inl ⟨rfl, rfl, sorted, here⟩
  · rw [List.concat_eq_append, ← List.cons_append, ← List.append_assoc] at split
    obtain ⟨rfl, same⟩ := List.append_inj' split rfl
    obtain rfl := List.singleton_inj.1 same
    rw [List.concat_eq_append] at stays last
    refine .inr ⟨⟨rest, rfl, sorted, here, fun first inside => ?_, ?_⟩, ?_⟩
    · exact stays first (inside.trans (List.prefix_append _ _))
    · rintro first later others rfl isSort
      exact last first later (others ++ [next]) (by simp) isSort
    · rintro ⟨isSort, same⟩
      exact last rest next [] rfl isSort same

theorem lastAt_concat_self (sorted : sort next) (open' : h.depth ≤ (h ++ [next]).depth) :
    (h ++ [next]).LastAt h.depth sort h next := by
  refine ⟨[], rfl, sorted, rfl, fun first inside => ?_, fun first later rest split => ?_⟩
  · rw [← List.nil_append [next]] at inside
    rcases List.prefix_concat_iff.1 inside with rfl | inside
    · exact open'
    · obtain rfl := List.prefix_nil.1 inside
      exact Nat.le_of_eq (congrArg depth (List.append_nil h).symm)
  · simp at split

theorem LastAt.stays (last : h.LastAt level sort before step)
    (isOpen : level ≤ (h ++ [next]).depth) (other : ¬(sort next ∧ h.depth = level)) :
    (h ++ [next]).LastAt level sort before step := by
  obtain ⟨after, rfl, sorted, rfl, stays, last⟩ := last
  refine ⟨after ++ [next], by simp, sorted, rfl, fun first inside => ?_, ?_⟩
  · rw [← List.cons_append] at inside
    rcases List.prefix_concat_iff.1 inside with rfl | inside
    · rwa [List.append_assoc, List.cons_append] at isOpen
    · exact stays first inside
  · intro first later rest split isSort
    rcases List.eq_nil_or_concat rest with rfl | ⟨others, final, rfl⟩
    · obtain ⟨rfl, same⟩ := List.append_inj' split rfl
      obtain rfl := List.singleton_inj.1 same
      exact fun same => other ⟨isSort, same⟩
    · rw [List.concat_eq_append, ← List.cons_append, ← List.append_assoc] at split
      exact last first later others (List.append_inj' split rfl).1 isSort

/-- A step of a sort in the current scope is the last one there. To another scope a step only matters
if it closes that one. -/
theorem lastAt_concat : (h ++ [next]).LastAt level sort before step ↔
    level ≤ (h ++ [next]).depth ∧ ((before = h ∧ step = next ∧ sort next ∧ h.depth = level) ∨
      (h.LastAt level sort before step ∧ ¬(sort next ∧ h.depth = level))) := by
  constructor
  · exact fun last => ⟨last.le_depth, last.concat⟩
  · rintro ⟨isOpen, ⟨rfl, rfl, sorted, rfl⟩ | ⟨last, other⟩⟩
    · exact lastAt_concat_self sorted isOpen
    · exact last.stays isOpen other

/-- A step that has nothing to do with a scope, or is of another sort, matters if it closes it. -/
theorem lastAt_concat_of_not (other : ¬(sort next ∧ h.depth = level))
    (isOpen : level ≤ (h ++ [next]).depth) :
    (h ++ [next]).LastAt level sort before step ↔ h.LastAt level sort before step := by
  rw [lastAt_concat]
  constructor
  · rintro ⟨-, ⟨-, -, sorted, here⟩ | ⟨last, -⟩⟩
    · exact (other ⟨sorted, here⟩).elim
    · exact last
  · exact fun last => ⟨isOpen, .inr ⟨last, other⟩⟩

theorem lastAt_concat_of_sort (sorted : sort next) (isOpen : h.depth ≤ (h ++ [next]).depth) :
    (h ++ [next]).LastAt h.depth sort before step ↔ before = h ∧ step = next := by
  rw [lastAt_concat]
  constructor
  · rintro ⟨-, ⟨rfl, rfl, -⟩ | ⟨-, other⟩⟩
    · exact ⟨rfl, rfl⟩
    · exact (other ⟨sorted, rfl⟩).elim
  · rintro ⟨rfl, rfl⟩
    exact ⟨isOpen, .inl ⟨rfl, rfl, sorted, rfl⟩⟩

/-- Definitions have different numbers. -/
theorem eq_of_definitions {before' after after' : ScopeHistory} {step' : ScopeStep}
    (split : before ++ step :: after = before' ++ step' :: after') (first : step.isDefinition)
    (second : step'.isDefinition) (same : before.definitions = before'.definitions) :
    before = before' := by
  rw [definitions, definitions] at same
  rcases List.append_eq_append_iff.1 split with ⟨between, rfl, rest⟩ | ⟨between, rfl, rest⟩
  · cases between with
    | nil => rw [List.append_nil]
    | cons next others =>
      obtain ⟨rfl, -⟩ := List.cons.inj rest
      rw [List.countP_append, List.countP_cons_of_pos first] at same
      omega
  · cases between with
    | nil => rw [List.append_nil]
    | cons next others =>
      obtain ⟨rfl, -⟩ := List.cons.inj rest
      rw [List.countP_append, List.countP_cons_of_pos second] at same
      omega

/-- What is defined in a scope that has been closed is not defined any more. -/
theorem not_defined_of_closed {after : ScopeHistory} (split : h = before ++ step :: after)
    (isDefinition : step.isDefinition) (closed : ¬StaysOpen before (step :: after))
    (later : ScopeHistory) (name : String) :
    ¬(h ++ later).Defined level name before.definitions := by
  rintro ⟨before', step', ⟨after', split', ⟨kind, span, file?, rfl⟩, -, stays, -⟩, same⟩
  rw [split, List.append_assoc, List.cons_append] at split'
  obtain rfl := eq_of_definitions split' isDefinition rfl same.symm
  obtain ⟨rfl, rfl⟩ := List.cons.inj (List.append_cancel_left split')
  exact closed fun first inside => stays first (inside.trans (List.prefix_append _ _))

theorem Defined.le_depth {name : String} {id : SymbolId} (defined : h.Defined level name id) :
    level ≤ h.depth := by
  obtain ⟨_, _, last, -⟩ := defined
  exact last.le_depth

end ScopeHistory

/-- A stack of scopes, of which at least one is open. -/
structure ScopeStack where
  /-- The innermost scope. -/
  current : Scope
  /-- The scopes around it, the global one last. -/
  outer : List Scope
  /-- How many symbols have been defined. -/
  count : Nat

namespace ScopeStack

/-- The open scopes, the innermost first. -/
def scopes (s : ScopeStack) : List Scope := s.current :: s.outer

/-- The stack on which only the global scope is open, which defines nothing. -/
def nothing : ScopeStack := ⟨⟨.global, [], none⟩, [], 0⟩

def apply (s : ScopeStack) : ScopeStep → ScopeStack
  | .enter kind => ⟨⟨kind, [], none⟩, s.scopes, s.count⟩
  | .exit =>
    match s.outer with
    | [] => s
    | scope :: outer => ⟨scope, outer, s.count⟩
  | .define name _ _ _ =>
    ⟨{ s.current with names := (name, s.count) :: s.current.names }, s.outer, s.count + 1⟩
  | .setReturnType type => ⟨{ s.current with returns? := some type }, s.outer, s.count⟩

def run (s : ScopeStack) (steps : List ScopeStep) : ScopeStack := steps.foldl apply s

end ScopeStack

open ScopeStep

variable {t : SymbolTable} {s : ScopeStack} {scope : Scope} {h : ScopeHistory} {next : ScopeStep}
  {level : Nat}

/-- A scope knows what the past says about the one that is still open at some level. -/
structure Scope.Follows (scope : Scope) (h : ScopeHistory) (level : Nat) : Prop where
  names : ∀ name id, scope.names.lookup name = some id ↔ h.Defined level name id
  returns : ∀ type, scope.returns? = some type ↔
    ∃ before, h.LastAt level SetsReturnType before (.setReturnType type)
  kind : scope.kind = .function ↔ h.IsFunction level

namespace Scope.Follows

theorem names_stay (follows : scope.Follows h level) (isOpen : level ≤ (h ++ [next]).depth)
    {name : String} (untold : Defines name next → h.depth ≠ level) (id : SymbolId) :
    scope.names.lookup name = some id ↔ (h ++ [next]).Defined level name id := by
  have other : ¬(Defines name next ∧ h.depth = level) := fun told => untold told.1 told.2
  rw [follows.names, ScopeHistory.Defined, ScopeHistory.Defined]
  simp only [ScopeHistory.lastAt_concat_of_not other isOpen]

theorem returns_stay (follows : scope.Follows h level) (isOpen : level ≤ (h ++ [next]).depth)
    (untold : SetsReturnType next → h.depth ≠ level) (type : Ty) : scope.returns? = some type ↔
      ∃ before, (h ++ [next]).LastAt level SetsReturnType before (.setReturnType type) := by
  have other : ¬(SetsReturnType next ∧ h.depth = level) := fun told => untold told.1 told.2
  simp only [follows.returns, ScopeHistory.lastAt_concat_of_not other isOpen]

theorem kind_stays (follows : scope.Follows h level) (inside : level ≤ h.depth)
    (isOpen : level ≤ (h ++ [next]).depth) :
    scope.kind = .function ↔ (h ++ [next]).IsFunction level := by
  rw [follows.kind, ScopeHistory.IsFunction, ScopeHistory.IsFunction]
  refine and_congr (iff_of_true inside isOpen) ?_
  refine exists_congr fun outer => exists_congr fun before => and_congr_right fun is => ?_
  have other : ¬(Enters next ∧ h.depth = outer) := by omega
  exact (ScopeHistory.lastAt_concat_of_not other (by omega)).symm

/-- A scope that stays open keeps what it knows, unless it is told something. -/
theorem stays (follows : scope.Follows h level) (inside : level ≤ h.depth)
    (isOpen : level ≤ (h ++ [next]).depth) (names : ∀ name, Defines name next → h.depth ≠ level)
    (returns : SetsReturnType next → h.depth ≠ level) : scope.Follows (h ++ [next]) level where
  names name id := follows.names_stay isOpen (names name) id
  returns type := follows.returns_stay isOpen returns type
  kind := follows.kind_stays inside isOpen

end Scope.Follows

namespace ScopeStack

/-- The scopes of a stack are those that its past has left open. -/
structure Follows (s : ScopeStack) (h : ScopeHistory) : Prop where
  depth : s.outer.length = h.depth
  count : s.count = h.definitions
  scopes : ∀ scope outer, scope :: outer <:+ s.scopes → scope.Follows h outer.length

namespace Follows

theorem length (follows : s.Follows h) : s.scopes.length = h.depth + 1 :=
  congrArg (· + 1) follows.depth

theorem current (follows : s.Follows h) : s.current.Follows h h.depth :=
  follows.depth ▸ follows.scopes s.current s.outer List.suffix_rfl

/-- Scopes that stay open keep what they know, unless the current one is told something. -/
theorem stay (follows : s.Follows h) {outer : List Scope} (older : outer <:+ s.scopes)
    (isOpen : outer.length ≤ (h ++ [next]).depth + 1)
    (apart : (∃ name, Defines name next) ∨ SetsReturnType next → outer.length ≤ h.depth) :
    ∀ scope others, scope :: others <:+ outer → scope.Follows (h ++ [next]) others.length := by
  intro scope others suffix
  have inside := (suffix.trans older).length_le
  have fewer := suffix.length_le
  rw [List.length_cons, follows.length] at inside
  rw [List.length_cons] at fewer
  refine (follows.scopes scope others (suffix.trans older)).stays ?_ ?_ ?_ ?_
  · omega
  · omega
  · intro name defines
    have := apart (.inl ⟨name, defines⟩)
    omega
  · intro sets
    have := apart (.inr sets)
    omega

/-- Only the current scope is told something, or it is a new one. -/
theorem cons (follows : s.Follows h) {outer : List Scope} {count : Nat}
    (older : outer <:+ s.scopes) (depth : outer.length = (h ++ [next]).depth)
    (counted : count = (h ++ [next]).definitions)
    (apart : (∃ name, Defines name next) ∨ SetsReturnType next → outer.length ≤ h.depth)
    (here : scope.Follows (h ++ [next]) (h ++ [next]).depth) :
    Follows ⟨scope, outer, count⟩ (h ++ [next]) where
  depth := depth
  count := counted
  scopes other others suffix := by
    rcases List.suffix_cons_iff.1 suffix with same | suffix
    · obtain ⟨rfl, rfl⟩ := List.cons.inj same
      rwa [depth]
    · exact follows.stay older (Nat.le_succ_of_le (Nat.le_of_eq depth)) apart other others suffix

theorem enter (follows : s.Follows h) (kind : ScopeKind) :
    (s.apply (.enter kind)).Follows (h ++ [ScopeStep.enter kind]) := by
  have depth : (h ++ [ScopeStep.enter kind]).depth = h.depth + 1 := ScopeHistory.depth_concat h _
  refine follows.cons List.suffix_rfl (follows.length.trans depth.symm) ?_ ?_ ?_
  · rw [ScopeHistory.definitions_concat]
    exact follows.count
  · rintro (⟨_, _, _, _, other⟩ | ⟨_, other⟩)
    · cases other
    · cases other
  · have fresh {sort : ScopeStep → Prop} {before : ScopeHistory} {step : ScopeStep}
        (other : ¬sort (.enter kind)) :
        ¬(h ++ [ScopeStep.enter kind]).LastAt (h.depth + 1) sort before step := by
      rw [ScopeHistory.lastAt_concat_of_not (fun told => other told.1) (Nat.le_of_eq depth.symm)]
      exact fun last => Nat.not_succ_le_self _ last.le_depth
    rw [depth]
    constructor
    case names =>
      refine fun name id => iff_of_false nofun ?_
      rintro ⟨_, _, last, -⟩
      refine fresh ?_ last
      rintro ⟨_, _, _, other⟩
      cases other
    case returns =>
      refine fun type => iff_of_false nofun ?_
      rintro ⟨_, last⟩
      refine fresh ?_ last
      rintro ⟨_, other⟩
      cases other
    case kind =>
      have opens (before : ScopeHistory) :
          (h ++ [ScopeStep.enter kind]).LastAt h.depth Enters before (.enter .function) ↔
            before = h ∧ ScopeStep.enter .function = .enter kind :=
        ScopeHistory.lastAt_concat_of_sort ⟨kind, rfl⟩
          (Nat.le_of_lt (Nat.lt_of_lt_of_eq (Nat.lt_succ_self h.depth) depth.symm))
      constructor
      · rintro rfl
        exact ⟨Nat.le_of_eq depth.symm, h.depth, h, rfl, (opens h).2 ⟨rfl, rfl⟩⟩
      · rintro ⟨-, outer, before, same, last⟩
        obtain rfl := Nat.succ.inj same
        obtain ⟨-, same⟩ := (opens before).1 last
        exact (ScopeStep.enter.inj same).symm

theorem exit (follows : s.Follows h) : (s.apply .exit).Follows (h ++ [ScopeStep.exit]) := by
  have depth : (h ++ [ScopeStep.exit]).depth = h.depth - 1 := ScopeHistory.depth_concat h _
  have count : s.count = (h ++ [ScopeStep.exit]).definitions := by
    rw [ScopeHistory.definitions_concat]
    exact follows.count
  have apart {n : Nat} : (∃ name, Defines name .exit) ∨ SetsReturnType .exit → n ≤ h.depth := by
    rintro (⟨_, _, _, _, other⟩ | ⟨_, other⟩)
    · cases other
    · cases other
  have length := follows.depth
  obtain ⟨current, outer, _⟩ := s
  cases outer with
  | nil =>
    have bottom : h.depth = 0 := length.symm
    have level : 0 = (h ++ [ScopeStep.exit]).depth := by rw [depth, bottom]
    exact ⟨level, count, follows.stay List.suffix_rfl (Nat.succ_le_succ (Nat.zero_le _)) apart⟩
  | cons scope others =>
    have above : others.length + 1 = h.depth := length
    have level : others.length = (h ++ [ScopeStep.exit]).depth := by
      rw [depth, ← above, Nat.add_sub_cancel]
    refine ⟨level, count, follows.stay (List.suffix_cons current _) ?_ apart⟩
    exact Nat.le_of_eq (congrArg (· + 1) level)

theorem define (follows : s.Follows h) (name : String) (kind : SymbolKind) (span : Span)
    (file? : Option FileId) : (s.apply (.define name kind span file?)).Follows
      (h ++ [ScopeStep.define name kind span file?]) := by
  have depth : (h ++ [ScopeStep.define name kind span file?]).depth = h.depth :=
    ScopeHistory.depth_concat h _
  have isOpen := Nat.le_of_eq depth.symm
  refine follows.cons (List.suffix_cons s.current s.outer) (follows.depth.trans depth.symm) ?_
    (fun _ => Nat.le_of_eq follows.depth) ?_
  · rw [ScopeHistory.definitions_concat, follows.count]
    rfl
  · rw [depth]
    constructor
    case names =>
      intro other id
      rw [List.lookup_cons]
      by_cases same : other = name
      · have defines : Defines other (.define name kind span file?) :=
          ⟨kind, span, file?, congrArg (ScopeStep.define · kind span file?) same.symm⟩
        have last (before : ScopeHistory) (step : ScopeStep) :
            (h ++ [ScopeStep.define name kind span file?]).LastAt h.depth (Defines other) before step ↔
              before = h ∧ step = .define name kind span file? :=
          ScopeHistory.lastAt_concat_of_sort defines isOpen
        rw [beq_iff_eq.2 same, ScopeHistory.Defined]
        simp [last, follows.count]
      · have unlike : ¬(Defines other (.define name kind span file?) ∧ h.depth = h.depth) := by
          rintro ⟨⟨_, _, _, is⟩, -⟩
          exact same (ScopeStep.define.inj is).1.symm
        rw [beq_false_of_ne same, follows.current.names, ScopeHistory.Defined, ScopeHistory.Defined]
        simp only [ScopeHistory.lastAt_concat_of_not unlike isOpen]
    case returns =>
      refine follows.current.returns_stay isOpen ?_
      rintro ⟨_, other⟩
      cases other
    case kind => exact follows.current.kind_stays (Nat.le_refl _) isOpen

theorem setReturnType (follows : s.Follows h) (type : Ty) :
    (s.apply (.setReturnType type)).Follows (h ++ [ScopeStep.setReturnType type]) := by
  have depth : (h ++ [ScopeStep.setReturnType type]).depth = h.depth :=
    ScopeHistory.depth_concat h _
  have isOpen := Nat.le_of_eq depth.symm
  refine follows.cons (List.suffix_cons s.current s.outer) (follows.depth.trans depth.symm) ?_
    (fun _ => Nat.le_of_eq follows.depth) ?_
  · rw [ScopeHistory.definitions_concat, follows.count]
    rfl
  · rw [depth]
    constructor
    case names =>
      intro name
      refine follows.current.names_stay isOpen ?_
      rintro ⟨_, _, _, other⟩
      cases other
    case returns =>
      intro other
      have last (before : ScopeHistory) :
          (h ++ [ScopeStep.setReturnType type]).LastAt h.depth SetsReturnType before
              (.setReturnType other) ↔ before = h ∧ ScopeStep.setReturnType other = .setReturnType type :=
        ScopeHistory.lastAt_concat_of_sort ⟨type, rfl⟩ isOpen
      simp [last, eq_comm]
    case kind => exact follows.current.kind_stays (Nat.le_refl _) isOpen

/-- What a step does is what follows from the longer past. -/
theorem apply (follows : s.Follows h) (step : ScopeStep) : (s.apply step).Follows (h ++ [step]) := by
  cases step with
  | enter kind => exact follows.enter kind
  | exit => exact follows.exit
  | define name kind span file? => exact follows.define name kind span file?
  | setReturnType type => exact follows.setReturnType type

theorem run (follows : s.Follows h) (steps : List ScopeStep) : (s.run steps).Follows (h ++ steps) := by
  induction steps generalizing s h with
  | nil => rwa [List.append_nil]
  | cons step rest ih =>
    rw [List.append_cons]
    exact ih (follows.apply step)

end Follows

/-- The stack that only has a global scope without any names has no past. -/
theorem follows_nothing : nothing.Follows [] where
  depth := rfl
  count := rfl
  scopes scope outer suffix := by
    have never {level : Nat} {sort : ScopeStep → Prop} {before : ScopeHistory} {step : ScopeStep} :
        ¬ScopeHistory.LastAt [] level sort before step := by
      rintro ⟨after, split, -⟩
      simp at split
    obtain ⟨rfl, rfl⟩ : scope = ⟨.global, [], none⟩ ∧ outer = [] := by
      rcases List.suffix_cons_iff.1 suffix with same | suffix
      · exact List.cons.inj same
      · exact absurd (List.suffix_nil.1 suffix) (List.cons_ne_nil _ _)
    constructor
    case names => exact fun name id => iff_of_false nofun fun ⟨_, _, last, _⟩ => never last
    case returns => exact fun type => iff_of_false nofun fun ⟨_, last⟩ => never last
    case kind => exact iff_of_false nofun fun ⟨_, _, _, _, last⟩ => never last

section

variable {inner outer : List Scope} {p : Scope → Prop} {P : Nat → Prop}

/-- There is an open scope at every level up to the current one. -/
theorem exists_scope {scopes : List Scope} (inside : level < scopes.length) :
    ∃ inner scope outer, scopes = inner ++ scope :: outer ∧ outer.length = level := by
  have rest := List.length_drop (l := scopes) (i := scopes.length - (level + 1))
  have split := (List.take_append_drop (scopes.length - (level + 1)) scopes).symm
  generalize scopes.drop (scopes.length - (level + 1)) = others at rest split
  cases others with
  | nil =>
    rw [List.length_nil] at rest
    omega
  | cons scope outer =>
    rw [List.length_cons] at rest
    exact ⟨_, scope, outer, split, by omega⟩

/-- No scope inside of another one has some property exactly if there is none at a deeper level. -/
theorem forall_inner_iff (told : ∀ x others, x :: others <:+ inner ++ scope :: outer →
      (p x ↔ P others.length))
    (bounded : ∀ level, P level → level < (inner ++ scope :: outer).length) :
    (∀ x ∈ inner, ¬p x) ↔ ∀ deeper, outer.length < deeper → ¬P deeper := by
  constructor
  · intro none deeper below is
    obtain ⟨first, x, others, split, rfl⟩ := exists_scope (bounded deeper is)
    have suffix : x :: others <:+ inner ++ scope :: outer := split ▸ List.suffix_append _ _
    obtain ⟨middle, rfl⟩ : scope :: outer <:+ others :=
      List.suffix_of_suffix_length_le (List.suffix_append inner _)
        ((List.suffix_cons x others).trans suffix) below
    rw [← List.cons_append, ← List.append_assoc] at split
    refine none x ?_ ((told _ _ suffix).2 is)
    rw [List.append_cancel_right split]
    exact List.mem_append_right _ List.mem_cons_self
  · intro none x mem is
    obtain ⟨first, last, rfl⟩ := List.append_of_mem mem
    have suffix : x :: (last ++ scope :: outer) <:+ (first ++ x :: last) ++ scope :: outer := by
      rw [List.append_assoc]
      exact List.suffix_append _ _
    refine none _ ?_ ((told _ _ suffix).1 is)
    rw [List.length_append, List.length_cons]
    omega

end

namespace Follows

variable (follows : s.Follows h)
include follows

/-- A name stands for what was last defined by it in the innermost scope that defines it. -/
theorem lookup_iff (name : String) (id : SymbolId) : s.scopes.findSome? (·.names.lookup name) = some id ↔
    ∃ level, h.Defined level name id ∧
      ∀ deeper, level < deeper → ¬∃ other, h.Defined deeper name other := by
  have told : ∀ x others, x :: others <:+ s.scopes →
      ((∃ other, x.names.lookup name = some other) ↔ ∃ other, h.Defined others.length name other) :=
    fun x others suffix => exists_congr ((follows.scopes x others suffix).names name)
  have bounded : ∀ level, (∃ other, h.Defined level name other) → level < s.scopes.length := by
    rintro level ⟨other, defined⟩
    rw [follows.length]
    exact Nat.lt_succ_of_le defined.le_depth
  have none (x : Scope) : x.names.lookup name = none ↔ ¬∃ other, x.names.lookup name = some other := by
    rw [Option.eq_none_iff_forall_ne_some, not_exists]
  rw [List.findSome?_eq_some_iff]
  constructor
  · rintro ⟨inner, scope, outer, split, found, before⟩
    have suffix : scope :: outer <:+ s.scopes := split ▸ List.suffix_append _ _
    rw [split] at told bounded
    refine ⟨outer.length, ((follows.scopes _ _ suffix).names name id).1 found, ?_⟩
    exact (forall_inner_iff told bounded).1 fun x mem => (none x).1 (before x mem)
  · rintro ⟨level, defined, deepest⟩
    obtain ⟨inner, scope, outer, split, rfl⟩ := exists_scope (bounded level ⟨id, defined⟩)
    have suffix : scope :: outer <:+ s.scopes := split ▸ List.suffix_append _ _
    rw [split] at told bounded
    refine ⟨inner, scope, outer, split, ((follows.scopes _ _ suffix).names name id).2 defined, ?_⟩
    exact fun x mem => (none x).2 ((forall_inner_iff told bounded).2 deepest x mem)

/-- The result type is that which the innermost scope of a function was last given. -/
theorem returnType?_iff (type : Ty) : (s.scopes.find? (·.kind == .function)).bind Scope.returns? = some type ↔
    ∃ level, h.IsFunction level ∧ (∀ deeper, level < deeper → ¬h.IsFunction deeper) ∧
      ∃ before, h.LastAt level SetsReturnType before (.setReturnType type) := by
  have told : ∀ x others, x :: others <:+ s.scopes →
      (x.kind = .function ↔ h.IsFunction others.length) :=
    fun x others suffix => (follows.scopes x others suffix).kind
  have bounded : ∀ level, h.IsFunction level → level < s.scopes.length := by
    rintro level ⟨isOpen, -⟩
    rw [follows.length]
    exact Nat.lt_succ_of_le isOpen
  simp only [Option.bind_eq_some_iff, List.find?_eq_some_iff_append, beq_iff_eq,
    Bool.not_eq_true', beq_eq_false_iff_ne, ne_eq]
  constructor
  · rintro ⟨scope, ⟨is, inner, outer, split, before⟩, returns⟩
    have suffix : scope :: outer <:+ s.scopes := split ▸ List.suffix_append _ _
    rw [split] at told bounded
    exact ⟨outer.length, (told _ _ (List.suffix_append _ _)).1 is,
      (forall_inner_iff told bounded).1 before, ((follows.scopes _ _ suffix).returns type).1 returns⟩
  · rintro ⟨level, is, deepest, returns⟩
    obtain ⟨inner, scope, outer, split, rfl⟩ := exists_scope (bounded level is)
    have suffix : scope :: outer <:+ s.scopes := split ▸ List.suffix_append _ _
    rw [split] at told bounded
    exact ⟨scope, ⟨(told _ _ (List.suffix_append _ _)).2 is, inner, outer, split,
      (forall_inner_iff told bounded).2 deepest⟩, ((follows.scopes _ _ suffix).returns type).2 returns⟩

end Follows

end ScopeStack

namespace SymbolTable

def apply (t : SymbolTable) : ScopeStep → SymbolTable
  | .enter kind => t.enter kind
  | .exit => t.exit
  | .define name kind span file? => t.define name kind span file?
  | .setReturnType type => t.setReturnType type

/-- What becomes of a table by several steps. -/
def run (t : SymbolTable) (steps : List ScopeStep) : SymbolTable := steps.foldl apply t

/-- The stack that a table stands for: the scopes on the way from the current one to the global one. -/
def stack (t : SymbolTable) : ScopeStack := ⟨t.current, t.scopes.tail, t.symbols.size⟩

theorem scopes_stack (t : SymbolTable) : t.stack.scopes = t.scopes := t.scopes_eq_cons.symm

theorem stack_eq {outer : List Scope} (scopes : t.scopes = scope :: outer) :
    t.stack = ⟨scope, outer, t.symbols.size⟩ := by
  obtain ⟨rfl, rfl⟩ := List.cons.inj (t.scopes_eq_cons.symm.trans scopes)
  rfl

/-- Whatever is done to a table is done to its stack. -/
theorem stack_apply (t : SymbolTable) (step : ScopeStep) :
    (t.apply step).stack = t.stack.apply step := by
  cases step with
  | enter kind =>
    rw [apply, stack_eq (t.scopes_enter kind), ScopeStack.apply, scopes_stack]
    rfl
  | exit =>
    cases inner : t.inner with
    | nil =>
      have alone : t.stack.outer = [] := by rw [stack, scopes, inner]; rfl
      rw [apply, exit_of_nil inner, ScopeStack.apply, alone]
    | cons scope others =>
      have closed : t.exit.scopes = others ++ [t.outermost] := by
        rw [scopes, inner_exit, inner, List.tail_cons, outermost_exit]
      have around : t.stack.outer = others ++ [t.outermost] := by
        rw [stack, scopes, inner]
        rfl
      rw [apply, ScopeStack.apply, around]
      cases others with
      | nil => exact stack_eq closed
      | cons outer rest => exact stack_eq closed
  | define name kind span file? =>
    rw [apply, stack_eq (t.scopes_define name kind span file?), symbols_define, Array.size_push]
    rfl
  | setReturnType type =>
    rw [apply, stack_eq (t.scopes_setReturnType type)]
    rfl

theorem stack_run (t : SymbolTable) (steps : List ScopeStep) :
    (t.run steps).stack = t.stack.run steps := by
  induction steps generalizing t with
  | nil => rfl
  | cons step rest ih =>
    rw [run, List.foldl_cons, ← run, ih, stack_apply]
    rfl

theorem stack_nothing : nothing.stack = .nothing :=
  stack_eq (by rw [scopes, inner_nothing]; rfl)

/-- The open scopes of a table are those that its past has left open. -/
theorem follows_run (h : ScopeHistory) : (nothing.run h).stack.Follows h := by
  rw [stack_run, stack_nothing]
  exact ScopeStack.follows_nothing.run h

theorem lookup_run_iff (h : ScopeHistory) (name : String) (id : SymbolId) :
    (nothing.run h).lookup name = some id ↔ ∃ level, h.Defined level name id ∧
      ∀ deeper, level < deeper → ¬∃ other, h.Defined deeper name other := by
  rw [lookup_eq, ← scopes_stack]
  exact (follows_run h).lookup_iff name id

theorem run_append (t : SymbolTable) (steps more : List ScopeStep) :
    t.run (steps ++ more) = (t.run steps).run more := List.foldl_append

/-- A table keeps the scopes that it closes. -/
theorem size_arena_run (t : SymbolTable) (steps : List ScopeStep) :
    (t.run steps).arena.size = t.arena.size + steps.countP ScopeStep.isEntry := by
  induction steps generalizing t with
  | nil => rfl
  | cons step rest ih =>
    have here : (t.apply step).arena.size = t.arena.size + if step.isEntry then 1 else 0 := by
      cases step with
      | enter kind => exact Array.size_push _
      | exit => rfl
      | define name kind span file? => exact Array.size_set t.current_lt
      | setReturnType type => exact Array.size_set t.current_lt
    rw [run, List.foldl_cons, ← run, ih, here, List.countP_cons]
    omega

/-- What is known of a symbol does not change. -/
theorem symbol?_run {id : SymbolId} {symbol : Symbol} (has : t.symbol? id = some symbol)
    (steps : List ScopeStep) : (t.run steps).symbol? id = some symbol := by
  induction steps generalizing t with
  | nil => exact has
  | cons step rest ih =>
    refine ih (t := t.apply step) ?_
    cases step with
    | enter kind => exact has
    | exit => exact has
    | define name kind span file? => exact symbol?_define has
    | setReturnType type =>
      rw [apply, symbol?, symbols_setReturnType]
      exact has

/-- A table is the stack of maps that its past tells: one map for each scope that is still open. -/
structure Stacked (t : SymbolTable) (h : ScopeHistory) : Prop where
  /-- The scopes on the way outwards are those of a stack that only opens and closes at its top. -/
  stack : t.stack = ScopeStack.nothing.run h
  /-- Those that have been closed are still in the table. -/
  arena : t.arena.size = h.countP ScopeStep.isEntry + 1
  /-- A name stands for what was last defined by it in the innermost scope that defines it. -/
  lookup : ∀ name id, t.lookup name = some id ↔ ∃ level, h.Defined level name id ∧
    ∀ deeper, level < deeper → ¬∃ other, h.Defined deeper name other
  /-- In the current scope alone, it stands for what was last defined by it there. -/
  lookupLocal : ∀ name id, t.lookupLocal name = some id ↔ h.Defined h.depth name id
  /-- Each number is that of one definition. -/
  symbols : ∀ (before : ScopeHistory) name kind span file? after,
    h = before ++ .define name kind span file? :: after →
    ∃ scope, t.symbol? before.definitions = some ⟨name, kind, span, file?, scope⟩
  /-- The result type is that which the innermost scope of a function was last given. -/
  returnType : ∀ type, t.returnType? = some type ↔
    ∃ level, h.IsFunction level ∧ (∀ deeper, level < deeper → ¬h.IsFunction deeper) ∧
      ∃ before, h.LastAt level SetsReturnType before (.setReturnType type)
  /-- The global scope is not closed. -/
  exit : h.depth = 0 → t.exit = t
  /-- What a closed scope has defined is never found again. -/
  closed : ∀ (before : ScopeHistory) name kind span file? after,
    h = before ++ .define name kind span file? :: after →
    ¬ScopeHistory.StaysOpen before (.define name kind span file? :: after) →
      ∀ later other, (t.run later).lookup other ≠ some before.definitions ∧
        (t.run later).lookupLocal other ≠ some before.definitions

theorem stacked_run (h : ScopeHistory) : (nothing.run h).Stacked h := by
  constructor
  case stack => rw [stack_run, stack_nothing]
  case arena => exact (size_arena_run nothing h).trans (Nat.add_comm _ _)
  case lookup => exact lookup_run_iff h
  case lookupLocal => exact (follows_run h).current.names
  case symbols =>
    rintro before name kind span file? after rfl
    have here : ((nothing.run before).define name kind span file?).symbol? before.definitions
        = some ⟨name, kind, span, file?, (nothing.run before).currentId⟩ := by
      rw [← (follows_run before).count]
      exact symbol?_define_self
    rw [run_append]
    exact ⟨_, symbol?_run here after⟩
  case returnType =>
    intro type
    rw [returnType?_eq, ← scopes_stack]
    exact (follows_run h).returnType?_iff type
  case exit =>
    intro bottom
    have length := (follows_run h).length
    rw [scopes_stack, scopes, List.length_append, bottom] at length
    exact exit_of_nil (List.length_eq_zero_iff.1 (Nat.succ.inj length))
  case closed =>
    intro before name kind span file? after split closed later other
    have gone {level : Nat} : ¬(h ++ later).Defined level other before.definitions :=
      ScopeHistory.not_defined_of_closed split rfl closed later other
    rw [← run_append]
    constructor
    · intro found
      obtain ⟨_, defined, -⟩ := (lookup_run_iff _ other _).1 found
      exact gone defined
    · exact fun found => gone (((follows_run _).current.names other _).1 found)

/-- The definitions with which every table begins. -/
def builtinSteps : ScopeHistory :=
  builtins.map fun (name, kind) => .define name kind .zero none

/-- Whatever is done to a new table, it is the stack of maps that its past tells, with what every
program knows at the bottom. -/
theorem initial_stacked (steps : List ScopeStep) :
    (initial.run steps).Stacked (builtinSteps ++ steps) := by
  have begins : initial = nothing.run builtinSteps := by
    rw [run, builtinSteps, List.foldl_map]
    rfl
  rw [begins, ← run_append]
  exact stacked_run _

end SymbolTable

end ScriptToGo
