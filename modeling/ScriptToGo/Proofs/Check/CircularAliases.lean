import ScriptToGo.Proofs.Check.Gathered
import ScriptToGo.Proofs.Check.Independence
import ScriptToGo.Proofs.Module.TwoFiles

/-! A program is told that its type aliases go in a circle exactly if they do. -/
namespace ScriptToGo
open Check

def Meaning.written? : Meaning → Option TypeExpr
  | .«alias» written => some written
  | _ => none

namespace ModuleGraph

/-- What is found out about the type aliases of a program. -/
structure AliasesSettled (g : ModuleGraph) : Prop where
  /-- A circle is reported exactly if there is one. -/
  reports : (∃ errors, g.check = .error errors ∧
      ∃ e ∈ errors, ∃ name, e.fault = .circularAlias name) ↔ g.HasCircle
  /-- Whatever is reported, it is known in the end what each alias stands for, and if nothing is
  reported, that is the type which is written for it. -/
  known : ∀ name written, g.IsAlias name written → ∃ target,
    (g.checkedAfter g.modules).symbols.kind? name = some (.«alias» written (some target)) ∧
      (g.check.isOk → g.Stands written target)

variable {g : ModuleGraph}

/-- What is reported are the errors that have been found in the end. -/
theorem reports_iff {P : TypeError → Prop} :
    (∃ errors, g.check = .error errors ∧ ∃ e ∈ errors, P e) ↔
      ∃ e ∈ (g.checkedAfter g.modules).errors, P e := by
  rw [check_eq]
  split
  next none =>
    rw [List.isEmpty_iff.1 none]
    simp
  · simp

/-- When modules are checked, no circle of aliases is reported, since it is known what they stand
for. -/
theorem circular_checkedAfter_iff (numbered : g.IsNumbered) :
    (g.checkedAfter g.modules).Circular ↔ g.collected.Circular := by
  have checked := hasChecked numbered (fun _ mem => mem) numbered.ids
  rw [CheckState.Circular, checked.errors]
  constructor
  · rintro ⟨e, mem, name, is⟩
    rcases List.mem_append.1 mem with mem | mem
    · exact ⟨e, mem, name, is⟩
    · obtain ⟨m, -, mem⟩ := List.mem_flatMap.1 mem
      exact (((g.errors_alone m).2 e mem).2 name is).elim
  · rintro ⟨e, mem, circular⟩
    exact ⟨e, List.mem_append_left _ mem, circular⟩

/-- Global names stand for the same when all modules have been checked. -/
theorem HasChecked.kind?_eq {before : List Module} {t : CheckState} (h : g.HasChecked before t)
    (name : String) : t.symbols.kind? name = g.collected.symbols.kind? name := by
  have names : t.symbols.lookup name = g.collected.symbols.lookup name := by
    rw [SymbolTable.lookup_eq, SymbolTable.lookup_eq, SymbolTable.scopes, SymbolTable.scopes,
      h.inner, h.globals, g.inner_collected]
  rw [SymbolTable.kind?, SymbolTable.kind?, names]
  cases found : g.collected.symbols.lookup name with
  | none => rfl
  | some id =>
    obtain ⟨symbol, has⟩ := SymbolTable.exists_symbol found
    rw [Option.bind_some, Option.bind_some, h.symbols id (Array.getElem?_eq_some_iff.1 has).1]

/-- The aliases of a program that has been loaded are all looked into, and circles are found. -/
theorem aliases_settled {s : Sources} {entry : Path} (loaded : load s entry = .ok g) :
    g.AliasesSettled := by
  have numbered := isNumbered_of_load loaded
  have checked := hasChecked numbered (fun _ mem => mem) numbered.ids
  constructor
  case reports =>
    rw [← circular_collect_iff, reports_iff]
    exact circular_checkedAfter_iff numbered
  case known =>
    intro name written isAlias
    obtain ⟨_, target, is⟩ := knows_collect isAlias
    obtain ⟨target?, is'⟩ := g.gathering_collect.exists_kind? isAlias
    obtain ⟨rfl, -⟩ := SymbolKind.«alias».inj (Option.some.inj (is.symm.trans is'))
    refine ⟨target, (checked.kind?_eq name).trans is, fun accepted => ?_⟩
    have fine := (checked.not_failed (not_failed_of_check accepted)).1
    have fits := g.gathering_collect.fits name
    rw [is, isAlias_iff.1 isAlias] at fits
    cases fits with
    | «alias» stands => exact stands target rfl fine

/-- What is written for an alias. -/
def written? (g : ModuleGraph) (name : String) : Option TypeExpr :=
  (g.meaning? name).bind Meaning.written?

theorem isAlias_of_written? {name : String} {written : TypeExpr}
    (is : g.written? name = some written) : g.IsAlias name written := by
  obtain ⟨meaning, means, is⟩ := Option.bind_eq_some_iff.1 is
  cases meaning with
  | «alias» other =>
    obtain rfl := Option.some.inj is
    exact means
  | _ => cases is

/-- Two aliases that stand for each other. -/
def ringSource : String := "type A = B[]\ntype B = \x7b a: A \x7d"

def ringGraph : ModuleGraph := .ofFile ⟨"main.ts"⟩ ringSource (programOf ringSource)

theorem ring_loads :
    load (.ofFiles [(⟨"main.ts"⟩, ringSource)] []) ⟨"main.ts"⟩ = .ok ringGraph :=
  load_ofText rfl (by decide +kernel)

theorem ring_hasCircle : ringGraph.HasCircle := by
  have depends (first second : String)
      (mentions : (ringGraph.written? first).any (·.mentions.contains second) = true)
      (isAlias : (ringGraph.written? second).isSome = true) : ringGraph.DependsOn first second := by
    obtain ⟨written, is, mentions⟩ := (Option.any_eq_true _ _).1 mentions
    obtain ⟨target, is'⟩ := Option.isSome_iff_exists.1 isAlias
    exact ⟨written, target, isAlias_of_written? is, isAlias_of_written? is',
      List.contains_iff_mem.1 mentions⟩
  have there := depends "A" "B" (by decide +kernel) (by decide +kernel)
  have back := depends "B" "A" (by decide +kernel) (by decide +kernel)
  exact ⟨"A", .tail (.single there) back⟩

/-- The circle is reported. -/
theorem ring_settled :
    load (.ofFiles [(⟨"main.ts"⟩, ringSource)] []) ⟨"main.ts"⟩ = .ok ringGraph ∧
      ringGraph.HasCircle ∧ ∃ errors, ringGraph.check = .error errors ∧
        ∃ e ∈ errors, ∃ name, e.fault = .circularAlias name :=
  ⟨ring_loads, ring_hasCircle, (aliases_settled ring_loads).reports.2 ring_hasCircle⟩

end ModuleGraph

end ScriptToGo
