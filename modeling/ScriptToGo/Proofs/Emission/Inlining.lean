import ScriptToGo.Check.Module
import ScriptToGo.Proofs.Emission.Layout
import ScriptToGo.Proofs.Module.ImportChains
import ScriptToGo.Proofs.Module.Preorder

/-! How often the statements of a module stand in the Go code of a program. -/
namespace ScriptToGo

/-- The statements of a program that are not imports. -/
def Program.ownStatements (program : Program) : List Statement :=
  program.filter fun s => s.import?.isNone

namespace ModuleGraph

variable {g : ModuleGraph} {u : Module}

/-- The statements of one module among those of several. -/
private def ofModule (u : Module) (written : List (Module × Statement)) : List Statement :=
  (written.filter (·.1.id = u.id)).map Prod.snd

private theorem ofModule_append (a b : List (Module × Statement)) :
    ofModule u (a ++ b) = ofModule u a ++ ofModule u b := by
  rw [ofModule, List.filter_append, List.map_append, ofModule, ofModule]

private def entries (u : Module) (steps : List WalkStep) : Nat :=
  (steps.filterMap WalkStep.entered?).countP (·.id = u.id)

private theorem entries_enter (target : Module) (inner rest : List WalkStep) :
    entries u (.enter target :: inner ++ .leave :: rest)
      = (if target.id = u.id then 1 else 0) + entries u inner + entries u rest := by
  simp only [entries, List.cons_append, List.filterMap_cons, List.filterMap_append,
    WalkStep.entered?, List.countP_cons, List.countP_append, decide_eq_true_eq]
  ring

private theorem entries_eq_zero (chain : List FileId) (m : Module) (statements : List Statement)
    (inside : u.id ∈ chain) : entries u (g.walkFrom chain m statements) = 0 := by
  induction chain, m, statements using walkFrom.induct g with
  | case1 chain m => simp [entries]
  | case2 chain m s rest other ih =>
    rw [walkFrom_other other]
    exact ih inside
  | case3 chain m s rest decl importing unresolved ih =>
    rw [walkFrom_unresolved importing unresolved]
    exact ih inside
  | case4 chain m s rest decl importing target resolved new ihInner ih =>
    have other : target.id ≠ u.id := fun same => new (same ▸ inside)
    rw [walkFrom_entered importing resolved new, entries_enter, if_neg other,
      ihInner (List.mem_cons_of_mem _ inside), ih inside]
  | case5 chain m s rest decl importing target resolved seen ih =>
    rw [walkFrom_skipped importing resolved (Decidable.not_not.1 seen)]
    exact ih inside

private theorem ownStatements_other {s : Statement} {rest : List Statement} (other : s.import? = none) :
    Program.ownStatements (s :: rest) = s :: Program.ownStatements rest := by
  simp [Program.ownStatements, other]

private theorem ownStatements_import {s : Statement} {rest : List Statement} {decl : ImportDecl}
    (importing : s.import? = some decl) :
    Program.ownStatements (s :: rest) = Program.ownStatements rest := by
  simp [Program.ownStatements, importing]

/-- The imports of a program that some of its statements make. -/
private def ImportsOf (m : Module) (statements : List Statement) : Prop :=
  ∀ s ∈ statements, ∀ decl, s.import? = some decl → decl ∈ m.program.imports

private theorem importsOf_program (m : Module) : ImportsOf m m.program :=
  fun _ hs _ importing => List.mem_filterMap.2 ⟨_, hs, importing⟩

private theorem ImportsOf.tail {m : Module} {s : Statement} {rest : List Statement}
    (h : ImportsOf m (s :: rest)) : ImportsOf m rest :=
  fun other ho => h other (List.mem_cons_of_mem s ho)

/-- Each time a module is entered, its own statements are written once and in source order. -/
private theorem ofModule_written (unique : ∀ n ∈ g.modules, n.id = u.id → n = u)
    (resolves : ∀ n ∈ g.modules, ∀ decl ∈ n.program.imports,
      ∃ target, g.resolveImport n.id decl.specifier.text = some target)
    (chain : List FileId) (m : Module) (statements : List Statement) (hm : m ∈ g.modules)
    (here : m.id ∈ chain) (own : ImportsOf m statements) :
    ofModule u (WalkStep.written m [] (g.walkFrom chain m statements))
      = if m.id = u.id then Program.ownStatements statements
        else (List.replicate (entries u (g.walkFrom chain m statements)) u.program.ownStatements).flatten := by
  induction chain, m, statements using walkFrom.induct g with
  | case1 chain m => simp [WalkStep.written, ofModule, Program.ownStatements, entries]
  | case2 chain m s rest other ih =>
    rw [walkFrom_other other, WalkStep.written, ← List.singleton_append, ofModule_append,
      ih hm here own.tail, ownStatements_other other]
    by_cases inside : m.id = u.id
    · simp [ofModule, inside]
    · have none : ofModule u [(m, s)] = [] := by simp [ofModule, inside]
      rw [if_neg inside, if_neg inside, none]
      rfl
  | case3 chain m s rest decl importing unresolved ih =>
    obtain ⟨target, resolved⟩ := resolves m hm decl (own s List.mem_cons_self decl importing)
    rw [unresolved] at resolved
    cases resolved
  | case4 chain m s rest decl importing target resolved new ihInner ih =>
    have ht := mem_of_resolveImport resolved
    rw [walkFrom_entered importing resolved new, WalkStep.written_enter, ofModule_append,
      ihInner ht List.mem_cons_self (importsOf_program target), ih hm here own.tail,
      entries_enter, ownStatements_import importing]
    by_cases inside : m.id = u.id
    · -- A module that is being written is not entered below.
      have other : target.id ≠ u.id := fun same => new (by rw [same, ← inside]; exact here)
      have none := entries_eq_zero (g := g) (target.id :: chain) target target.program
        (List.mem_cons_of_mem _ (inside ▸ here))
      rw [if_neg other, none, if_pos inside, if_pos inside]
      rfl
    · by_cases same : target.id = u.id
      · obtain rfl := unique target ht same
        have none := entries_eq_zero (g := g) (target.id :: chain) target target.program
          List.mem_cons_self
        rw [if_pos rfl, if_neg inside, if_neg inside, if_pos rfl, none, Nat.add_zero, Nat.add_comm,
          List.replicate_succ, List.flatten_cons]
      · rw [if_neg same, if_neg inside, if_neg inside, if_neg same, Nat.zero_add, List.replicate_add,
          List.flatten_append]
  | case5 chain m s rest decl importing target resolved seen ih =>
    rw [walkFrom_skipped importing resolved (Decidable.not_not.1 seen), ih hm here own.tail,
      ownStatements_import importing]

private theorem ofModule_graph (unique : ∀ n ∈ g.modules, n.id = u.id → n = u)
    (resolves : ∀ n ∈ g.modules, ∀ decl ∈ n.program.imports,
      ∃ target, g.resolveImport n.id decl.specifier.text = some target) :
    ofModule u g.written
      = (List.replicate (g.inlined.countP (·.id = u.id)) u.program.ownStatements).flatten := by
  have hm : g.entry ∈ g.modules := List.head_mem g.ne_nil
  have written := ofModule_written unique resolves [g.entry.id] g.entry g.entry.program hm
    List.mem_cons_self (importsOf_program g.entry)
  rw [ModuleGraph.written, walk, written, inlined, List.countP_cons]
  by_cases same : g.entry.id = u.id
  · have none := entries_eq_zero (g := g) [g.entry.id] g.entry g.entry.program
      (by rw [same]; exact List.mem_cons_self)
    obtain rfl := unique g.entry hm same
    rw [if_pos rfl, walk]
    change _ = (List.replicate (entries g.entry _ + _) _).flatten
    rw [none, if_pos (by simp), List.replicate_one, List.flatten_singleton]
  · rw [if_neg same, if_neg (by simpa using same), Nat.add_zero, walk]
    rfl

variable {s : Sources} {entry : Path}

private theorem unique_of_load (h : load s entry = .ok g) (hu : u ∈ g.modules) :
    ∀ n ∈ g.modules, n.id = u.id → n = u := by
  intro n hn same
  have found := module?_of_load h hn
  rw [same, module?_of_load h hu] at found
  exact (Option.some.inj found).symm

private theorem resolves_of_load (hs : s.Idempotent) (h : load s entry = .ok g) :
    ∀ n ∈ g.modules, ∀ decl ∈ n.program.imports,
      ∃ target, g.resolveImport n.id decl.specifier.text = some target := by
  intro n hn decl hd
  obtain ⟨target, _, resolved, _⟩ := exists_resolveImport hs h hn hd
  exact ⟨target, resolved⟩

private theorem last_le {a : Module} {ms : List Module} {i : FileId}
    (sorted : ((a :: ms).map Module.id).Pairwise (· < ·)) (last : (a :: ms).getLast? = some u)
    (lt : u.id < i) : ∀ n ∈ a :: ms, n.id < i := by
  intro n hn
  obtain ⟨before, eq⟩ := List.getLast?_eq_some_iff.1 last
  rw [eq, List.map_append, List.pairwise_append] at sorted
  rw [eq, List.mem_append] at hn
  rcases hn with hn | hn
  · exact Nat.lt_trans (sorted.2.2 n.id (List.mem_map_of_mem hn) u.id (by simp)) lt
  · obtain rfl : n = u := by simpa using hn
    exact lt

/-- Every module is reached over a chain of imports on which the numbers of modules grow. -/
private theorem exists_chain (hs : s.Idempotent) (h : load s entry = .ok g) {i : Nat}
    (hu : g.modules[i]? = some u) :
    ∃ chain ms, g.along g.entry chain = some ms ∧
      ((g.entry :: ms).map Module.id).Pairwise (· < ·) ∧ (g.entry :: ms).getLast? = some u := by
  induction i using Nat.strongRecOn generalizing u with
  | _ i ih =>
    rcases Nat.eq_zero_or_pos i with rfl | later
    · obtain rfl : u = g.entry := Option.some.inj (hu.symm.trans (entry_of_load h).1)
      exact ⟨[], [], rfl, by simp, rfl⟩
    · obtain ⟨j, n, lt, hn, decl, hd, _, resolved⟩ := exists_importer hs h hu later
      obtain ⟨chain, ms, along, sorted, last⟩ := ih j lt hn
      obtain ⟨k, hk⟩ := List.mem_iff_getElem?.1 hd
      refine ⟨chain ++ [k], ms ++ [u], along_concat along last hk resolved, ?_, ?_⟩
      · have below : n.id < u.id := by
          rw [id_of_load h hn, id_of_load h hu]
          exact lt
        rw [← List.cons_append, List.map_append, List.pairwise_append]
        refine ⟨sorted, by simp, ?_⟩
        intro a ha b hb
        obtain ⟨c, hc, rfl⟩ := List.mem_map.1 ha
        obtain rfl : b = u.id := by simpa using hb
        exact last_le sorted last below c hc
      · rw [← List.cons_append, List.getLast?_concat]

/-- The statements of a module stand in the Go code of a loaded program once for each chain of
imports that leads from the entry to the module and repeats none, and at least once. -/
theorem inlined_once_per_chain (hs : s.Idempotent) (h : load s entry = .ok g) {types : TypeTable}
    {options : Options} {code : String} (emitted : g.toGo types options = .ok code)
    (hu : u ∈ g.modules) :
    ∃ (n : Nat) (codes : List Code), 1 ≤ n ∧ (g.simpleChains u).encard = n ∧ g.inlined.countP (·.id = u.id) = n ∧
      (g.written.filter (·.1.id = u.id)).map Prod.snd
        = (List.replicate n u.program.ownStatements).flatten ∧
      codesOf types g.written = .ok codes ∧ code = options.layout codes := by
  have unique := unique_of_load h hu
  have count := encard_simpleChains unique
  have once : 1 ≤ g.inlined.countP (·.id = u.id) := by
    obtain ⟨i, hi⟩ := List.mem_iff_getElem?.1 hu
    obtain ⟨chain, ms, along, sorted, last⟩ := exists_chain hs h hi
    have simple : chain ∈ g.simpleChains u := ⟨ms, along, sorted.imp Nat.ne_of_lt, last⟩
    have := Set.one_le_encard_iff_nonempty.2 ⟨chain, simple⟩
    rw [count] at this
    exact_mod_cast this
  have separate := ofModule_graph unique (resolves_of_load hs h)
  rw [toGo_eq] at emitted
  cases eq : codesOf types g.written with
  | error failure =>
    rw [eq] at emitted
    cases emitted
  | ok codes =>
    rw [eq] at emitted
    exact ⟨_, codes, once, count, rfl, separate, rfl, (Except.ok.inj emitted).symm⟩

def diamondTypes : TypeTable := diamondGraph.check.toOption.getD .empty

theorem diamond_checks : diamondGraph.check = .ok diamondTypes :=
  eq_ok_of_isSome TypeTable.empty (by decide +kernel)

def diamondCode : String :=
  "package main\n\nimport (\n\t\"fmt\"\n\t\"ts2go/console\"\n)\n\n" ++
    "func base() int \x7b\n\treturn 4\n\x7d\n\n" ++ "func left() int \x7b\n\treturn 2\n\x7d\n\n" ++
    "func base() int \x7b\n\treturn 4\n\x7d\n\n" ++ "func right() int \x7b\n\treturn 3\n\x7d\n\n" ++
    "func main() int \x7b\n\treturn 1\n\x7d\n"

theorem diamond_emits : diamondGraph.toGo diamondTypes .standard = .ok diamondCode :=
  toGo_eq_ok (by decide +kernel)

/-- A function of the file to which two chains of imports lead is written twice. Its import of the
entry adds nothing. -/
theorem diamond_inlined :
    load diamond ⟨"main.ts"⟩ = .ok diamondGraph ∧
      diamondGraph.check = .ok diamondTypes ∧
      diamondGraph.toGo diamondTypes .standard = .ok diamondCode ∧
      ∃ base ∈ diamondGraph.modules, base.path = ⟨"base.ts"⟩ ∧
        (diamondGraph.simpleChains base).encard = 2 ∧ base.program.ownStatements.length = 1 ∧
        (diamondGraph.written.filter (·.1.id = base.id)).map Prod.snd
          = base.program.ownStatements ++ base.program.ownStatements := by
  have twice : ∃ base ∈ diamondGraph.modules, base.path = ⟨"base.ts"⟩ ∧
      base.program.ownStatements.length = 1 ∧
      diamondGraph.inlined.countP (·.id = base.id) = 2 := by
    rw [inlined, walk_eq]
    decide +kernel
  obtain ⟨base, among, path, single, count⟩ := twice
  obtain ⟨n, _, _, chains, times, statements, _⟩ :=
    inlined_once_per_chain diamond_idempotent diamond_loads diamond_emits among
  obtain rfl : n = 2 := times.symm.trans count
  refine ⟨diamond_loads, diamond_checks, diamond_emits, base, among, path, chains, single, ?_⟩
  rw [statements, List.replicate_succ, List.replicate_one, List.flatten_cons, List.flatten_singleton]

end ModuleGraph

end ScriptToGo
