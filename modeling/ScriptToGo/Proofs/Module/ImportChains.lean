import ScriptToGo.Module.Walk
import Mathlib.Data.Set.Card
import Mathlib.Tactic.Ring

/-! A walk enters a module once for each chain of imports that leads there and repeats no module. -/
namespace ScriptToGo

/-- The module that a step of the walk enters. -/
def WalkStep.entered? : WalkStep → Option Module
  | enter m => some m
  | _ => none

namespace ModuleGraph

/-- The modules that a chain of imports leads through. Each import is given by its place among the
imports of the module before. -/
def along (g : ModuleGraph) (m : Module) : List Nat → Option (List Module)
  | [] => some []
  | i :: chain =>
    m.program.imports[i]?.bind fun decl =>
      (g.resolveImport m.id decl.specifier.text).bind fun target =>
        (g.along target chain).map (target :: ·)

/-- The chains of imports from the entry to a module in which no module occurs twice. -/
def simpleChains (g : ModuleGraph) (u : Module) : Set (List Nat) :=
  {chain | ∃ ms, g.along g.entry chain = some ms ∧ ((g.entry :: ms).map Module.id).Nodup ∧
    (g.entry :: ms).getLast? = some u}

/-- The modules whose statements stand in the output, as often as they do. -/
def inlined (g : ModuleGraph) : List Module := g.entry :: g.walk.filterMap WalkStep.entered?

variable {g : ModuleGraph} {m target u : Module}

theorem along_cons {i : Nat} {chain : List Nat} {ms : List Module} :
    g.along m (i :: chain) = some ms ↔ ∃ decl target later, m.program.imports[i]? = some decl ∧
      g.resolveImport m.id decl.specifier.text = some target ∧
      g.along target chain = some later ∧ ms = target :: later := by
  simp only [along, Option.bind_eq_some_iff, Option.map_eq_some_iff]
  constructor
  · rintro ⟨decl, hd, target, ht, later, hl, rfl⟩
    exact ⟨decl, target, later, hd, ht, hl, rfl⟩
  · rintro ⟨decl, target, later, hd, ht, hl, rfl⟩
    exact ⟨decl, hd, target, ht, later, hl, rfl⟩

theorem along_concat {chain : List Nat} {ms : List Module} {i : Nat} {decl : ImportDecl}
    (h : g.along m chain = some ms) (last : (m :: ms).getLast? = some u)
    (hd : u.program.imports[i]? = some decl)
    (resolved : g.resolveImport u.id decl.specifier.text = some target) :
    g.along m (chain ++ [i]) = some (ms ++ [target]) := by
  induction chain generalizing m ms with
  | nil =>
    obtain rfl := Option.some.inj h
    obtain rfl : m = u := Option.some.inj last
    exact along_cons.2 ⟨decl, target, [], hd, resolved, rfl, rfl⟩
  | cons j chain ih =>
    obtain ⟨decl', n, later, hd', resolved', hl, rfl⟩ := along_cons.1 h
    rw [List.getLast?_cons_cons] at last
    exact along_cons.2 ⟨decl', n, later ++ [target], hd', resolved', ih hl last, rfl⟩

/-- The simple chains that avoid some modules. -/
private def avoiding (g : ModuleGraph) (seen : List FileId) (m u : Module) : Set (List Nat) :=
  {chain | ∃ ms, g.along m chain = some ms ∧ ((m :: ms).map Module.id).Nodup ∧
    (∀ n ∈ m :: ms, n.id ∉ seen) ∧ (m :: ms).getLast? = some u}

/-- The simple chains that leave a module over one of its last imports, and then avoid some
modules. -/
private def leaving (g : ModuleGraph) (seen : List FileId) (m u : Module) (i : Nat) : Set (List Nat) :=
  {chain | ∃ j rest ms, chain = j :: rest ∧ i ≤ j ∧ g.along m chain = some ms ∧
    (ms.map Module.id).Nodup ∧ (∀ n ∈ ms, n.id ∉ seen) ∧ ms.getLast? = some u}

private theorem simpleChains_eq (g : ModuleGraph) (u : Module) :
    g.simpleChains u = avoiding g [] g.entry u := by
  simp [simpleChains, avoiding]

private theorem avoiding_eq_empty {seen : List FileId} (h : m.id ∈ seen) : avoiding g seen m u = ∅ := by
  ext chain
  simp only [avoiding, Set.mem_ofPred_eq, Set.mem_empty_iff_false, iff_false]
  rintro ⟨ms, _, _, avoids, _⟩
  exact avoids m List.mem_cons_self h

private theorem avoiding_eq_union {seen : List FileId} (h : m.id ∉ seen) :
    avoiding g seen m u = {chain | chain = [] ∧ m = u} ∪ leaving g (m.id :: seen) m u 0 := by
  ext chain
  simp only [avoiding, leaving, Set.mem_ofPred_eq, Set.mem_union]
  constructor
  · rintro ⟨ms, along, nodup, avoids, last⟩
    cases chain with
    | nil =>
      obtain rfl := Option.some.inj along
      exact .inl ⟨rfl, Option.some.inj last⟩
    | cons j rest =>
      right
      obtain ⟨_, target, later, _, _, _, rfl⟩ := along_cons.1 along
      rw [List.map_cons, List.nodup_cons] at nodup
      refine ⟨j, rest, _, rfl, Nat.zero_le j, along, nodup.2, ?_, last⟩
      intro n hn seen
      rcases List.mem_cons.1 seen with same | seen
      · exact nodup.1 (same ▸ List.mem_map_of_mem hn)
      · exact avoids n (List.mem_cons_of_mem m hn) seen
  · rintro (⟨rfl, rfl⟩ | ⟨j, rest, ms, rfl, _, along, nodup, avoids, last⟩)
    · exact ⟨[], rfl, by simp, by simpa using h, rfl⟩
    · refine ⟨ms, along, ?_, ?_, ?_⟩
      · rw [List.map_cons, List.nodup_cons]
        refine ⟨fun again => ?_, nodup⟩
        obtain ⟨n, hn, same⟩ := List.mem_map.1 again
        exact avoids n hn (same ▸ List.mem_cons_self)
      · intro n hn seen
        rcases List.mem_cons.1 hn with rfl | hn
        · exact h seen
        · exact avoids n hn (List.mem_cons_of_mem _ seen)
      · obtain ⟨_, target, later, _, _, _, rfl⟩ := along_cons.1 along
        exact last

private theorem leaving_of_none {seen : List FileId} {i : Nat} (none : m.program.imports[i]? = none) :
    leaving g seen m u i = ∅ := by
  ext chain
  simp only [leaving, Set.mem_ofPred_eq, Set.mem_empty_iff_false, iff_false]
  rintro ⟨j, rest, ms, rfl, le, along, _⟩
  obtain ⟨decl, _, _, hd, _⟩ := along_cons.1 along
  have := List.getElem?_eq_none_iff.1 none
  have := (List.getElem?_eq_some_iff.1 hd).1
  omega

private theorem leaving_of_some {seen : List FileId} {i : Nat} {decl : ImportDecl}
    (hd : m.program.imports[i]? = some decl)
    (resolved : g.resolveImport m.id decl.specifier.text = some target) :
    leaving g seen m u i = (i :: ·) '' avoiding g seen target u ∪ leaving g seen m u (i + 1) := by
  ext chain
  simp only [avoiding, leaving, Set.mem_ofPred_eq, Set.mem_union, Set.mem_image]
  constructor
  · rintro ⟨j, rest, ms, rfl, le, along, nodup, avoids, last⟩
    rcases Nat.eq_or_lt_of_le le with rfl | lt
    · obtain ⟨decl', target', later, hd', resolved', below, rfl⟩ := along_cons.1 along
      obtain rfl := Option.some.inj (hd.symm.trans hd')
      obtain rfl := Option.some.inj (resolved.symm.trans resolved')
      exact .inl ⟨rest, ⟨later, below, nodup, avoids, last⟩, rfl⟩
    · exact .inr ⟨j, rest, ms, rfl, lt, along, nodup, avoids, last⟩
  · rintro (⟨rest, ⟨later, along, nodup, avoids, last⟩, rfl⟩ | ⟨j, rest, ms, rfl, lt, others⟩)
    · exact ⟨i, rest, target :: later, rfl, Nat.le_refl i,
        along_cons.2 ⟨decl, target, later, hd, resolved, along, rfl⟩, nodup, avoids, last⟩
    · exact ⟨j, rest, ms, rfl, Nat.le_of_succ_le lt, others⟩

private theorem leaving_of_unresolved {seen : List FileId} {i : Nat} {decl : ImportDecl}
    (hd : m.program.imports[i]? = some decl)
    (unresolved : g.resolveImport m.id decl.specifier.text = none) :
    leaving g seen m u i = leaving g seen m u (i + 1) := by
  ext chain
  simp only [leaving, Set.mem_ofPred_eq]
  constructor
  · rintro ⟨j, rest, ms, rfl, le, along, others⟩
    refine ⟨j, rest, ms, rfl, Nat.lt_of_le_of_ne le ?_, along, others⟩
    rintro rfl
    obtain ⟨decl', target', _, hd', resolved, _⟩ := along_cons.1 along
    obtain rfl := Option.some.inj (hd.symm.trans hd')
    rw [unresolved] at resolved
    cases resolved
  · rintro ⟨j, rest, ms, rfl, lt, others⟩
    exact ⟨j, rest, ms, rfl, Nat.le_of_succ_le lt, others⟩

private theorem encard_leaving_of_some {seen : List FileId} {i : Nat} {decl : ImportDecl}
    (hd : m.program.imports[i]? = some decl)
    (resolved : g.resolveImport m.id decl.specifier.text = some target) :
    (leaving g seen m u i).encard
      = (avoiding g seen target u).encard + (leaving g seen m u (i + 1)).encard := by
  have apart : Disjoint ((i :: ·) '' avoiding g seen target u) (leaving g seen m u (i + 1)) := by
    rw [Set.disjoint_left]
    rintro _ ⟨rest, _, rfl⟩ ⟨j, rest', _, eq, lt, _⟩
    obtain rfl := (List.cons.inj eq).1
    exact Nat.lt_irrefl i lt
  have injective : Function.Injective (i :: · : List Nat → List Nat) :=
    fun a b eq => (List.cons.inj eq).2
  rw [leaving_of_some hd resolved, Set.encard_union_eq apart, injective.encard_image]

private theorem encard_avoiding {seen : List FileId} (h : m.id ∉ seen) (unique : m.id = u.id → m = u) :
    (avoiding g seen m u).encard
      = (if m.id = u.id then 1 else 0) + (leaving g (m.id :: seen) m u 0).encard := by
  have apart : Disjoint {chain : List Nat | chain = [] ∧ m = u} (leaving g (m.id :: seen) m u 0) := by
    rw [Set.disjoint_left]
    rintro chain ⟨rfl, _⟩ ⟨j, rest, _, eq, _⟩
    cases eq
  rw [avoiding_eq_union h, Set.encard_union_eq apart]
  congr 1
  split
  · rename_i same
    simp [unique same]
  · rename_i other
    have : m ≠ u := fun eq => other (congrArg Module.id eq)
    simp [this]

private theorem imports_cons {s : Statement} {rest : List Statement} {i : Nat} {decl : ImportDecl}
    (h : Program.imports (s :: rest) = m.program.imports.drop i) (importing : s.import? = some decl) :
    m.program.imports[i]? = some decl ∧ Program.imports rest = m.program.imports.drop (i + 1) := by
  rw [Program.imports, List.filterMap_cons_some importing] at h
  constructor
  · rw [← List.head?_drop, ← h, List.head?_cons]
  · rw [← List.tail_drop, ← h, List.tail_cons, Program.imports]

/-- A walk through the last statements of a module enters another as often as simple chains over
the imports among these statements lead there. -/
private theorem encard_leaving (unique : ∀ n ∈ g.modules, n.id = u.id → n = u) (chain : List FileId)
    (m : Module) (statements : List Statement) (i : Nat)
    (last : Program.imports statements = m.program.imports.drop i) :
    (leaving g chain m u i).encard
      = ((g.walkFrom chain m statements).filterMap WalkStep.entered?).countP (·.id = u.id) := by
  induction chain, m, statements using walkFrom.induct g generalizing i with
  | case1 chain m =>
    have none : m.program.imports[i]? = none := by
      rw [← List.head?_drop, ← last]
      rfl
    rw [leaving_of_none none, walkFrom_nil]
    simp
  | case2 chain m s rest other ih =>
    rw [walkFrom_other other]
    apply ih
    rw [← last, Program.imports, Program.imports, List.filterMap_cons_none other]
  | case3 chain m s rest decl importing unresolved ih =>
    obtain ⟨hd, last⟩ := imports_cons last importing
    rw [walkFrom_unresolved importing unresolved, leaving_of_unresolved hd unresolved]
    exact ih (i + 1) last
  | case4 chain m s rest decl importing target resolved new ihInner ih =>
    obtain ⟨hd, last⟩ := imports_cons last importing
    have here := unique target (mem_of_resolveImport resolved)
    rw [walkFrom_entered importing resolved new, encard_leaving_of_some hd resolved,
      encard_avoiding new here, ihInner 0 (List.drop_zero ..).symm, ih (i + 1) last]
    simp only [List.cons_append, List.filterMap_cons, List.filterMap_append, WalkStep.entered?,
      List.countP_cons, List.countP_append, decide_eq_true_eq]
    push_cast
    split
    · ring
    · rw [zero_add, add_zero]
  | case5 chain m s rest decl importing target resolved seen ih =>
    obtain ⟨hd, last⟩ := imports_cons last importing
    rw [walkFrom_skipped importing resolved (Decidable.not_not.1 seen), leaving_of_some hd resolved,
      avoiding_eq_empty (Decidable.not_not.1 seen), Set.image_empty, Set.empty_union]
    exact ih (i + 1) last

/-- A module stands in the output as often as there are simple chains of imports to it. -/
theorem encard_simpleChains (unique : ∀ n ∈ g.modules, n.id = u.id → n = u) :
    (g.simpleChains u).encard = g.inlined.countP (·.id = u.id) := by
  have new : g.entry.id ∉ ([] : List FileId) := List.not_mem_nil
  have below := encard_leaving unique [g.entry.id] g.entry g.entry.program 0 (List.drop_zero ..).symm
  rw [simpleChains_eq, encard_avoiding new (unique _ (List.head_mem g.ne_nil)), below, inlined, walk,
    List.countP_cons]
  simp only [decide_eq_true_eq]
  push_cast
  split
  · ring
  · rw [zero_add, add_zero]

end ModuleGraph

end ScriptToGo
