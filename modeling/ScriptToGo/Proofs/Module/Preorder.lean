import ScriptToGo.Proofs.Module.NameIndex
import Mathlib.Logic.Relation

/-! The modules of a loaded program are the files that its entry reaches over imports, in the
preorder of the depth-first walk. -/
namespace ScriptToGo

namespace Sources

/-- A file imports another when it holds a program with an import that leads there. -/
def Imports (s : Sources) (p q : Path) : Prop :=
  ∃ text program, s.read p = .ok text ∧ Program.ofSource text = .ok program ∧
    ∃ decl ∈ program.imports, q = s.canonical (p.resolve decl.specifier.text)

def Reachable (s : Sources) (entry : Path) : Path → Prop :=
  Relation.ReflTransGen s.Imports (s.canonical entry)

/-- A depth-first walk over paths, with the paths seen before and after it in order. A path that
has been seen is skipped; any other is seen before all that it imports, in source order. -/
inductive Preorder (s : Sources) : List Path → List Path → List Path → Prop
  | done (seen : List Path) : Preorder s [] seen seen
  | skip {p : Path} {paths seen after : List Path} (old : p.steps ∈ seen.map Path.steps)
    (rest : Preorder s paths seen after) : Preorder s (p :: paths) seen after
  | see {p : Path} {paths seen below after : List Path} {text : String} {program : Program}
    (new : p.steps ∉ seen.map Path.steps) (readable : s.read p = .ok text)
    (parsed : Program.ofSource text = .ok program)
    (inner : Preorder s (program.imports.map fun i => s.canonical (p.resolve i.specifier.text))
      (seen ++ [p]) below)
    (rest : Preorder s paths below after) : Preorder s (p :: paths) seen after

theorem Preorder.unique {s : Sources} {paths seen one other : List Path}
    (h : s.Preorder paths seen one) (h' : s.Preorder paths seen other) : one = other := by
  induction h generalizing other with
  | done =>
    cases h'
    rfl
  | skip old rest ih =>
    cases h' with
    | skip _ rest' => exact ih rest'
    | see new => exact absurd old new
  | see new readable parsed inner rest ihInner ihRest =>
    cases h' with
    | skip old => exact absurd old new
    | see _ readable' parsed' inner' rest' =>
      obtain rfl := Except.ok.inj (readable.symm.trans readable')
      obtain rfl := Except.ok.inj (parsed.symm.trans parsed')
      obtain rfl := ihInner inner'
      exact ihRest rest'

theorem idempotent_ofFiles (files : List (Path × String)) : (ofFiles files []).Idempotent := by
  intro p q h
  change q.steps = p.normalize.steps at h
  change q.normalize.steps = p.normalize.steps
  rw [Path.steps_normalize, h, ← Path.steps_normalize, Path.steps_normalize_normalize]

def Holds (s : Sources) (p : Path) : Prop :=
  ∃ text program, s.read p = .ok text ∧ Program.ofSource text = .ok program

end Sources

namespace Discovery

variable {s : Sources} {d d' : Discovery}

private theorem Indexed.not_seen (h : Indexed s d) {m : Module}
    (unknown : d.names.lookup m.path.steps = none) :
    m.path.steps ∉ (d.modules.map Module.path).map Path.steps := by
  intro seen
  obtain ⟨p, hp, same⟩ := List.mem_map.1 seen
  obtain ⟨n, hn, rfl⟩ := List.mem_map.1 hp
  have := h.own n hn
  rw [same, unknown] at this
  cases this

theorem Follows.preorder {paths : List Path} (hs : s.Idempotent) (h : Follows s paths d d')
    (plain : ∀ p ∈ paths, p.IsPlain) (hn : Numbered s d) (hd : Indexed s d) :
    s.Preorder (paths.map s.canonical) (d.modules.map Module.path) (d'.modules.map Module.path) := by
  induction h with
  | done => exact .done _
  | @known p _ d _ id found lt rest ih =>
    obtain ⟨m, hm, path_eq⟩ := hd.path_of_lookup hs found
    refine .skip ?_ (ih (fun q hq => plain q (by simp [hq])) (hn.addName lt)
      (hd.addName hs lt (plain _ (by simp)) hm path_eq))
    rw [← path_eq]
    exact List.mem_map_of_mem (List.mem_map_of_mem (List.mem_of_getElem? hm))
  | @fresh p _ d e _ m unknown id_eq path_eq isFrom inner lt _ ihInner ihRest =>
    have hn' := hn.register id_eq path_eq isFrom
    have hd' := hd.register hs unknown id_eq path_eq
    have he := inner.indexed hs (isPlain_targets m) hn' hd'
    have hm : e.modules[m.id]? = some m := inner.getElem?_eq (by simp [register, id_eq])
    have below := ihInner (isPlain_targets m) hn' hd'
    have after := ihRest (fun q hq => plain q (by simp [hq])) ((inner.numbered hn').addName lt)
      (he.addName hs lt (plain _ (by simp)) hm (by rw [path_eq]))
    have inside : s.Preorder (m.program.imports.map fun i => s.canonical (m.path.resolve i.specifier.text))
        (d.modules.map Module.path ++ [m.path]) (e.modules.map Module.path) := by
      simpa [register, Module.targets, Function.comp_def] using below
    rw [List.map_cons, ← path_eq]
    exact .see (hd.not_seen unknown) isFrom.source isFrom.program inside after

end Discovery

namespace ModuleGraph
open Discovery Sources

variable {s : Sources} {entry : Path} {g : ModuleGraph}

theorem reachable_of_mem (hs : s.Idempotent) (h : load s entry = .ok g) {i : Nat} {m : Module}
    (hm : g.modules[i]? = some m) : s.Reachable entry m.path := by
  induction i using Nat.strongRecOn generalizing m with
  | _ i ih =>
    rcases Nat.eq_zero_or_pos i with rfl | later
    · obtain ⟨first, path_eq⟩ := entry_of_load h
      obtain rfl : m = g.entry := Option.some.inj (hm.symm.trans first)
      rw [path_eq]
      exact .refl
    · obtain ⟨j, n, lt, hn, decl, hd, path_eq, _⟩ := exists_importer hs h hm later
      have isFrom := isFrom_of_load h (List.mem_of_getElem? hn)
      exact (ih j lt hn).tail ⟨_, _, isFrom.source, isFrom.program, decl, hd, path_eq⟩

private theorem resolve_eq {p q : Path} (h : p.steps = q.steps) (specifier : String) :
    p.resolve specifier = q.resolve specifier := by
  rw [Path.resolve, Path.resolve, h]

private theorem exists_mem_of_reachable (hs : s.Idempotent) (h : load s entry = .ok g) {p : Path}
    (reachable : s.Reachable entry p) :
    (∃ q, p = s.canonical q) ∧ ∃ m ∈ g.modules, m.path.steps = p.steps := by
  induction reachable with
  | refl =>
    exact ⟨⟨entry, rfl⟩, g.entry, entry_mem g, by rw [(entry_of_load h).2]⟩
  | @tail p q _ imports ih =>
    obtain ⟨⟨r, canonical⟩, m, hm, path_eq⟩ := ih
    obtain ⟨text, program, readable, parsed, decl, hd, rfl⟩ := imports
    refine ⟨⟨_, rfl⟩, ?_⟩
    have isFrom := isFrom_of_load h hm
    have read_eq : s.read m.path = s.read p := by
      obtain ⟨r', canonical'⟩ := canonical_of_load h hm
      rw [canonical', canonical]
      apply s.read_eq
      rw [← canonical', ← canonical, path_eq]
    have source : m.source = text := by
      have := isFrom.source
      rw [read_eq, readable] at this
      exact (Except.ok.inj this).symm
    have program_eq : m.program = program := by
      have := isFrom.program
      rw [source, parsed] at this
      exact (Except.ok.inj this).symm
    obtain ⟨target, ht, _, target_path⟩ := exists_resolveImport hs h hm (program_eq ▸ hd)
    exact ⟨target, ht, by rw [target_path, resolve_eq path_eq]⟩

private theorem nodup_paths (hs : s.Idempotent) (h : load s entry = .ok g) :
    (g.modules.map (·.path.steps)).Nodup := by
  rw [List.nodup_iff_pairwise_ne, List.pairwise_map, List.pairwise_iff_getElem]
  intro i j hi hj lt same
  have eq := eq_of_path hs h (List.getElem_mem hi) (List.getElem_mem hj) same
  have idI := id_of_load h (List.getElem?_eq_getElem hi)
  have idJ := id_of_load h (List.getElem?_eq_getElem hj)
  rw [eq] at idI
  exact Nat.ne_of_lt lt (idI.symm.trans idJ)

theorem preorder_of_load (hs : s.Idempotent) (h : load s entry = .ok g) :
    s.Preorder [s.canonical entry] [] (g.modules.map Module.path) := by
  obtain ⟨m, d, path_eq, isFrom, inner, hn, hi, modules, _⟩ := discovery_of_load h
  have below := inner.preorder hs (isPlain_targets m) hn (hi hs)
  have inside : s.Preorder (m.program.imports.map fun i => s.canonical (m.path.resolve i.specifier.text))
      ([] ++ [m.path]) (d.modules.map Module.path) := by
    simpa [nothing, register, Module.targets, Function.comp_def] using below
  rw [← path_eq, modules]
  exact .see (by simp) isFrom.source isFrom.program inside (.done _)

/-- Loading finds exactly the files that the entry reaches, each one once, and numbers them in the
preorder of the depth-first walk. -/
theorem load_preorder (hs : s.Idempotent) (h : load s entry = .ok g) :
    (∀ (i : Nat) (m : Module), g.modules[i]? = some m → m.id = i) ∧
      (g.modules[0]? = some g.entry ∧ g.entry.path = s.canonical entry) ∧
      (g.modules.map (·.path.steps)).Nodup ∧
      (∀ m ∈ g.modules, s.read m.path = .ok m.source ∧ Program.ofSource m.source = .ok m.program) ∧
      (∀ steps, (∃ m ∈ g.modules, m.path.steps = steps) ↔ ∃ p, s.Reachable entry p ∧ p.steps = steps) ∧
      ∀ order, s.Preorder [s.canonical entry] [] order ↔ order = g.modules.map Module.path := by
  refine ⟨fun i m => id_of_load h, entry_of_load h, nodup_paths hs h, ?_, ?_, ?_⟩
  · intro m hm
    have isFrom := isFrom_of_load h hm
    exact ⟨isFrom.source, isFrom.program⟩
  · intro steps
    constructor
    · rintro ⟨m, hm, path_eq⟩
      obtain ⟨i, hi⟩ := List.mem_iff_getElem?.1 hm
      exact ⟨m.path, reachable_of_mem hs h hi, path_eq⟩
    · rintro ⟨p, reachable, path_eq⟩
      obtain ⟨_, m, hm, same⟩ := exists_mem_of_reachable hs h reachable
      exact ⟨m, hm, same.trans path_eq⟩
  · intro order
    constructor
    · intro walked
      exact walked.unique (preorder_of_load hs h)
    · rintro rfl
      exact preorder_of_load hs h

/-- Two files that both import a third one, which imports the entry that imports both. -/
def diamond : Sources := .ofFiles [
  (⟨"main.ts"⟩, "import './left'\nimport './right'\nfunction main(): number \x7b return 1; \x7d"),
  (⟨"left.ts"⟩, "import './base'\nfunction left(): number \x7b return 2; \x7d"),
  (⟨"right.ts"⟩, "import './base'\nfunction right(): number \x7b return 3; \x7d"),
  (⟨"base.ts"⟩, "import './main'\nfunction base(): number \x7b return 4; \x7d")] []

theorem diamond_idempotent : diamond.Idempotent := idempotent_ofFiles _

theorem diamond_within : (diamond.loadWithin 5 ⟨"main.ts"⟩).isSome = true := by decide +kernel

def diamondGraph : ModuleGraph := (diamond.loadWithin 5 ⟨"main.ts"⟩).get diamond_within

theorem diamond_loads : load diamond ⟨"main.ts"⟩ = .ok diamondGraph :=
  load_of_within (Option.some_get diamond_within).symm

/-- The third file is found from the first of the two, and its import back to the entry adds nothing. -/
theorem diamond_preorder :
    load diamond ⟨"main.ts"⟩ = .ok diamondGraph ∧
      diamondGraph.modules.map Module.path
        = [⟨"main.ts"⟩, ⟨"left.ts"⟩, ⟨"base.ts"⟩, ⟨"right.ts"⟩] ∧
      diamond.Preorder [⟨"main.ts"⟩] [] [⟨"main.ts"⟩, ⟨"left.ts"⟩, ⟨"base.ts"⟩, ⟨"right.ts"⟩] := by
  have paths : diamondGraph.modules.map Module.path
      = [⟨"main.ts"⟩, ⟨"left.ts"⟩, ⟨"base.ts"⟩, ⟨"right.ts"⟩] := by decide +kernel
  obtain ⟨_, _, _, _, _, order⟩ := load_preorder diamond_idempotent diamond_loads
  exact ⟨diamond_loads, paths, (order _).2 paths.symm⟩

end ModuleGraph

end ScriptToGo
