import Mathlib.Data.List.Nodup
import ScriptToGo.Proofs.Module.NameIndex

/-! Whichever provider a program is loaded from, it is loaded from its own files alone. -/
namespace ScriptToGo

namespace Discovery

variable {s : Provider} {d d' : Discovery} {paths : List Path}

/-- Modules have different places, and each place names a module. -/
structure Apart (d : Discovery) : Prop where
  known : ∀ m ∈ d.modules, Known d m.path
  nodup : (d.modules.map (·.path.steps)).Nodup

theorem apart_nothing : Apart nothing := ⟨List.forall_mem_nil _, .nil⟩

theorem Apart.register (h : Apart d) {m : Module} (unknown : d.names.lookup m.path.steps = none) :
    Apart (d.register m) := by
  have named (n : Module) (id : FileId) (found : d.names.lookup n.path.steps = some id) :
      n.path.steps ≠ m.path.steps ∧ Known (d.register m) n.path := by
    have other : n.path.steps ≠ m.path.steps := fun same => by
      rw [same, unknown] at found
      cases found
    exact ⟨other, id, by rwa [lookup_register, if_neg other]⟩
  constructor
  · intro n mem
    rcases mem_register.1 mem with mem | rfl
    · obtain ⟨id, found⟩ := h.known n mem
      exact (named n id found).2
    · exact ⟨d.modules.length, by rw [lookup_register, if_pos rfl]⟩
  · rw [Discovery.register, List.map_append, List.map_singleton, List.nodup_append]
    refine ⟨h.nodup, List.nodup_singleton _, fun steps mem other isOther => ?_⟩
    obtain ⟨n, among, rfl⟩ := List.mem_map.1 mem
    obtain rfl := List.mem_singleton.1 isOther
    obtain ⟨id, found⟩ := h.known n among
    exact (named n id found).1

theorem Apart.addName (h : Apart d) {p : Path} {id : FileId} (lt : id < d.modules.length) :
    Apart (d.addName p id lt) where
  known m mem := by
    obtain ⟨other, found⟩ := h.known m mem
    exact ⟨other, by rw [lookup_addName, found]; rfl⟩
  nodup := h.nodup

theorem Follows.apart (h : Follows s paths d d') (before : Apart d) : Apart d' := by
  induction h with
  | done => exact before
  | known _ lt _ ih => exact ih (before.addName lt)
  | fresh unknown _ _ _ _ lt _ inner rest => exact rest ((inner (before.register unknown)).addName lt)

/-- What is found depends on the modules that are found alone. -/
theorem Follows.of_read {other : Provider} (h : Follows s paths d d')
    (canonical : other.canonical = s.canonical)
    (read : ∀ m ∈ d'.modules, other.read m.path = .ok m.source) : Follows other paths d d' := by
  induction h with
  | done => exact .done _
  | known found lt _ ih => exact .known (canonical ▸ found) lt (ih read)
  | @fresh p paths d e d' m unknown id_eq path_eq isFrom inner lt rest ihInner ihRest =>
    have inside : e.modules ⊆ d'.modules := rest.modules_grow.subset
    have among : m ∈ d'.modules := inside (inner.modules_grow.subset (mem_register.2 (.inr rfl)))
    have isFrom' : m.IsFrom other :=
      ⟨read m among, isFrom.program, by rw [canonical]; exact isFrom.imports⟩
    have inner' := ihInner fun n mem => read n (inside mem)
    exact .fresh unknown id_eq (by rw [canonical]; exact path_eq) isFrom' inner' lt (ihRest read)

end Discovery

namespace Provider

open Discovery

/-- What has been read, with nothing else to read. -/
def keep (s : Provider) (modules : List Module) : Sources where
  read p :=
    match modules.find? (·.path.steps == p.steps) with
    | some m => .ok m.source
    | none => .error Sources.absentReason
  canonical := s.canonical
  places := modules.map (·.path.steps)
  mem_places p text h := by
    split at h
    next m found =>
      have steps := List.find?_some found
      exact List.mem_map.2 ⟨m, List.mem_of_find?_eq_some found, by simpa using steps⟩
    next => cases h
  read_eq p q h := by rw [h]

theorem idempotent_keep {s : Provider} {modules : List Module} :
    (s.keep modules).Idempotent ↔ s.Idempotent := Iff.rfl

theorem read_keep (s : Provider) {modules : List Module} (nodup : (modules.map (·.path.steps)).Nodup)
    {m : Module} (mem : m ∈ modules) : (s.keep modules).read m.path = .ok m.source := by
  have found : modules.find? (·.path.steps == m.path.steps) = some m := by
    cases found : modules.find? (·.path.steps == m.path.steps) with
    | none => exact absurd (List.find?_eq_none.1 found m mem) (by simp)
    | some n =>
      have steps : n.path.steps = m.path.steps := by simpa using List.find?_some found
      rw [List.inj_on_of_nodup_map nodup (List.mem_of_find?_eq_some found) mem steps]
  change (match modules.find? (·.path.steps == m.path.steps) with
    | some m => Except.ok m.source
    | none => .error Sources.absentReason) = _
  rw [found]

/-- Whatever provider a program is loaded from, it is loaded from the finitely many files in it as well,
which are what they are to the provider. -/
theorem Loads.keep {s : Provider} {entry : Path} {g : ModuleGraph} (h : s.Loads entry g) :
    ModuleGraph.load (s.keep g.modules) entry = .ok g ∧
      (∀ m ∈ g.modules, (s.keep g.modules).read m.path = s.read m.path) ∧
      ((s.keep g.modules).Idempotent ↔ s.Idempotent) := by
  obtain ⟨d, id, reads, modules, names⟩ := h
  cases reads with
  | known found => cases found
  | @fresh _ m unknown id_eq path_eq isFrom inner =>
    have apart : Apart d := inner.apart (apart_nothing.register unknown)
    have numbered := inner.numbered ((numbered_nothing s).register id_eq path_eq isFrom)
    rw [modules]
    have read (n : Module) (mem : n ∈ d.modules) := s.read_keep apart.nodup mem
    have among : m ∈ d.modules := inner.modules_grow.subset (mem_register.2 (.inr rfl))
    have kept : Follows (s.keep d.modules) m.targets (nothing.register m) d :=
      inner.of_read rfl read
    have isFrom' : m.IsFrom (s.keep d.modules) := ⟨read m among, isFrom.program, isFrom.imports⟩
    refine ⟨ModuleGraph.load_eq_ok_iff.2 ⟨d, m.id, ?_, modules, names⟩, fun n mem => ?_,
      idempotent_keep⟩
    · exact .fresh unknown id_eq path_eq isFrom' kept
    · exact (read n mem).trans (numbered.isFrom n mem).source.symm

end Provider

end ScriptToGo
