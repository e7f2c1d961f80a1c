import ScriptToGo.Module.Loader
import ScriptToGo.Proofs.Module.ResolvedPath

/-! How discovery goes on along import paths. Every path that names a module during discovery names the
one that its canonical path names, and so it is in every graph of modules that has been loaded. -/
namespace ScriptToGo

/-- The paths that the imports of a module name, in source order. -/
def Module.targets (m : Module) : List Path :=
  m.program.imports.map fun i => m.path.resolve i.specifier.text

/-- A module holds what its file says. -/
structure Module.IsFrom (s : Provider) (m : Module) : Prop where
  source : s.read m.path = .ok m.source
  program : Program.ofSource m.source = .ok m.program
  imports : m.imports = m.targets.map s.canonical

namespace Discovery

/-- Paths are followed one after the other. A path to a known module is passed over; any other
module is registered, and its own imports are followed before the remaining paths. -/
inductive Follows (s : Provider) : List Path → Discovery → Discovery → Prop
  | done (d : Discovery) : Follows s [] d d
  | known {p : Path} {paths : List Path} {d d' : Discovery} {id : FileId}
    (found : d.names.lookup (s.canonical p).steps = some id) (lt : id < d.modules.length)
    (rest : Follows s paths (d.addName p id lt) d') : Follows s (p :: paths) d d'
  | fresh {p : Path} {paths : List Path} {d e d' : Discovery} {m : Module}
    (unknown : d.names.lookup m.path.steps = none) (id_eq : m.id = d.modules.length)
    (path_eq : m.path = s.canonical p) (isFrom : m.IsFrom s)
    (inner : Follows s m.targets (d.register m) e) (lt : m.id < e.modules.length)
    (rest : Follows s paths (e.addName p m.id lt) d') : Follows s (p :: paths) d d'

/-- A module is visited when it is known, or when it is registered and its imports are followed. -/
inductive Reads (s : Provider) (p : Path) (d : Discovery) : Discovery → FileId → Prop
  | known {id : FileId} (found : d.names.lookup (s.canonical p).steps = some id) : Reads s p d d id
  | fresh {e : Discovery} {m : Module}
    (unknown : d.names.lookup m.path.steps = none) (id_eq : m.id = d.modules.length)
    (path_eq : m.path = s.canonical p) (isFrom : m.IsFrom s)
    (inner : Follows s m.targets (d.register m) e) : Reads s p d e m.id

theorem Reads.follows {s : Provider} {p : Path} {paths : List Path} {d e d' : Discovery} {id : FileId}
    (h : Reads s p d e id) (lt : id < e.modules.length)
    (rest : Follows s paths (e.addName p id lt) d') : Follows s (p :: paths) d d' := by
  cases h with
  | known found => exact .known found lt rest
  | fresh unknown id_eq path_eq isFrom inner =>
    exact .fresh unknown id_eq path_eq isFrom inner lt rest

variable {s : Sources}

/-- The module that is found at a path which discovery does not know yet. -/
abbrev found (s : Provider) (p : Path) (d : Discovery) (text : String) (program : Program) : Module :=
  ⟨d.modules.length, s.canonical p, text, program,
    (program.imports.map fun i => (s.canonical p).resolve i.specifier.text).map s.canonical⟩

theorem visit_ok {p : Path} {d : Discovery} {v : Visited s d} (h : visit s p d = .ok v) :
    (d.names.lookup (s.canonical p).steps = some v.id ∧ v.next = d) ∨
      ∃ text program later, d.names.lookup (s.canonical p).steps = none ∧
        s.read (s.canonical p) = .ok text ∧ Program.ofSource text = .ok program ∧
        visitAll s (found s p d text program).targets (d.register (found s p d text program))
          = .ok later ∧
        v.next = later.next ∧ v.id = d.modules.length := by
  rw [visit] at h
  split at h
  · rename_i id known
    cases h
    exact .inl ⟨known, rfl⟩
  · rename_i unknown
    split at h
    · cases h
    · rename_i text readable
      split at h
      · cases h
      · rename_i program parsed
        simp only at h
        split at h
        · cases h
        · rename_i later inner
          cases h
          exact .inr ⟨text, program, later, unknown, readable, parsed, inner, rfl, rfl⟩

theorem visitAll_cons_ok {p : Path} {paths : List Path} {d : Discovery} {l : Later s d}
    (h : visitAll s (p :: paths) d = .ok l) :
    ∃ v later, visit s p d = .ok v ∧
      visitAll s paths (v.next.addName p v.id v.id_lt) = .ok later ∧ l.next = later.next := by
  rw [visitAll] at h
  split at h
  · cases h
  · rename_i v visited
    simp only at h
    split at h
    · cases h
    · rename_i later rest
      cases h
      exact ⟨v, later, visited, rest, rfl⟩

mutual

theorem reads_of_visit {p : Path} {d : Discovery} {v : Visited s d} (h : visit s p d = .ok v) :
    Reads s p d v.next v.id := by
  rcases visit_ok h with ⟨known, next⟩ | ⟨text, program, later, unknown, readable, parsed, inner, next, id⟩
  · rw [next]
    exact .known known
  · rw [next, id]
    have closed : (d.register (found s p d text program)).pending s < d.pending s :=
      pending_register (s.mem_places p text readable) unknown
    exact .fresh unknown rfl rfl ⟨readable, parsed, rfl⟩ (follows_of_visitAll inner)
termination_by (d.pending s, 0)

theorem follows_of_visitAll {paths : List Path} {d : Discovery} {l : Later s d}
    (h : visitAll s paths d = .ok l) : Follows s paths d l.next := by
  match paths with
  | [] =>
    rw [visitAll] at h
    cases h
    exact .done d
  | p :: paths =>
    obtain ⟨v, later, visited, rest, next⟩ := visitAll_cons_ok h
    have fewer : (v.next.addName p v.id v.id_lt).pending s ≤ d.pending s :=
      Nat.le_trans (pending_addName ..) v.pending_le
    rw [next]
    exact (reads_of_visit visited).follows v.id_lt (follows_of_visitAll rest)
termination_by (d.pending s, paths.length + 1)
decreasing_by
  · exact Prod.Lex.right _ (Nat.succ_pos _)
  · rcases Nat.lt_or_eq_of_le fewer with h | h
    · exact Prod.Lex.left _ _ h
    · rw [h]; exact Prod.Lex.right _ (Nat.lt_succ_self _)

end

theorem visit_known {p : Path} {d : Discovery} {id : FileId}
    (known : d.names.lookup (s.canonical p).steps = some id) :
    ∃ v, visit s p d = .ok v ∧ v.next = d ∧ v.id = id := by
  rw [visit]
  split
  next other found =>
    obtain rfl : id = other := Option.some.inj (known.symm.trans found)
    exact ⟨_, rfl, rfl, rfl⟩
  next unknown =>
    rw [known] at unknown
    cases unknown

theorem exists_found {p : Path} {d : Discovery} {m : Module} (id_eq : m.id = d.modules.length)
    (path_eq : m.path = s.canonical p) (isFrom : m.IsFrom s) :
    ∃ text program, m = found s p d text program := by
  obtain ⟨id, path, text, program, paths⟩ := m
  obtain rfl := id_eq
  obtain rfl := path_eq
  exact ⟨text, program, congrArg (Module.mk _ _ text program) isFrom.imports⟩

theorem visit_fresh {p : Path} {d : Discovery} {m : Module}
    (unknown : d.names.lookup m.path.steps = none) (id_eq : m.id = d.modules.length)
    (path_eq : m.path = s.canonical p) (isFrom : m.IsFrom s) {later : Later s (d.register m)}
    (inner : visitAll s m.targets (d.register m) = .ok later) :
    ∃ v, visit s p d = .ok v ∧ v.next = later.next ∧ v.id = m.id := by
  obtain ⟨text, program, rfl⟩ := exists_found id_eq path_eq isFrom
  have readable : s.read (s.canonical p) = .ok text := isFrom.source
  have parsed : Program.ofSource text = .ok program := isFrom.program
  have inner : visitAll s (program.imports.map fun i => (s.canonical p).resolve i.specifier.text)
      (d.register (found s p d text program)) = .ok later := inner
  rw [visit]
  split
  next id known =>
    rw [unknown] at known
    cases known
  next =>
    split
    next failed =>
      rw [readable] at failed
      cases failed
    next text' readable' =>
      obtain rfl : text = text' := Except.ok.inj (readable.symm.trans readable')
      simp only [parsed, inner]
      exact ⟨_, rfl, rfl, rfl⟩

theorem visitAll_cons {p : Path} {paths : List Path} {d : Discovery} {v : Visited s d}
    (visited : visit s p d = .ok v) {later : Later s (v.next.addName p v.id v.id_lt)}
    (rest : visitAll s paths (v.next.addName p v.id v.id_lt) = .ok later) :
    ∃ l, visitAll s (p :: paths) d = .ok l ∧ l.next = later.next := by
  rw [visitAll, visited]
  simp only [rest]
  exact ⟨_, rfl, rfl⟩

theorem visitAll_of_follows {paths : List Path} {d d' : Discovery} (h : Follows s paths d d') :
    ∃ l, visitAll s paths d = .ok l ∧ l.next = d' := by
  have step {p : Path} {paths : List Path} {d e d' : Discovery} {id : FileId}
      (visited : ∃ v, visit s p d = .ok v ∧ v.next = e ∧ v.id = id) (lt : id < e.modules.length)
      (rest : ∃ l, visitAll s paths (e.addName p id lt) = .ok l ∧ l.next = d') :
      ∃ l, visitAll s (p :: paths) d = .ok l ∧ l.next = d' := by
    obtain ⟨v, visited, rfl, rfl⟩ := visited
    obtain ⟨later, rest, rfl⟩ := rest
    exact visitAll_cons visited rest
  induction h with
  | done d =>
    rw [visitAll]
    exact ⟨_, rfl, rfl⟩
  | known found lt _ ih => exact step (visit_known found) lt ih
  | fresh unknown id_eq path_eq isFrom _ lt _ inner rest =>
    obtain ⟨later, inner, rfl⟩ := inner
    exact step (visit_fresh unknown id_eq path_eq isFrom inner) lt rest

theorem visit_of_reads {p : Path} {d e : Discovery} {id : FileId} (h : Reads s p d e id) :
    ∃ v, visit s p d = .ok v ∧ v.next = e ∧ v.id = id := by
  cases h with
  | known found => exact visit_known found
  | fresh unknown id_eq path_eq isFrom inner =>
    obtain ⟨later, visited, rfl⟩ := visitAll_of_follows inner
    exact visit_fresh unknown id_eq path_eq isFrom visited

end Discovery

/-- A program is loaded once its entry is read, with all that it imports. No provider has to know how
many files there are for that. -/
def Provider.Loads (s : Provider) (entry : Path) (g : ModuleGraph) : Prop :=
  ∃ d id, Discovery.Reads s entry .nothing d id ∧ g.modules = d.modules ∧ g.names = d.names

/-- Loading finds what is loaded. -/
theorem ModuleGraph.load_eq_ok_iff {s : Sources} {entry : Path} {g : ModuleGraph} :
    load s entry = .ok g ↔ s.Loads entry g := by
  rw [load]
  constructor
  · intro h
    split at h
    · cases h
    next v visited =>
      cases h
      exact ⟨v.next, v.id, Discovery.reads_of_visit visited, rfl, rfl⟩
  · rintro ⟨d, id, reads, modules, names⟩
    obtain ⟨v, visited, rfl, -⟩ := Discovery.visit_of_reads reads
    obtain ⟨_, _, _⟩ := g
    obtain rfl := modules
    obtain rfl := names
    rw [visited]

theorem eq_ok_of_toOption {ε α : Type} {x : Except ε α} {a : α} (h : x.toOption = some a) :
    x = .ok a := by
  cases x with
  | error => cases h
  | ok => exact congrArg Except.ok (Option.some.inj h)

/-- What has a result gives it. -/
theorem eq_ok_of_isSome {ε α : Type} {x : Except ε α} (default : α)
    (h : x.toOption.isSome = true) : x = .ok (x.toOption.getD default) := by
  obtain ⟨a, is⟩ := Option.isSome_iff_exists.1 h
  rw [is]
  exact eq_ok_of_toOption is

namespace Discovery

/-- Follows paths as `Follows` does, in at most some number of steps. -/
def followWithin (s : Provider) : Nat → List Path → Discovery → Option Discovery
  | _, [], d => some d
  | 0, _ :: _, _ => none
  | steps + 1, p :: paths, d =>
    match known : d.names.lookup (s.canonical p).steps with
    | some id => followWithin s steps paths (d.addName p id (d.valid _ _ known))
    | none => do
      let text ← (s.read (s.canonical p)).toOption
      let program ← (Program.ofSource text).toOption
      let m := found s p d text program
      let e ← followWithin s steps m.targets (d.register m)
      if lt : m.id < e.modules.length then followWithin s steps paths (e.addName p m.id lt) else none

theorem isFrom_found {s : Provider} {p : Path} {d : Discovery} {text : String} {program : Program}
    (readable : (s.read (s.canonical p)).toOption = some text)
    (parsed : (Program.ofSource text).toOption = some program) :
    (found s p d text program).IsFrom s :=
  ⟨eq_ok_of_toOption readable, eq_ok_of_toOption parsed, rfl⟩

theorem follows_of_within {s : Provider} {steps : Nat} {paths : List Path} {d d' : Discovery}
    (h : followWithin s steps paths d = some d') : Follows s paths d d' := by
  induction steps generalizing paths d d' with
  | zero =>
    cases paths with
    | nil =>
      obtain rfl := Option.some.inj h
      exact .done _
    | cons => cases h
  | succ steps ih =>
    cases paths with
    | nil =>
      obtain rfl := Option.some.inj h
      exact .done _
    | cons p paths =>
      rw [followWithin] at h
      split at h
      next id known => exact .known known (d.valid _ _ known) (ih h)
      next unknown =>
        obtain ⟨text, readable, h⟩ := Option.bind_eq_some_iff.1 h
        obtain ⟨program, parsed, h⟩ := Option.bind_eq_some_iff.1 h
        obtain ⟨e, inner, h⟩ := Option.bind_eq_some_iff.1 h
        split at h
        next lt =>
          exact .fresh (m := found s p d text program) unknown rfl rfl (isFrom_found readable parsed)
            (ih inner) lt (ih h)
        next => cases h

end Discovery

/-- What is loaded, if some number of steps is enough for that. -/
def Provider.loadWithin (s : Provider) (steps : Nat) (entry : Path) : Option ModuleGraph := do
  let text ← (s.read (s.canonical entry)).toOption
  let program ← (Program.ofSource text).toOption
  let m := Discovery.found s entry .nothing text program
  let d ← Discovery.followWithin s steps m.targets (Discovery.nothing.register m)
  if ne_nil : d.modules ≠ [] then some ⟨d.modules, d.names, ne_nil⟩ else none

theorem Provider.loads_of_within {s : Provider} {steps : Nat} {entry : Path} {g : ModuleGraph}
    (h : s.loadWithin steps entry = some g) : s.Loads entry g := by
  obtain ⟨text, readable, h⟩ := Option.bind_eq_some_iff.1 h
  obtain ⟨program, parsed, h⟩ := Option.bind_eq_some_iff.1 h
  obtain ⟨d, inner, h⟩ := Option.bind_eq_some_iff.1 h
  split at h
  next =>
    obtain rfl := Option.some.inj h
    exact ⟨d, _, .fresh rfl rfl rfl (Discovery.isFrom_found readable parsed)
      (Discovery.follows_of_within inner), rfl, rfl⟩
  next => cases h

theorem ModuleGraph.load_of_within {s : Sources} {steps : Nat} {entry : Path} {g : ModuleGraph}
    (h : s.loadWithin steps entry = some g) : load s entry = .ok g :=
  load_eq_ok_iff.2 (Provider.loads_of_within h)

namespace Discovery

private theorem Reads.from_nothing {s : Provider} {p : Path} {d : Discovery} {id : FileId}
    (h : Reads s p nothing d id) :
    ∃ m, m.id = 0 ∧ m.path = s.canonical p ∧ m.IsFrom s ∧
      Follows s m.targets (nothing.register m) d := by
  cases h with
  | known found => simp [nothing] at found
  | fresh _ id_eq path_eq isFrom inner => exact ⟨_, id_eq, path_eq, isFrom, inner⟩

theorem follows_of_loads {s : Provider} {entry : Path} {g : ModuleGraph} (h : s.Loads entry g) :
    ∃ m d, m.id = 0 ∧ m.path = s.canonical entry ∧ m.IsFrom s ∧
      Follows s m.targets (nothing.register m) d ∧ g.modules = d.modules ∧ g.names = d.names := by
  obtain ⟨d, _, reads, modules, names⟩ := h
  obtain ⟨m, id_eq, path_eq, isFrom, inner⟩ := reads.from_nothing
  exact ⟨m, d, id_eq, path_eq, isFrom, inner, modules, names⟩

end Discovery

/-- A canonical path stands for itself, however it is spelled. -/
def Provider.Idempotent (s : Provider) : Prop :=
  ∀ p q, q.steps = (s.canonical p).steps → (s.canonical q).steps = (s.canonical p).steps

namespace Discovery

variable {s : Provider} {d d' : Discovery}

/-- Steps name a module when every plain or canonical path with these steps stands for its file. -/
def Names (s : Provider) (steps : List Step) (m : Module) : Prop :=
  ∀ q, q.steps = steps → (q.IsPlain ∨ ∃ p, q = s.canonical p) →
    (s.canonical q).steps = m.path.steps

/-- What holds of the modules at every moment of discovery. -/
structure Numbered (s : Provider) (d : Discovery) : Prop where
  id_eq : ∀ (i : Nat) (m : Module), d.modules[i]? = some m → m.id = i
  isFrom : ∀ m ∈ d.modules, m.IsFrom s
  canonical : ∀ m ∈ d.modules, ∃ p, m.path = s.canonical p

/-- What holds of the names at every moment of discovery. -/
structure Indexed (s : Provider) (d : Discovery) : Prop where
  own : ∀ m ∈ d.modules, d.names.lookup m.path.steps = some m.id
  names : ∀ (steps : List Step) (id : FileId), d.names.lookup steps = some id →
    ∃ m, d.modules[id]? = some m ∧ Names s steps m

private theorem getElem?_register {m n : Module} {i : Nat} :
    (d.register m).modules[i]? = some n ↔
      d.modules[i]? = some n ∨ i = d.modules.length ∧ m = n := by
  change (d.modules ++ [m])[i]? = some n ↔ _
  rcases Nat.lt_trichotomy i d.modules.length with h | h | h
  · rw [List.getElem?_append_left h]
    simp [Nat.ne_of_lt h]
  · subst h
    simp
  · have outside : (d.modules ++ [m]).length ≤ i := by
      rw [List.length_append]
      exact h
    simp only [List.getElem?_eq_none outside, List.getElem?_eq_none (Nat.le_of_lt h),
      Nat.ne_of_gt h, reduceCtorEq, false_and, or_false]

theorem mem_register {m n : Module} : n ∈ (d.register m).modules ↔ n ∈ d.modules ∨ n = m := by
  change n ∈ d.modules ++ [m] ↔ _
  simp

theorem lookup_register {m : Module} {steps : List Step} :
    (d.register m).names.lookup steps
      = if steps = m.path.steps then some d.modules.length else d.names.lookup steps := by
  change ((m.path.steps, d.modules.length) :: d.names).lookup steps = _
  rw [List.lookup_cons]
  by_cases h : steps = m.path.steps
  · simp [h]
  · simp [h, beq_eq_false_iff_ne.2 h]

theorem lookup_addName {p : Path} {id : FileId} {lt : id < d.modules.length}
    {steps : List Step} :
    (d.addName p id lt).names.lookup steps
      = (d.names.lookup steps).or (if steps = p.steps then some id else none) := by
  change (d.names ++ [(p.steps, id)]).lookup steps = _
  rw [List.lookup_append, List.lookup_cons]
  by_cases h : steps = p.steps
  · simp [h]
  · simp [h, beq_eq_false_iff_ne.2 h]

namespace Follows

variable {paths : List Path}

theorem modules_grow (h : Follows s paths d d') : d.modules <+: d'.modules := by
  induction h with
  | done => exact List.prefix_refl _
  | known _ _ _ ih => exact ih
  | fresh _ _ _ _ _ _ _ inner rest => exact (List.prefix_append _ _).trans (inner.trans rest)

theorem getElem?_eq (h : Follows s paths d d') {i : Nat} {m : Module}
    (hm : d.modules[i]? = some m) : d'.modules[i]? = some m := by
  obtain ⟨later, eq⟩ := h.modules_grow
  obtain ⟨lt, _⟩ := List.getElem?_eq_some_iff.1 hm
  rw [← eq, List.getElem?_append_left lt, hm]

theorem lookup_eq (h : Follows s paths d d') {steps : List Step} {id : FileId}
    (found : d.names.lookup steps = some id) : d'.names.lookup steps = some id := by
  induction h with
  | done => exact found
  | known _ _ _ ih =>
    apply ih
    simp [lookup_addName, found]
  | @fresh _ _ _ _ _ m unknown _ _ _ _ _ _ inner rest =>
    have other : steps ≠ m.path.steps := by
      rintro rfl
      simp [unknown] at found
    apply rest
    rw [lookup_addName, inner (by rw [lookup_register, if_neg other, found])]
    rfl

end Follows

theorem numbered_nothing (s : Provider) : Numbered s nothing := by
  constructor <;> simp [nothing]

theorem Numbered.register (h : Numbered s d) {p : Path} {m : Module} (id_eq : m.id = d.modules.length)
    (path_eq : m.path = s.canonical p) (isFrom : m.IsFrom s) : Numbered s (d.register m) := by
  constructor
  · intro i n hn
    rcases getElem?_register.1 hn with hn | ⟨rfl, rfl⟩
    · exact h.id_eq i n hn
    · exact id_eq
  · intro n hn
    rcases mem_register.1 hn with hn | rfl
    · exact h.isFrom n hn
    · exact isFrom
  · intro n hn
    rcases mem_register.1 hn with hn | rfl
    · exact h.canonical n hn
    · exact ⟨p, path_eq⟩

theorem Numbered.addName (h : Numbered s d) {p : Path} {id : FileId} (lt : id < d.modules.length) :
    Numbered s (d.addName p id lt) :=
  ⟨h.id_eq, h.isFrom, h.canonical⟩

theorem Follows.numbered {paths : List Path} (h : Follows s paths d d') (hd : Numbered s d) :
    Numbered s d' := by
  induction h with
  | done => exact hd
  | known _ lt _ ih => exact ih (hd.addName lt)
  | fresh _ id_eq path_eq isFrom _ lt _ inner rest =>
    exact rest ((inner (hd.register id_eq path_eq isFrom)).addName lt)

/-- A name that is canonical leads to the module of that very path. -/
theorem Indexed.path_of_lookup (hs : s.Idempotent) (h : Indexed s d) {p : Path} {id : FileId}
    (found : d.names.lookup (s.canonical p).steps = some id) :
    ∃ m, d.modules[id]? = some m ∧ m.path.steps = (s.canonical p).steps := by
  obtain ⟨m, hm, names⟩ := h.names _ _ found
  refine ⟨m, hm, ?_⟩
  rw [← names _ rfl (.inr ⟨p, rfl⟩)]
  exact hs p _ rfl

theorem indexed_nothing (s : Provider) : Indexed s nothing := by
  constructor <;> simp [nothing]

theorem Indexed.register (hs : s.Idempotent) (h : Indexed s d) {p : Path} {m : Module}
    (unknown : d.names.lookup m.path.steps = none) (id_eq : m.id = d.modules.length)
    (path_eq : m.path = s.canonical p) : Indexed s (d.register m) := by
  constructor
  · intro n hn
    rw [lookup_register]
    rcases mem_register.1 hn with hn | rfl
    · have found := h.own n hn
      have other : n.path.steps ≠ m.path.steps := by
        intro same
        rw [same, unknown] at found
        cases found
      rw [if_neg other, found]
    · rw [if_pos rfl, id_eq]
  · intro steps id found
    rw [lookup_register] at found
    split at found
    · rename_i same
      cases found
      refine ⟨m, getElem?_register.2 (.inr ⟨rfl, rfl⟩), fun q hq _ => ?_⟩
      rw [path_eq]
      exact hs p q (by rw [hq, same, path_eq])
    · obtain ⟨n, hn, names⟩ := h.names steps id found
      exact ⟨n, getElem?_register.2 (.inl hn), names⟩

theorem Indexed.addName (hs : s.Idempotent) (h : Indexed s d) {p : Path} {id : FileId} {m : Module}
    (lt : id < d.modules.length) (plain : p.IsPlain) (hm : d.modules[id]? = some m)
    (path_eq : m.path.steps = (s.canonical p).steps) : Indexed s (d.addName p id lt) := by
  constructor
  · intro n hn
    rw [lookup_addName, h.own n hn]
    rfl
  · intro steps other found
    rw [lookup_addName, Option.or_eq_some_iff] at found
    rcases found with found | ⟨_, found⟩
    · exact h.names steps other found
    · split at found
      · rename_i same
        cases found
        refine ⟨m, hm, fun q hq spelled => ?_⟩
        rw [path_eq]
        rcases spelled with hplain | ⟨r, rfl⟩
        · rw [hplain.eq plain (hq.trans same)]
        · -- Both `p` and `q` are spellings of one canonical path.
          rw [hs r _ rfl, hs r p (by rw [hq, same])]
      · cases found

theorem isPlain_targets (m : Module) : ∀ p ∈ m.targets, p.IsPlain := by
  intro p hp
  obtain ⟨i, _, rfl⟩ := List.mem_map.1 hp
  exact Path.isPlain_resolve _ _

/-- Following plain paths keeps the names right, whatever order modules are found in. -/
theorem Follows.indexed {paths : List Path} (hs : s.Idempotent) (h : Follows s paths d d')
    (plain : ∀ p ∈ paths, p.IsPlain) (hn : Numbered s d) (hd : Indexed s d) : Indexed s d' := by
  induction h with
  | done => exact hd
  | known found lt _ ih =>
    obtain ⟨m, hm, path_eq⟩ := hd.path_of_lookup hs found
    exact ih (fun q hq => plain q (by simp [hq])) (hn.addName lt)
      (hd.addName hs lt (plain _ (by simp)) hm path_eq)
  | @fresh p _ d e _ m unknown id_eq path_eq isFrom inner lt _ ihInner ihRest =>
    have hn' := hn.register id_eq path_eq isFrom
    have he := ihInner (isPlain_targets m) hn' (hd.register hs unknown id_eq path_eq)
    have hm : e.modules[m.id]? = some m :=
      inner.getElem?_eq (getElem?_register.2 (.inr ⟨id_eq, rfl⟩))
    exact ihRest (fun q hq => plain q (by simp [hq])) ((inner.numbered hn').addName lt)
      (he.addName hs lt (plain _ (by simp)) hm (by rw [path_eq]))

def Known (d : Discovery) (p : Path) : Prop := ∃ id, d.names.lookup p.steps = some id

private theorem Follows.known_of_known {paths : List Path} (h : Follows s paths d d') {p : Path}
    (hp : Known d p) : Known d' p := by
  obtain ⟨id, found⟩ := hp
  exact ⟨id, h.lookup_eq found⟩

private theorem known_addName {p : Path} {id : FileId} (lt : id < d.modules.length) :
    Known (d.addName p id lt) p := by
  rw [Known, lookup_addName, if_pos rfl]
  cases d.names.lookup p.steps with
  | none => exact ⟨id, rfl⟩
  | some other => exact ⟨other, rfl⟩

/-- Followed paths have names afterwards, and so have the imports of all new modules. -/
theorem Follows.known_targets {paths : List Path} (h : Follows s paths d d') :
    (∀ p ∈ paths, Known d' p) ∧
      ∀ m ∈ d'.modules, m ∈ d.modules ∨ ∀ p ∈ m.targets, Known d' p := by
  induction h with
  | done => exact ⟨by simp, fun m hm => .inl hm⟩
  | known found lt rest ih =>
    refine ⟨?_, ih.2⟩
    intro q hq
    rcases List.mem_cons.1 hq with rfl | hq
    · exact rest.known_of_known (known_addName lt)
    · exact ih.1 q hq
  | @fresh p _ d e d' m unknown id_eq path_eq isFrom inner lt rest ihInner ihRest =>
    have keep : ∀ q, Known e q → Known d' q := by
      intro q ⟨id, found⟩
      refine rest.known_of_known ⟨id, ?_⟩
      rw [lookup_addName, found]
      rfl
    constructor
    · intro q hq
      rcases List.mem_cons.1 hq with rfl | hq
      · exact rest.known_of_known (known_addName lt)
      · exact ihRest.1 q hq
    · intro n hn
      rcases ihRest.2 n hn with hn | closed
      · rcases ihInner.2 n hn with hn | closed
        · rcases mem_register.1 hn with hn | rfl
          · exact .inl hn
          · exact .inr fun q hq => keep q (ihInner.1 q hq)
        · exact .inr fun q hq => keep q (closed q hq)
      · exact .inr closed

/-- A module is found through a followed path, or through an import of a module found before it. -/
theorem Follows.parent {paths : List Path} (h : Follows s paths d d') {i : Nat} {m : Module}
    (hm : d'.modules[i]? = some m) (new : d.modules.length ≤ i) :
    (∃ p ∈ paths, m.path = s.canonical p) ∨
      ∃ (j : Nat) (n : Module), j < i ∧ d'.modules[j]? = some n ∧
        ∃ p ∈ n.targets, m.path = s.canonical p := by
  induction h with
  | done d =>
    obtain ⟨lt, _⟩ := List.getElem?_eq_some_iff.1 hm
    omega
  | known _ _ _ ih =>
    rcases ih hm new with ⟨p, hp, eq⟩ | earlier
    · exact .inl ⟨p, List.mem_cons_of_mem _ hp, eq⟩
    · exact .inr earlier
  | @fresh p _ d e d' n unknown id_eq path_eq isFrom inner lt rest ihInner ihRest =>
    have keep : ∀ {j : Nat} {k : Module}, e.modules[j]? = some k → d'.modules[j]? = some k :=
      fun hk => rest.getElem?_eq hk
    have hn : e.modules[d.modules.length]? = some n :=
      inner.getElem?_eq (getElem?_register.2 (.inr ⟨rfl, rfl⟩))
    rcases Nat.lt_or_ge i e.modules.length with old | later
    · have he : e.modules[i]? = some m := by
        have := keep (List.getElem?_eq_getElem old)
        rw [List.getElem?_eq_getElem old, ← this, hm]
      rcases Nat.eq_or_lt_of_le new with rfl | new
      · obtain rfl : n = m := by simpa [hn] using he
        exact .inl ⟨p, List.mem_cons_self, path_eq⟩
      · rcases ihInner he (by simpa [register] using Nat.succ_le_of_lt new) with ⟨q, hq, eq⟩ | ⟨j, k, lt, hk, hq⟩
        · exact .inr ⟨d.modules.length, n, new, keep hn, q, hq, eq⟩
        · exact .inr ⟨j, k, lt, keep hk, hq⟩
    · rcases ihRest hm later with ⟨q, hq, eq⟩ | earlier
      · exact .inl ⟨q, List.mem_cons_of_mem _ hq, eq⟩
      · exact .inr earlier

end Discovery

end ScriptToGo

namespace ScriptToGo.ModuleGraph
open Discovery

variable {s : Sources} {entry : Path} {g : ModuleGraph}

/-- A loaded graph is what discovery has found once the imports of the entry are followed. -/
theorem discovery_of_load (h : load s entry = .ok g) :
    ∃ m d, m.path = s.canonical entry ∧ m.IsFrom s ∧ Follows s m.targets (nothing.register m) d ∧
      Numbered s (nothing.register m) ∧ (s.Idempotent → Indexed s (nothing.register m)) ∧
      g.modules = d.modules ∧ g.names = d.names := by
  obtain ⟨m, d, id_eq, path_eq, isFrom, inner, modules, names⟩ := follows_of_loads (load_eq_ok_iff.1 h)
  have unknown : nothing.names.lookup m.path.steps = none := rfl
  exact ⟨m, d, path_eq, isFrom, inner, (numbered_nothing s).register id_eq path_eq isFrom,
    fun hs => (indexed_nothing s).register hs unknown id_eq path_eq, modules, names⟩

private theorem numbered (h : load s entry = .ok g) :
    ∃ d, Numbered s d ∧ g.modules = d.modules ∧ g.names = d.names := by
  obtain ⟨m, d, _, _, inner, hn, _, modules, names⟩ := discovery_of_load h
  exact ⟨d, inner.numbered hn, modules, names⟩

private theorem indexed (hs : s.Idempotent) (h : load s entry = .ok g) :
    ∃ d, Indexed s d ∧ g.modules = d.modules ∧ g.names = d.names := by
  obtain ⟨m, d, _, _, inner, hn, hi, modules, names⟩ := discovery_of_load h
  exact ⟨d, inner.indexed hs (isPlain_targets m) hn (hi hs), modules, names⟩

theorem id_of_load (h : load s entry = .ok g) {i : Nat} {m : Module} (hm : g.modules[i]? = some m) :
    m.id = i := by
  obtain ⟨d, hn, modules, _⟩ := numbered h
  exact hn.id_eq i m (modules ▸ hm)

theorem module?_of_load (h : load s entry = .ok g) {m : Module} (hm : m ∈ g.modules) :
    g.module? m.id = some m := by
  obtain ⟨i, hi⟩ := List.mem_iff_getElem?.1 hm
  rw [module?, id_of_load h hi, hi]

theorem isFrom_of_load (h : load s entry = .ok g) {m : Module} (hm : m ∈ g.modules) : m.IsFrom s := by
  obtain ⟨d, hn, modules, _⟩ := numbered h
  exact hn.isFrom m (modules ▸ hm)

theorem canonical_of_load (h : load s entry = .ok g) {m : Module} (hm : m ∈ g.modules) :
    ∃ p, m.path = s.canonical p := by
  obtain ⟨d, hn, modules, _⟩ := numbered h
  exact hn.canonical m (modules ▸ hm)

theorem names_of_load (h : load s entry = .ok g) {steps : List Step} {id : FileId}
    (found : g.names.lookup steps = some id) : id < g.modules.length := by
  obtain ⟨_, d, _, _, _, _, _, modules, names⟩ := discovery_of_load h
  rw [modules]
  exact d.valid steps id (names ▸ found)

theorem entry_of_load (h : load s entry = .ok g) :
    g.modules[0]? = some g.entry ∧ g.entry.path = s.canonical entry := by
  have first : g.modules[0]? = some g.entry := by
    rw [ModuleGraph.entry, ← List.head?_eq_getElem?, List.head?_eq_some_head]
  obtain ⟨m, d, path_eq, _, inner, _, _, modules, _⟩ := discovery_of_load h
  have hm : g.modules[0]? = some m := by
    rw [modules]
    exact inner.getElem?_eq rfl
  refine ⟨first, ?_⟩
  obtain rfl : m = g.entry := Option.some.inj (hm.symm.trans first)
  exact path_eq

theorem entry_mem (g : ModuleGraph) : g.entry ∈ g.modules := List.head_mem g.ne_nil

theorem eq_of_path (hs : s.Idempotent) (h : load s entry = .ok g) {m n : Module}
    (hm : m ∈ g.modules) (hn : n ∈ g.modules) (same : m.path.steps = n.path.steps) : m = n := by
  obtain ⟨d, hi, modules, _⟩ := indexed hs h
  have ids : some m.id = some n.id := by
    rw [← hi.own m (modules ▸ hm), ← hi.own n (modules ▸ hn), same]
  have := module?_of_load h hm
  rw [Option.some.inj ids, module?_of_load h hn] at this
  exact (Option.some.inj this).symm

/-- A module is found at its own path. -/
theorem lookup_of_load (hs : s.Idempotent) (h : load s entry = .ok g) {m : Module}
    (hm : m ∈ g.modules) : g.lookup m.path = some m := by
  obtain ⟨d, hi, modules, names⟩ := indexed hs h
  rw [lookup, names, hi.own m (modules ▸ hm)]
  exact module?_of_load h hm

private theorem known_of_import (h : load s entry = .ok g) {m : Module} (hm : m ∈ g.modules)
    {p : Path} (hp : p ∈ m.targets) : ∃ id, g.names.lookup p.steps = some id := by
  obtain ⟨first, d, _, _, inner, _, _, modules, names⟩ := discovery_of_load h
  obtain ⟨ofFirst, ofOthers⟩ := inner.known_targets
  have known : Known d p := by
    rcases ofOthers m (modules ▸ hm) with hm | others
    · obtain rfl : m = first := by simpa [register, nothing] using hm
      exact ofFirst p hp
    · exact others p hp
  rw [names]
  exact known

/-- Every import of a module leads to the module whose path is the canonical one. -/
theorem exists_resolveImport (hs : s.Idempotent) (h : load s entry = .ok g) {m : Module}
    (hm : m ∈ g.modules) {decl : ImportDecl} (hd : decl ∈ m.program.imports) :
    ∃ target ∈ g.modules, g.resolveImport m.id decl.specifier.text = some target ∧
      target.path.steps = (s.canonical (m.path.resolve decl.specifier.text)).steps := by
  have hp : m.path.resolve decl.specifier.text ∈ m.targets := List.mem_map_of_mem hd
  obtain ⟨id, found⟩ := known_of_import h hm hp
  obtain ⟨d, hi, modules, names⟩ := indexed hs h
  obtain ⟨target, ht, stands⟩ := hi.names _ _ (names ▸ found)
  rw [← modules] at ht
  refine ⟨target, List.mem_of_getElem? ht, ?_, ?_⟩
  · rw [resolveImport, module?_of_load h hm]
    simp only [Option.bind_some, lookup, found]
    exact ht
  · exact (stands _ rfl (.inl (isPlain_targets m _ hp))).symm

/-- A module other than the entry is imported by one that was found before it. -/
theorem exists_importer (hs : s.Idempotent) (h : load s entry = .ok g) {i : Nat} {m : Module}
    (hm : g.modules[i]? = some m) (later : 0 < i) :
    ∃ (j : Nat) (n : Module), j < i ∧ g.modules[j]? = some n ∧ ∃ decl ∈ n.program.imports,
      m.path = s.canonical (n.path.resolve decl.specifier.text) ∧
      g.resolveImport n.id decl.specifier.text = some m := by
  have importer : ∃ (j : Nat) (n : Module), j < i ∧ g.modules[j]? = some n ∧
      ∃ p ∈ n.targets, m.path = s.canonical p := by
    obtain ⟨first, d, _, _, inner, _, _, modules, _⟩ := discovery_of_load h
    rw [modules] at hm ⊢
    have hfirst : d.modules[0]? = some first := inner.getElem?_eq rfl
    rcases inner.parent hm later with found | found
    · exact ⟨0, first, later, hfirst, found⟩
    · exact found
  obtain ⟨j, n, lt, hn, p, hp, path_eq⟩ := importer
  obtain ⟨decl, hd, rfl⟩ := List.mem_map.1 hp
  obtain ⟨target, ht, resolved, target_path⟩ :=
    exists_resolveImport hs h (List.mem_of_getElem? hn) hd
  have same : target = m := by
    apply eq_of_path hs h ht (List.mem_of_getElem? hm)
    rw [target_path, path_eq]
  exact ⟨j, n, lt, hn, decl, hd, path_eq, same ▸ resolved⟩

end ScriptToGo.ModuleGraph
