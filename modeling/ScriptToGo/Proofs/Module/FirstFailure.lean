import ScriptToGo.Proofs.Module.Preorder
import Mathlib.Data.Finset.Card

/-! Loading fails at the first file that holds no program, in the order of a depth-first walk along
imports which also passes over such files. -/
namespace ScriptToGo.Sources

variable {s : Sources}

/-- The canonical paths of what a file imports, in source order. A file that cannot be read or holds
no program imports nothing. -/
def importsOf (s : Sources) (p : Path) : List Path :=
  match s.read p with
  | .error _ => []
  | .ok text =>
    match Program.ofSource text with
    | .error _ => []
    | .ok program => program.imports.map fun i => s.canonical (p.resolve i.specifier.text)

theorem importsOf_program {p : Path} {text : String} {program : Program}
    (readable : s.read p = .ok text) (parsed : Program.ofSource text = .ok program) :
    s.importsOf p = program.imports.map fun i => s.canonical (p.resolve i.specifier.text) := by
  simp only [importsOf, readable, parsed]

theorem imports_iff {p q : Path} : s.Imports p q ↔ q ∈ s.importsOf p := by
  constructor
  · rintro ⟨text, program, readable, parsed, decl, mem, rfl⟩
    rw [importsOf_program readable parsed]
    exact List.mem_map_of_mem mem
  · intro mem
    rw [importsOf] at mem
    split at mem
    · cases mem
    next text readable =>
      split at mem
      · cases mem
      next program parsed =>
        obtain ⟨decl, inside, rfl⟩ := List.mem_map.1 mem
        exact ⟨text, program, readable, parsed, decl, inside, rfl⟩

theorem importsOf_of_not_holds {p : Path} (h : ¬s.Holds p) : s.importsOf p = [] := by
  rw [List.eq_nil_iff_forall_not_mem]
  intro q mem
  obtain ⟨text, program, readable, parsed, -⟩ := imports_iff.2 mem
  exact h ⟨text, program, readable, parsed⟩

/-- A path that stands for a file in the graph of modules. -/
def IsCanonical (s : Sources) (p : Path) : Prop := ∃ q, p = s.canonical q

theorem isCanonical_importsOf {p q : Path} (mem : q ∈ s.importsOf p) : s.IsCanonical q := by
  obtain ⟨_, _, _, _, _, _, eq⟩ := imports_iff.2 mem
  exact ⟨_, eq⟩

/-- Canonical paths of one place are read alike. -/
theorem IsCanonical.read_eq {p q : Path} (hp : s.IsCanonical p) (hq : s.IsCanonical q)
    (same : p.steps = q.steps) : s.read p = s.read q := by
  obtain ⟨p, rfl⟩ := hp
  obtain ⟨q, rfl⟩ := hq
  exact s.read_eq p q same

theorem IsCanonical.holds {p q : Path} (hp : s.IsCanonical p) (hq : s.IsCanonical q)
    (same : p.steps = q.steps) (h : s.Holds p) : s.Holds q := by
  rw [Holds, hp.read_eq hq same] at h
  exact h

theorem IsCanonical.importsOf_eq {p q : Path} (hp : s.IsCanonical p) (hq : s.IsCanonical q)
    (same : p.steps = q.steps) : s.importsOf p = s.importsOf q := by
  have resolved (specifier : String) : p.resolve specifier = q.resolve specifier := by
    rw [Path.resolve, Path.resolve, same]
  simp only [importsOf, hp.read_eq hq same, resolved]

theorem isCanonical_of_reachable {entry p : Path} (h : s.Reachable entry p) : s.IsCanonical p := by
  cases h with
  | refl => exact ⟨entry, rfl⟩
  | tail _ imports => exact isCanonical_importsOf (imports_iff.1 imports)

/-- A depth-first walk over paths, with the paths seen before and after it in order. A path that has
been seen is skipped; any other is seen before all that it imports, in source order. -/
inductive Walk (s : Sources) : List Path → List Path → List Path → Prop
  | done (seen : List Path) : Walk s [] seen seen
  | skip {p : Path} {paths seen after : List Path} (old : p.steps ∈ seen.map Path.steps)
    (rest : Walk s paths seen after) : Walk s (p :: paths) seen after
  | see {p : Path} {paths seen below after : List Path} (new : p.steps ∉ seen.map Path.steps)
    (inner : Walk s (s.importsOf p) (seen ++ [p]) below) (rest : Walk s paths below after) :
    Walk s (p :: paths) seen after

/-- Where only programs are found, it is the walk over these. -/
theorem Preorder.walk {paths seen after : List Path} (h : s.Preorder paths seen after) :
    s.Walk paths seen after := by
  induction h with
  | done seen => exact .done seen
  | skip old _ rest => exact .skip old rest
  | see new readable parsed _ _ inner rest =>
    rw [← importsOf_program readable parsed] at inner
    exact .see new inner rest

namespace Walk

variable {paths more seen after : List Path}

theorem unique {other : List Path} (h : s.Walk paths seen after) (h' : s.Walk paths seen other) :
    after = other := by
  induction h generalizing other with
  | done =>
    cases h'
    rfl
  | skip old _ ih =>
    cases h' with
    | skip _ rest => exact ih rest
    | see new => exact absurd old new
  | see new _ _ inner rest =>
    cases h' with
    | skip old => exact absurd old new
    | see _ inner' rest' =>
      obtain rfl := inner inner'
      exact rest rest'

theorem grows (h : s.Walk paths seen after) : seen <+: after := by
  induction h with
  | done => exact List.prefix_refl _
  | skip _ _ ih => exact ih
  | see _ _ _ inner rest => exact (List.prefix_append _ _).trans (inner.trans rest)

/-- The first path is walked before all others. -/
theorem first {p : Path} (h : s.Walk (p :: paths) seen after) :
    ∃ below, s.Walk [p] seen below ∧ s.Walk paths below after := by
  cases h with
  | skip old rest => exact ⟨seen, .skip old (.done _), rest⟩
  | see new inner rest => exact ⟨_, .see new inner (.done _), rest⟩

/-- What holds of the paths to walk and of all that is imported holds of all that is seen. -/
theorem forall_seen {P : Path → Prop} (closed : ∀ p, P p → ∀ q ∈ s.importsOf p, P q)
    (h : s.Walk paths seen after) (before : ∀ p ∈ seen, P p) (start : ∀ p ∈ paths, P p) :
    ∀ p ∈ after, P p := by
  induction h with
  | done => exact before
  | skip _ _ ih => exact ih before fun p mem => start p (List.mem_cons_of_mem _ mem)
  | @see p _ _ _ _ _ _ _ inner rest =>
    have here : P p := start p List.mem_cons_self
    refine rest (inner ?_ (closed p here)) fun q mem => start q (List.mem_cons_of_mem _ mem)
    exact List.forall_mem_append.2 ⟨before, List.forall_mem_singleton.2 here⟩

/-- The paths to walk are seen, and so is all that newly seen files import. -/
theorem covers (h : s.Walk paths seen after) : (∀ p ∈ paths, p.steps ∈ after.map Path.steps) ∧
    ∀ p ∈ after, p ∈ seen ∨ ∀ q ∈ s.importsOf p, q.steps ∈ after.map Path.steps := by
  induction h with
  | done => exact ⟨List.forall_mem_nil _, fun p mem => .inl mem⟩
  | skip old rest ih =>
    exact ⟨List.forall_mem_cons.2 ⟨(rest.grows.map _).subset old, ih.1⟩, ih.2⟩
  | @see p _ _ below after _ inner rest ihInner ihRest =>
    have keep : ∀ steps ∈ below.map Path.steps, steps ∈ after.map Path.steps :=
      fun _ mem => (rest.grows.map _).subset mem
    refine ⟨List.forall_mem_cons.2 ⟨keep _ ?_, ihRest.1⟩, fun q mem => ?_⟩
    · exact List.mem_map_of_mem (inner.grows.subset (by simp))
    rcases ihRest.2 q mem with early | closed
    · rcases ihInner.2 q early with before | closed
      · rcases List.mem_append.1 before with before | here
        · exact .inl before
        · rw [List.mem_singleton.1 here]
          exact .inr fun r mem => keep _ (ihInner.1 r mem)
      · exact .inr fun r mem => keep _ (closed r mem)
    · exact .inr closed

theorem nodup (h : s.Walk paths seen after) (before : (seen.map Path.steps).Nodup) :
    (after.map Path.steps).Nodup := by
  induction h with
  | done => exact before
  | skip _ _ ih => exact ih before
  | see new _ _ inner rest =>
    refine rest (inner ?_)
    rw [List.map_append, List.map_singleton, List.nodup_append]
    refine ⟨before, List.nodup_singleton _, fun steps mem other here => ?_⟩
    rw [List.mem_singleton.1 here]
    rintro rfl
    exact new mem

end Walk

/-- A walk comes to an end, since each program that it goes into is at one of finitely many places. -/
theorem exists_walk (s : Sources) (places : Finset (List Step)) {paths seen : List Path}
    (canonical : ∀ p ∈ paths, s.IsCanonical p)
    (left : ∀ p, s.IsCanonical p → s.Holds p → p.steps ∉ seen.map Path.steps → p.steps ∈ places) :
    ∃ after, s.Walk paths seen after := by
  induction places using Finset.strongInduction generalizing paths seen with
  | H places smaller =>
    induction paths generalizing seen with
    | nil => exact ⟨seen, .done seen⟩
    | cons p paths ih =>
      obtain ⟨here, others⟩ := List.forall_mem_cons.1 canonical
      by_cases old : p.steps ∈ seen.map Path.steps
      · obtain ⟨after, rest⟩ := ih others left
        exact ⟨after, .skip old rest⟩
      obtain ⟨below, inner⟩ : ∃ below, s.Walk (s.importsOf p) (seen ++ [p]) below := by
        by_cases holds : s.Holds p
        · refine smaller _ (Finset.erase_ssubset (left p here holds old))
            (fun q mem => isCanonical_importsOf mem) fun q isCanonical holds new => ?_
          simp only [List.map_append, List.map_singleton, List.mem_append, List.mem_singleton,
            not_or] at new
          exact Finset.mem_erase.2 ⟨new.2, left q isCanonical holds new.1⟩
        · rw [importsOf_of_not_holds holds]
          exact ⟨_, .done _⟩
      have grown : seen <+: below := (List.prefix_append seen [p]).trans inner.grows
      have leftBelow : ∀ q, s.IsCanonical q → s.Holds q → q.steps ∉ below.map Path.steps →
          q.steps ∈ places := fun q isCanonical holds new =>
        left q isCanonical holds fun mem => new ((grown.map _).subset mem)
      obtain ⟨after, rest⟩ := ih others leftBelow
      exact ⟨after, .see old inner rest⟩

/-- The walk from an entry sees each place that the entry reaches, once. -/
theorem exists_order (s : Sources) (entry : Path) : ∃ order, s.Walk [s.canonical entry] [] order ∧
    (order.map Path.steps).Nodup ∧ (∀ p ∈ order, s.Reachable entry p) ∧
    ∀ p, s.Reachable entry p → p.steps ∈ order.map Path.steps := by
  have inPlaces : ∀ p, s.IsCanonical p → s.Holds p → p.steps ∉ ([] : List Path).map Path.steps →
      p.steps ∈ s.places.toFinset := by
    rintro p ⟨q, rfl⟩ ⟨text, _, readable, _⟩ _
    exact List.mem_toFinset.2 (s.mem_places q text readable)
  obtain ⟨order, walk⟩ := s.exists_walk _ (List.forall_mem_singleton.2 ⟨entry, rfl⟩) inPlaces
  have reached : ∀ p ∈ order, s.Reachable entry p :=
    walk.forall_seen (fun p before q mem => before.tail (imports_iff.2 mem)) (List.forall_mem_nil _)
      (List.forall_mem_singleton.2 .refl)
  refine ⟨order, walk, walk.nodup List.nodup_nil, reached, fun p reachable => ?_⟩
  induction reachable with
  | refl => exact walk.covers.1 _ List.mem_cons_self
  | @tail p q reachable imports ih =>
    obtain ⟨p', among, same⟩ := List.mem_map.1 ih
    have mem : q ∈ s.importsOf p' := by
      rw [(isCanonical_of_reachable (reached p' among)).importsOf_eq
        (isCanonical_of_reachable reachable) same]
      exact imports_iff.1 imports
    rcases walk.covers.2 p' among with before | closed
    · cases before
    · exact closed q mem

end ScriptToGo.Sources

namespace ScriptToGo

/-- What is wrong with a path: it cannot be read, or the text there has faulty tokens, or its tokens
write no program. -/
inductive Sources.FailsAs (s : Sources) (p : Path) : LoadFailure → Prop
  | unreadable {reason : String} : s.read p = .error reason → FailsAs s p (.unreadable p reason)
  | faultyTokens {text : String} {errors : List SyntaxError} : s.read p = .ok text →
      tokenize text 0 = .error errors → FailsAs s p (.malformed p text errors)
  | noProgram {text : String} {tokens : List Token} {errors : List SyntaxError} :
      s.read p = .ok text → tokenize text 0 = .ok tokens → Program.ofTokens tokens = .error errors →
      FailsAs s p (.malformed p text errors)

namespace Sources

variable {s : Sources} {p : Path} {failure other : LoadFailure}

theorem failsAs_malformed {text : String} {errors : List SyntaxError} (readable : s.read p = .ok text)
    (failed : Program.ofSource text = .error errors) : s.FailsAs p (.malformed p text errors) := by
  rw [Program.ofSource] at failed
  cases lexed : tokenize text 0 with
  | error faults =>
    rw [lexed] at failed
    cases failed
    exact .faultyTokens readable lexed
  | ok tokens =>
    rw [lexed] at failed
    exact .noProgram readable lexed failed

/-- How a path fails, if it does. -/
def failure? (s : Sources) (p : Path) : Option LoadFailure :=
  match s.read p with
  | .error reason => some (.unreadable p reason)
  | .ok text =>
    match tokenize text 0 with
    | .error errors => some (.malformed p text errors)
    | .ok tokens =>
      match Program.ofTokens tokens with
      | .error errors => some (.malformed p text errors)
      | .ok _ => none

theorem FailsAs.failure?_eq (h : s.FailsAs p failure) : s.failure? p = some failure := by
  cases h with
  | unreadable unreadable => simp only [failure?, unreadable]
  | faultyTokens readable faulty => simp only [failure?, readable, faulty]
  | noProgram readable lexed unwritten => simp only [failure?, readable, lexed, unwritten]

theorem FailsAs.not_holds (h : s.FailsAs p failure) : ¬s.Holds p := by
  rintro ⟨text, program, readable, parsed⟩
  obtain ⟨tokens, lexed, written⟩ := Program.ofSource_eq_ok_iff.1 parsed
  have none : s.failure? p = none := by simp only [failure?, readable, lexed, written]
  rw [h.failure?_eq] at none
  cases none

/-- A path fails in one way. -/
theorem FailsAs.unique (h : s.FailsAs p failure) (h' : s.FailsAs p other) : failure = other :=
  Option.some.inj (h.failure?_eq.symm.trans h'.failure?_eq)

theorem exists_failsAs (h : ¬s.Holds p) : ∃ failure, s.FailsAs p failure := by
  cases readable : s.read p with
  | error reason => exact ⟨_, .unreadable readable⟩
  | ok text =>
    cases parsed : Program.ofSource text with
    | error errors => exact ⟨_, failsAs_malformed readable parsed⟩
    | ok program => exact absurd ⟨text, program, readable, parsed⟩ h

/-- The first of some paths that does not hold a program fails in some way. -/
inductive FailsFirst (s : Sources) : List Path → LoadFailure → Prop
  | here {p : Path} {paths : List Path} {failure : LoadFailure} (fails : s.FailsAs p failure) :
    FailsFirst s (p :: paths) failure
  | later {p : Path} {paths : List Path} {failure : LoadFailure} (holds : s.Holds p)
    (rest : FailsFirst s paths failure) : FailsFirst s (p :: paths) failure

namespace FailsFirst

variable {paths : List Path}

theorem append (h : s.FailsFirst paths failure) (more : List Path) :
    s.FailsFirst (paths ++ more) failure := by
  induction h with
  | here fails => exact .here fails
  | later holds _ ih => exact .later holds ih

theorem after {front : List Path} (h : s.FailsFirst paths failure)
    (holds : ∀ p ∈ front, s.Holds p) : s.FailsFirst (front ++ paths) failure := by
  induction front with
  | nil => exact h
  | cons p front ih =>
    obtain ⟨here, others⟩ := List.forall_mem_cons.1 holds
    exact .later here (ih others)

theorem exists_failsAs (h : s.FailsFirst paths failure) : ∃ p ∈ paths, s.FailsAs p failure := by
  induction h with
  | here fails => exact ⟨_, List.mem_cons_self, fails⟩
  | later _ _ ih =>
    obtain ⟨p, mem, fails⟩ := ih
    exact ⟨p, List.mem_cons_of_mem _ mem, fails⟩

theorem unique (h : s.FailsFirst paths failure) (h' : s.FailsFirst paths other) : failure = other := by
  induction h with
  | here fails =>
    cases h' with
    | here fails' => exact fails.unique fails'
    | later holds => exact absurd holds fails.not_holds
  | later holds _ ih =>
    cases h' with
    | here fails => exact absurd holds fails.not_holds
    | later _ rest => exact ih rest

end FailsFirst

end Sources

namespace Discovery

variable {s : Sources} {failure : LoadFailure}

theorem visit_error {p : Path} {d : Discovery} (h : visit s p d = .error failure) :
    d.names.lookup (s.canonical p).steps = none ∧ (s.FailsAs (s.canonical p) failure ∨
      ∃ text program, s.read (s.canonical p) = .ok text ∧ Program.ofSource text = .ok program ∧
        visitAll s (found s p d text program).targets (d.register (found s p d text program))
          = .error failure) := by
  rw [visit] at h
  split at h
  · cases h
  next unknown =>
    refine ⟨unknown, ?_⟩
    split at h
    next unreadable =>
      cases h
      exact .inl (.unreadable unreadable)
    next text readable =>
      split at h
      next failed =>
        cases h
        exact .inl (Sources.failsAs_malformed readable failed)
      next program parsed =>
        simp only at h
        split at h
        next inner =>
          cases h
          exact .inr ⟨text, program, readable, parsed, inner⟩
        · cases h

theorem visitAll_cons_error {p : Path} {paths : List Path} {d : Discovery}
    (h : visitAll s (p :: paths) d = .error failure) : visit s p d = .error failure ∨
      ∃ v, visit s p d = .ok v ∧
        visitAll s paths (v.next.addName p v.id v.id_lt) = .error failure := by
  rw [visitAll] at h
  split at h
  next failed =>
    cases h
    exact .inl failed
  next v visited =>
    simp only at h
    split at h
    next failed =>
      cases h
      exact .inr ⟨v, visited, failed⟩
    · cases h

/-- What is seen newly holds programs up to a path that fails. -/
def StopsIn (s : Sources) (seen after : List Path) (failure : LoadFailure) : Prop :=
  ∃ new, after = seen ++ new ∧ s.FailsFirst new failure

theorem StopsIn.grow {seen after later : List Path} (h : StopsIn s seen after failure)
    (grows : after <+: later) : StopsIn s seen later failure := by
  obtain ⟨new, rfl, fails⟩ := h
  obtain ⟨more, rfl⟩ := grows
  exact ⟨new ++ more, List.append_assoc .., fails.append more⟩

theorem StopsIn.widen {seen new after : List Path} (h : StopsIn s (seen ++ new) after failure)
    (holds : ∀ p ∈ new, s.Holds p) : StopsIn s seen after failure := by
  obtain ⟨rest, rfl, fails⟩ := h
  exact ⟨new ++ rest, List.append_assoc .., fails.after holds⟩

theorem Numbered.holds {d : Discovery} (h : Numbered s d) :
    ∀ p ∈ d.modules.map Module.path, s.Holds p := by
  refine List.forall_mem_map.2 fun m mem => ?_
  have isFrom := h.isFrom m mem
  exact ⟨_, _, isFrom.source, isFrom.program⟩

mutual

/-- A visit fails as some path does. -/
theorem failsAs_of_visit {p : Path} {d : Discovery} (h : visit s p d = .error failure) :
    ∃ q, s.FailsAs q failure := by
  obtain ⟨unknown, fails | ⟨text, program, readable, parsed, failed⟩⟩ := visit_error h
  · exact ⟨_, fails⟩
  · have closed : (d.register (found s p d text program)).pending s < d.pending s :=
      pending_register (s.mem_places p text readable) unknown
    exact failsAs_of_visitAll failed
termination_by (d.pending s, 0)

theorem failsAs_of_visitAll {paths : List Path} {d : Discovery}
    (h : visitAll s paths d = .error failure) : ∃ q, s.FailsAs q failure := by
  match paths with
  | [] =>
    rw [visitAll] at h
    cases h
  | p :: paths =>
    rcases visitAll_cons_error h with failed | ⟨v, visited, failed⟩
    · exact failsAs_of_visit failed
    · have fewer : (v.next.addName p v.id v.id_lt).pending s ≤ d.pending s :=
        Nat.le_trans (pending_addName ..) v.pending_le
      exact failsAs_of_visitAll failed
termination_by (d.pending s, paths.length + 1)
decreasing_by
  · exact Prod.Lex.right _ (Nat.succ_pos _)
  · rcases Nat.lt_or_eq_of_le fewer with h | h
    · exact Prod.Lex.left _ _ h
    · rw [h]
      exact Prod.Lex.right _ (Nat.lt_succ_self _)

end

mutual

/-- Where a visit fails, the walk sees the path at which it does. -/
theorem stopsIn_of_visit (hs : s.Idempotent) {p : Path} {d : Discovery}
    (h : visit s p d = .error failure) (hn : Numbered s d) (hd : Indexed s d) {after : List Path}
    (walk : s.Walk [s.canonical p] (d.modules.map Module.path) after) :
    StopsIn s (d.modules.map Module.path) after failure := by
  obtain ⟨unknown, fails⟩ := visit_error h
  cases walk with
  | skip old _ =>
    obtain ⟨_, among, same⟩ := List.mem_map.1 old
    obtain ⟨m, mem, rfl⟩ := List.mem_map.1 among
    rw [← same, hd.own m mem] at unknown
    cases unknown
  | see _ inner rest =>
    rcases fails with fails | ⟨text, program, readable, parsed, failed⟩
    · have seen : StopsIn s (d.modules.map Module.path)
          (d.modules.map Module.path ++ [s.canonical p]) failure :=
        ⟨_, rfl, .here fails⟩
      exact seen.grow (inner.grows.trans rest.grows)
    · have closed : (d.register (found s p d text program)).pending s < d.pending s :=
        pending_register (s.mem_places p text readable) unknown
      have targets : s.importsOf (s.canonical p)
          = (found s p d text program).targets.map s.canonical := by
        rw [Sources.importsOf_program readable parsed, Module.targets, List.map_map]
        rfl
      have paths : d.modules.map Module.path ++ [s.canonical p]
          = (d.register (found s p d text program)).modules.map Module.path := by
        simp [register]
      rw [targets, paths] at inner
      have stops := stopsIn_of_visitAll hs failed (isPlain_targets _)
        (hn.register rfl rfl ⟨readable, parsed, rfl⟩) (hd.register hs unknown rfl rfl) inner
      rw [← paths] at stops
      have holds : s.Holds (s.canonical p) := ⟨text, program, readable, parsed⟩
      exact (stops.widen (List.forall_mem_singleton.2 holds)).grow rest.grows
termination_by (d.pending s, 0)

theorem stopsIn_of_visitAll (hs : s.Idempotent) {paths : List Path} {d : Discovery}
    (h : visitAll s paths d = .error failure) (plain : ∀ p ∈ paths, p.IsPlain)
    (hn : Numbered s d) (hd : Indexed s d) {after : List Path}
    (walk : s.Walk (paths.map s.canonical) (d.modules.map Module.path) after) :
    StopsIn s (d.modules.map Module.path) after failure := by
  match paths with
  | [] =>
    rw [visitAll] at h
    cases h
  | p :: paths =>
    obtain ⟨here, others⟩ := List.forall_mem_cons.1 plain
    obtain ⟨below, first, rest⟩ := walk.first
    rcases visitAll_cons_error h with failed | ⟨v, visited, failed⟩
    · exact (stopsIn_of_visit hs failed hn hd first).grow rest.grows
    · have fewer : (v.next.addName p v.id v.id_lt).pending s ≤ d.pending s :=
        Nat.le_trans (pending_addName ..) v.pending_le
      have followed : Follows s [p] d (v.next.addName p v.id v.id_lt) :=
        (reads_of_visit visited).follows v.id_lt (.done _)
      have alone := List.forall_mem_singleton.2 here
      have hn' := followed.numbered hn
      obtain rfl := first.unique (followed.preorder hs alone hn hd).walk
      have stops := stopsIn_of_visitAll hs failed others hn' (followed.indexed hs alone hn hd) rest
      obtain ⟨new, grown⟩ := followed.modules_grow.map Module.path
      have holds := hn'.holds
      rw [← grown] at stops holds
      exact stops.widen (List.forall_mem_append.1 holds).2
termination_by (d.pending s, paths.length + 1)
decreasing_by
  · exact Prod.Lex.right _ (Nat.succ_pos _)
  · rcases Nat.lt_or_eq_of_le fewer with h | h
    · exact Prod.Lex.left _ _ h
    · rw [h]
      exact Prod.Lex.right _ (Nat.lt_succ_self _)

end

end Discovery

namespace Sources

variable {files : List (Path × String)} {redirects : List (Path × Path)} {p q : Path}

/-- Reading fails exactly for what is not held. -/
theorem read_ofFiles_error {reason : String} : (ofFiles files redirects).read p = .error reason ↔
    heldText? files p = none ∧ reason = absentReason := by
  simp only [ofFiles]
  cases heldText? files p with
  | none => simp [eq_comm]
  | some text => simp

/-- To what a path is redirected depends on its steps alone. -/
theorem steps_redirected (same : p.steps = q.steps) :
    (redirected redirects p).steps = (redirected redirects q).steps := by
  have normal : p.normalize.steps = q.normalize.steps := by
    rw [Path.steps_normalize, Path.steps_normalize, same]
  rw [redirected, redirected, normal]
  split
  · rfl
  · exact normal

/-- Redirections are idempotent when none leads to a path that is redirected elsewhere. -/
theorem idempotent_of_targets (files : List (Path × String))
    (settled : ∀ r ∈ redirects, (redirected redirects r.2).steps = r.2.steps) :
    (ofFiles files redirects).Idempotent := by
  intro p q same
  change (redirected redirects q).steps = (redirected redirects p).steps
  change q.steps = (redirected redirects p).steps at same
  rw [steps_redirected same]
  cases found : redirects.reverse.find? fun r => r.1.steps == p.normalize.steps with
  | some r =>
    have target : redirected redirects p = r.2 := by rw [redirected, found]
    rw [target]
    exact settled r (List.mem_reverse.1 (List.mem_of_find?_eq_some found))
  | none =>
    have self : redirected redirects p = p.normalize := by rw [redirected, found]
    rw [self, redirected, Path.steps_normalize_normalize, found]
    exact Path.steps_normalize_normalize p

end Sources

namespace ModuleGraph
open Discovery Sources

variable {s : Sources} {entry : Path} {failure : LoadFailure}

/-- All files of the walk hold programs when loading succeeds. -/
theorem holds_of_load (hs : s.Idempotent) {g : ModuleGraph} (h : load s entry = .ok g)
    {order : List Path} (walk : s.Walk [s.canonical entry] [] order) : ∀ p ∈ order, s.Holds p := by
  obtain rfl := walk.unique (preorder_of_load hs h).walk
  refine List.forall_mem_map.2 fun m mem => ?_
  have isFrom := isFrom_of_load h mem
  exact ⟨_, _, isFrom.source, isFrom.program⟩

theorem holds_of_reachable (hs : s.Idempotent) {g : ModuleGraph} (h : load s entry = .ok g) {p : Path}
    (reachable : s.Reachable entry p) : s.Holds p := by
  obtain ⟨order, walk, -, reached, covered⟩ := s.exists_order entry
  obtain ⟨q, mem, same⟩ := List.mem_map.1 (covered p reachable)
  exact (isCanonical_of_reachable (reached q mem)).holds (isCanonical_of_reachable reachable) same
    (holds_of_load hs h walk q mem)

theorem visit_of_load_error (h : load s entry = .error failure) :
    visit s entry nothing = .error failure := by
  rw [load] at h
  split at h
  next failed =>
    cases h
    exact failed
  · cases h

/-- Loading fails as some path does, also where files have paths that are not canonical. -/
theorem failsAs_of_load (h : load s entry = .error failure) : ∃ p, s.FailsAs p failure :=
  failsAs_of_visit (visit_of_load_error h)

theorem failsFirst_of_load (hs : s.Idempotent) (h : load s entry = .error failure)
    {order : List Path} (walk : s.Walk [s.canonical entry] [] order) :
    s.FailsFirst order failure := by
  obtain ⟨new, rfl, fails⟩ :=
    stopsIn_of_visit hs (visit_of_load_error h) (numbered_nothing s) (indexed_nothing s) walk
  exact fails

/-- Loading fails as the first file of the walk that fails. -/
theorem load_error_iff_failsFirst (hs : s.Idempotent) {order : List Path}
    (walk : s.Walk [s.canonical entry] [] order) :
    load s entry = .error failure ↔ s.FailsFirst order failure := by
  constructor
  · intro h
    exact failsFirst_of_load hs h walk
  · intro fails
    cases loaded : load s entry with
    | ok g =>
      obtain ⟨p, mem, failsAs⟩ := fails.exists_failsAs
      exact absurd (holds_of_load hs loaded walk p mem) failsAs.not_holds
    | error other => rw [(failsFirst_of_load hs loaded walk).unique fails]

/-- Loading fails when some file that the entry reaches fails. -/
theorem exists_load_error_iff (hs : s.Idempotent) : (∃ failure, load s entry = .error failure) ↔
    ∃ p, s.Reachable entry p ∧ ∃ failure, s.FailsAs p failure := by
  constructor
  · rintro ⟨failure, h⟩
    obtain ⟨order, walk, -, reached, -⟩ := s.exists_order entry
    obtain ⟨p, mem, fails⟩ := (failsFirst_of_load hs h walk).exists_failsAs
    exact ⟨p, reached p mem, failure, fails⟩
  · rintro ⟨p, reachable, failure, fails⟩
    cases loaded : load s entry with
    | error failure => exact ⟨failure, rfl⟩
    | ok g => exact absurd (holds_of_reachable hs loaded reachable) fails.not_holds

/-- Loading from memory fails when some path that the entry reaches over programs is missing or holds
no program, and then as the first such path in the depth-first walk over import declarations, which
comes to an end over any cycles. -/
theorem load_fails_first {files : List (Path × String)} {redirects : List (Path × Path)}
    (held : s = .ofFiles files redirects) (hs : s.Idempotent) (entry : Path) :
    (∀ p reason, s.read p = .error reason ↔ heldText? files p = none ∧ reason = absentReason) ∧
      ((∃ failure, load s entry = .error failure) ↔
        ∃ p, s.Reachable entry p ∧ ∃ failure, s.FailsAs p failure) ∧
      ∃ order, s.Walk [s.canonical entry] [] order ∧ (order.map Path.steps).Nodup ∧
        (∀ steps, steps ∈ order.map Path.steps ↔ ∃ p, s.Reachable entry p ∧ p.steps = steps) ∧
        ∀ failure, load s entry = .error failure ↔ s.FailsFirst order failure := by
  refine ⟨?_, exists_load_error_iff hs, ?_⟩
  · rw [held]
    intro p reason
    exact read_ofFiles_error
  · obtain ⟨order, walk, nodup, reached, covered⟩ := s.exists_order entry
    refine ⟨order, walk, nodup, fun steps => ⟨fun mem => ?_, ?_⟩, fun failure =>
      load_error_iff_failsFirst hs walk⟩
    · obtain ⟨p, among, same⟩ := List.mem_map.1 mem
      exact ⟨p, reached p among, same⟩
    · rintro ⟨p, reachable, rfl⟩
      exact covered p reachable

/-- The entry imports a file under a redirected path, and then one that is missing; that file imports
the entry and a faulty one. -/
def detour : Sources :=
  .ofFiles [(⟨"main.ts"⟩, "import './lib'\nimport './none'"),
    (⟨"sub/a.ts"⟩, "import '../main'\nimport './bad'"), (⟨"sub/bad.ts"⟩, "function (")]
    [(⟨"lib.ts"⟩, ⟨"sub/a.ts"⟩)]

private theorem detour_imports {p : Path} {text : String} {specifiers : List String} {paths : List Path}
    (readable : detour.read p = .ok text)
    (h : (Program.ofSource text).toOption.map (·.imports.map (·.specifier.text)) = some specifiers)
    (targets : specifiers.map (fun text => detour.canonical (p.resolve text)) = paths) :
    detour.Holds p ∧ detour.importsOf p = paths := by
  cases parsed : Program.ofSource text with
  | error errors => simp [parsed, Except.toOption] at h
  | ok program =>
    obtain rfl : program.imports.map (·.specifier.text) = specifiers := by
      simpa [parsed, Except.toOption] using h
    refine ⟨⟨text, program, readable, parsed⟩, ?_⟩
    rw [importsOf_program readable parsed, ← targets, List.map_map]
    rfl

private theorem not_holds_bad : ∃ errors,
    detour.FailsAs ⟨"sub/bad.ts"⟩ (.malformed ⟨"sub/bad.ts"⟩ "function (" errors) := by
  cases parsed : Program.ofSource "function (" with
  | error errors => exact ⟨errors, failsAs_malformed rfl parsed⟩
  | ok program =>
    have none : (Program.ofSource "function (").toOption.isNone := by decide +kernel
    rw [parsed] at none
    cases none

/-- The faulty file comes before the missing one. -/
theorem detour_fails : ∃ errors,
    load detour ⟨"main.ts"⟩ = .error (.malformed ⟨"sub/bad.ts"⟩ "function (" errors) := by
  have idempotent : detour.Idempotent := idempotent_of_targets _ (by decide +kernel)
  obtain ⟨holdsMain, importsMain⟩ := @detour_imports ⟨"main.ts"⟩ _ ["./lib", "./none"]
    [⟨"sub/a.ts"⟩, ⟨"none.ts"⟩] rfl (by decide +kernel) rfl
  obtain ⟨holdsA, importsA⟩ := @detour_imports ⟨"sub/a.ts"⟩ _ ["../main", "./bad"]
    [⟨"main.ts"⟩, ⟨"sub/bad.ts"⟩] rfl (by decide +kernel) rfl
  obtain ⟨errors, bad⟩ := not_holds_bad
  have walk : detour.Walk [⟨"main.ts"⟩] []
      [⟨"main.ts"⟩, ⟨"sub/a.ts"⟩, ⟨"sub/bad.ts"⟩, ⟨"none.ts"⟩] := by
    refine .see (by simp) ?_ (.done _)
    rw [importsMain]
    have inner : detour.Walk (detour.importsOf ⟨"sub/a.ts"⟩) [⟨"main.ts"⟩, ⟨"sub/a.ts"⟩]
        [⟨"main.ts"⟩, ⟨"sub/a.ts"⟩, ⟨"sub/bad.ts"⟩] := by
      rw [importsA]
      refine .skip (by decide +kernel) (.see (by decide +kernel) ?_ (.done _))
      rw [importsOf_of_not_holds bad.not_holds]
      exact .done _
    exact .see (by decide +kernel) inner (.see (by decide +kernel) (.done _) (.done _))
  obtain ⟨-, -, order, walked, -, -, fails⟩ := load_fails_first rfl idempotent ⟨"main.ts"⟩
  obtain rfl := walked.unique walk
  exact ⟨errors, (fails _).2 (.later holdsMain (.later holdsA (.here bad)))⟩

end ModuleGraph

end ScriptToGo
