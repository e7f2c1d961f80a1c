import ScriptToGo.Grammar.Program
import ScriptToGo.Module.Graph
import ScriptToGo.Module.Sources

/-! Following imports from an entry file. -/
namespace ScriptToGo

/-- Why a program cannot be loaded. -/
inductive LoadFailure
  | unreadable (path : Path) (reason : String)
  | malformed (path : Path) (text : String) (errors : List SyntaxError)

def LoadFailure.message : LoadFailure → String
  | unreadable path reason => s!"Cannot read '{path.text}': {reason}"
  | malformed path _ errors => s!"'{path.text}' has {errors.length} syntax error(s)"

/-- What has been found so far. -/
structure Discovery where
  modules : List Module
  /-- The numbers of modules under each path that names one. -/
  names : List (List Step × FileId)
  /-- Every number belongs to a module. -/
  valid : ∀ steps id, names.lookup steps = some id → id < modules.length

namespace Discovery

def nothing : Discovery := ⟨[], [], by simp⟩

def register (d : Discovery) (m : Module) : Discovery where
  modules := d.modules ++ [m]
  names := (m.path.steps, d.modules.length) :: d.names
  valid steps id h := by
    rw [List.lookup_cons] at h
    split at h
    · simp only [Option.some.injEq] at h
      simp [← h]
    · exact Nat.lt_of_lt_of_le (d.valid steps id h) (by simp)

/-- Lets a further path name a module, unless it names one already. -/
def addName (d : Discovery) (p : Path) (id : FileId) (h : id < d.modules.length) : Discovery where
  modules := d.modules
  names := d.names ++ [(p.steps, id)]
  valid steps other found := by
    rw [List.lookup_append, Option.or_eq_some_iff] at found
    rcases found with found | ⟨-, found⟩
    · exact d.valid steps other found
    · simp only [List.lookup_cons, List.lookup_nil] at found
      split at found
      · simp only [Option.some.injEq] at found
        rw [← found]; exact h
      · simp at found

/-- How many places hold files that are still to be read. -/
def pending (s : Sources) (d : Discovery) : Nat :=
  s.places.countP fun steps => (d.names.lookup steps).isNone

theorem pending_addName (s : Sources) (d : Discovery) (p : Path) (id : FileId)
    (h : id < d.modules.length) : (d.addName p id h).pending s ≤ d.pending s := by
  refine List.countP_mono_left fun steps _ hs => ?_
  simp only [addName, List.lookup_append, Option.isNone_iff_eq_none, Option.or_eq_none_iff] at hs ⊢
  exact hs.1

private theorem countP_lt {α : Type} {p q : α → Bool} {xs : List α} {a : α}
    (weaker : ∀ x ∈ xs, p x → q x) (mem : a ∈ xs) (hp : p a = false) (hq : q a = true) :
    xs.countP p < xs.countP q := by
  induction xs with
  | nil => simp at mem
  | cons x xs ih =>
    have rest := List.countP_mono_left fun y hy => weaker y (List.mem_cons_of_mem x hy)
    simp only [List.countP_cons]
    rcases List.mem_cons.1 mem with rfl | mem
    · simp only [hp, hq]
      exact Nat.lt_succ_of_le rest
    · have fewer := ih (fun y hy => weaker y (List.mem_cons_of_mem x hy)) mem
      apply Nat.add_lt_add_of_lt_of_le fewer
      split
      next found => simp [weaker x List.mem_cons_self found]
      · exact Nat.zero_le _

theorem pending_register {s : Sources} {d : Discovery} {m : Module}
    (place : m.path.steps ∈ s.places) (fresh : d.names.lookup m.path.steps = none) :
    (d.register m).pending s < d.pending s := by
  refine countP_lt (fun steps _ hs => ?_) place ?_ ?_
  · simp only [register, List.lookup_cons] at hs
    split at hs
    · simp at hs
    · exact hs
  · simp [register]
  · simp [fresh]

/-- What has been found after looking further. -/
structure Later (s : Sources) (d : Discovery) where
  next : Discovery
  /-- Modules stay. -/
  grows : d.modules.length ≤ next.modules.length
  /-- Places stay closed. -/
  pending_le : next.pending s ≤ d.pending s

end Discovery

/-- The number of a module, and what has been found once it and its imports are read. -/
structure Visited (s : Sources) (d : Discovery) extends d.Later s where
  id : FileId
  /-- The number belongs to a module. -/
  id_lt : id < next.modules.length

mutual

/-- Reads the module that a path names, and then its imports. A module that has been found already
is not read again, which ends the walk around a cycle. -/
def visit (s : Sources) (p : Path) (d : Discovery) : Except LoadFailure (Visited s d) :=
  let path := s.canonical p
  match known : d.names.lookup path.steps with
  | some id => .ok ⟨⟨d, Nat.le_refl _, Nat.le_refl _⟩, id, d.valid _ _ known⟩
  | none =>
    match readable : s.read path with
    | .error reason => .error (.unreadable path reason)
    | .ok text =>
      match Program.ofSource text with
      | .error errors => .error (.malformed path text errors)
      | .ok program =>
        let paths := program.imports.map fun i => path.resolve i.specifier.text
        let found : Module := ⟨d.modules.length, path, text, program, paths.map s.canonical⟩
        have closed : (d.register found).pending s < d.pending s :=
          Discovery.pending_register (s.mem_places p text readable) known
        match visitAll s paths (d.register found) with
        | .error failure => .error failure
        | .ok later =>
          have more : d.modules.length < later.next.modules.length := by
            have := later.grows
            simp only [Discovery.register, List.length_append, List.length_singleton] at this
            omega
          .ok ⟨⟨later.next, Nat.le_of_lt more,
            Nat.le_trans later.pending_le (Nat.le_of_lt closed)⟩, found.id, more⟩
termination_by (d.pending s, 0)

/-- Reads the modules that paths name, one after the other. Each path keeps naming its module even
if another path stands for it. -/
def visitAll (s : Sources) (paths : List Path) (d : Discovery) :
    Except LoadFailure (d.Later s) :=
  match paths with
  | [] => .ok ⟨d, Nat.le_refl _, Nat.le_refl _⟩
  | p :: paths =>
    match visit s p d with
    | .error failure => .error failure
    | .ok visited =>
      let named := visited.next.addName p visited.id visited.id_lt
      have fewer : named.pending s ≤ d.pending s :=
        Nat.le_trans (Discovery.pending_addName ..) visited.pending_le
      match visitAll s paths named with
      | .error failure => .error failure
      | .ok later =>
        .ok ⟨later.next, Nat.le_trans visited.grows later.grows,
          Nat.le_trans later.pending_le fewer⟩
termination_by (d.pending s, paths.length + 1)
decreasing_by
  · exact Prod.Lex.right _ (Nat.succ_pos _)
  · rcases Nat.lt_or_eq_of_le fewer with h | h
    · exact Prod.Lex.left _ _ h
    · rw [h]; exact Prod.Lex.right _ (Nat.lt_succ_self _)

end

/-- Reads an entry file and everything that it imports. -/
def ModuleGraph.load (s : Sources) (entry : Path) : Except LoadFailure ModuleGraph :=
  match visit s entry .nothing with
  | .error failure => .error failure
  | .ok visited =>
    .ok ⟨visited.next.modules, visited.next.names, fun h => by
      have := visited.id_lt
      simp [h] at this⟩

end ScriptToGo
