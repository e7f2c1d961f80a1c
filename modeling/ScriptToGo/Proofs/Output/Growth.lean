import ScriptToGo.Proofs.Output.Slots
import Mathlib.Data.List.Induction
import Mathlib.Logic.Function.Basic

/-! Texts inside of each other, grown by edits that reach them through their handles. -/
namespace ScriptToGo

/-- Which text is meant: the number of a slot in the outermost text, the number of a slot in that
one, and so on. A text counts its slots in the order in which it has reserved them. -/
abbrev Site := List Nat

/-- A text inside of another, as it is seen from there. -/
def Site.seenFrom? : Site → Site → Option Site
  | [], site => some site
  | _ :: _, [] => none
  | k :: outer, j :: site => if k = j then seenFrom? outer site else none

/-- An edit of one of the texts. -/
structure Write where
  site : Site
  edit : Edit
deriving DecidableEq

/-- A text with the handles that it and the texts inside of it have given out, oldest first. -/
@[ext]
structure Growth where
  tree : TextTree
  handles : Site → List SlotId

namespace TextTree

/-- The text that is reached through slots inside of each other. -/
def follow : List SlotId → TextTree → Except Misuse TextTree
  | [], t => .ok t
  | id :: inner, t => do follow inner (← t.slot id)

end TextTree

namespace Growth

def new (t : TextTree) : Growth := ⟨t, fun _ => []⟩

/-- The handles through which a text is reached. -/
def pathIn (handles : Site → List SlotId) : Site → Except Misuse (List SlotId)
  | [] => .ok []
  | k :: inner =>
    match (handles [])[k]? with
    | none => .error .foreignSlot
    | some id => do return id :: (← pathIn (fun below => handles (k :: below)) inner)

def path (g : Growth) (site : Site) : Except Misuse (List SlotId) := pathIn g.handles site

/-- Edits a text that is reached through its handles. A handle that is given out is kept. -/
def write (g : Growth) (w : Write) : Except Misuse Growth := do
  let (id, tree) ← TextTree.within (fun t => .ok (w.edit.apply t)) (← g.path w.site) g.tree
  return ⟨tree, Function.update g.handles w.site (g.handles w.site ++ id.toList)⟩

def run (g : Growth) (writes : List Write) : Except Misuse Growth := writes.foldlM write g

/-- A text in a slot, with the handles from it on. -/
def child (g : Growth) (k : Nat) : Except Misuse Growth :=
  match (g.handles [])[k]? with
  | none => .error .foreignSlot
  | some id => do return ⟨← g.tree.slot id, fun below => g.handles (k :: below)⟩

/-- A text that is reached through its handles, with the handles from it on. -/
def reach (g : Growth) : Site → Except Misuse Growth
  | [] => .ok g
  | k :: inner => do (← g.child k).reach inner

end Growth

/-- Each slot is reserved before anything is written in it. -/
inductive Orderly : List Write → Prop
  | nil : Orderly []
  | snoc {run : List Write} {w : Write} (before : Orderly run)
      (reserved : ∀ outer k, w.site = outer ++ [k] → k < run.count ⟨outer, .reserve⟩) :
      Orderly (run ++ [w])

namespace Write

/-- What is written in a text and in those inside of it, as it is seen from there. -/
def inside (site : Site) (run : List Write) : List Write :=
  run.filterMap fun w => (Site.seenFrom? site w.site).map (⟨·, w.edit⟩)

theorem inside_append (site : Site) (a b : List Write) :
    inside site (a ++ b) = inside site a ++ inside site b := List.filterMap_append

theorem inside_nil (run : List Write) : inside [] run = run := by
  rw [inside]
  exact List.filterMap_some

theorem inside_cons (k : Nat) (site : Site) (run : List Write) :
    inside (k :: site) run = inside site (inside [k] run) := by
  rw [inside, inside, inside, List.filterMap_filterMap]
  refine congrArg (List.filterMap · run) (funext fun w => ?_)
  rcases w with ⟨_ | ⟨j, s⟩, e⟩
  · rfl
  · by_cases h : k = j <;> simp [Site.seenFrom?, h]

theorem inside_root (k : Nat) (e : Edit) : inside [k] [⟨[], e⟩] = [] := rfl

theorem inside_same (k : Nat) (s : Site) (e : Edit) : inside [k] [⟨k :: s, e⟩] = [⟨s, e⟩] := by
  simp [inside, Site.seenFrom?]

theorem inside_other {k j : Nat} (h : k ≠ j) (s : Site) (e : Edit) :
    inside [k] [⟨j :: s, e⟩] = [] := by
  simp [inside, Site.seenFrom?, h]

/-- What a text in a slot receives is received through the slot. -/
theorem filter_inside (k : Nat) (s : Site) (run : List Write) :
    (inside [k] run).filter (·.site = s) = inside [k] (run.filter (·.site = k :: s)) := by
  rw [inside, inside, List.filter_filterMap, List.filterMap_filter]
  refine congrArg (List.filterMap · run) (funext fun w => ?_)
  rcases w with ⟨_ | ⟨j, s'⟩, e⟩
  · rfl
  · by_cases h : k = j
    · subst h
      by_cases h' : s' = s <;> simp [Site.seenFrom?, h']
    · simp [Site.seenFrom?, h]

theorem count_inside (k : Nat) (s : Site) (run : List Write) (e : Edit) :
    (inside [k] run).count ⟨s, e⟩ = run.count ⟨k :: s, e⟩ := by
  induction run with
  | nil => rfl
  | cons w run ih =>
    rw [show w :: run = [w] ++ run from rfl, inside_append, List.count_append, List.count_append,
      ih]
    congr 1
    rcases w with ⟨_ | ⟨j, s'⟩, e'⟩
    · simp [inside_root]
    · by_cases h : k = j
      · subst h
        rw [inside_same]
        simp [List.count_singleton]
      · rw [inside_other h]
        simp [Ne.symm h]

theorem mem_inside {k : Nat} {run : List Write} {w : Write} :
    w ∈ inside [k] run ↔ ⟨k :: w.site, w.edit⟩ ∈ run := by
  rw [← List.count_pos_iff, ← List.count_pos_iff, ← count_inside]

theorem eq_nil_of_bound {run : List Write} (bound : ∀ w ∈ run, w.site.length < 0) : run = [] :=
  List.eq_nil_iff_forall_not_mem.2 fun w mem => Nat.not_lt_zero _ (bound w mem)

theorem length_inside {n : Nat} {run : List Write} (bound : ∀ w ∈ run, w.site.length < n + 1)
    (k : Nat) : ∀ w ∈ inside [k] run, w.site.length < n :=
  fun _ mem => Nat.succ_lt_succ_iff.1 (bound _ (mem_inside.1 mem))

end Write

open Write

namespace Orderly

variable {run : List Write} {w : Write}

theorem root (h : Orderly run) (e : Edit) : Orderly (run ++ [⟨[], e⟩]) :=
  h.snoc fun _ _ eq => by simp at eq

theorem inSlot (h : Orderly run) (outer : Site) {k : Nat} (lt : k < run.count ⟨outer, .reserve⟩)
    (e : Edit) : Orderly (run ++ [⟨outer ++ [k], e⟩]) :=
  h.snoc fun outer' k' eq => by
    obtain ⟨rfl, last⟩ := List.append_inj' eq rfl
    obtain rfl := List.singleton_inj.1 last
    exact lt

theorem init (h : Orderly (run ++ [w])) : Orderly run := by
  generalize eq : run ++ [w] = longer at h
  cases h with
  | nil => simp at eq
  | snoc before reserved =>
    obtain ⟨rfl, last⟩ := List.append_inj' eq rfl
    obtain rfl := List.singleton_inj.1 last
    exact before

theorem of_append {before after : List Write} (h : Orderly (before ++ after)) : Orderly before := by
  induction after using List.reverseRecOn with
  | nil => simpa using h
  | append_singleton after w ih =>
    rw [← List.append_assoc] at h
    exact ih h.init

theorem inside (h : Orderly run) (k : Nat) : Orderly (inside [k] run) := by
  induction h with
  | nil => exact .nil
  | @snoc run w _ reserved ih =>
    rw [inside_append]
    rcases w with ⟨_ | ⟨j, s⟩, e⟩
    · simpa [inside_root] using ih
    · by_cases same : k = j
      · subst same
        rw [inside_same]
        refine ih.snoc fun outer i eq => ?_
        rw [count_inside]
        exact reserved (k :: outer) i (congrArg (k :: ·) eq)
      · rwa [inside_other same, List.append_nil]

/-- What is written inside of a slot is written inside of a slot that has been reserved. -/
theorem reserved_of_mem (h : Orderly run) {k : Nat} {s : Site} {e : Edit}
    (mem : ⟨k :: s, e⟩ ∈ run) : k < run.count ⟨[], .reserve⟩ := by
  induction h generalizing s e with
  | nil => cases mem
  | @snoc run w _ reserved ih =>
    rw [List.count_append]
    refine Nat.lt_add_right _ ?_
    rcases List.mem_append.1 mem with mem | mem
    · exact ih mem
    · obtain rfl := List.mem_singleton.1 mem
      rcases List.eq_nil_or_concat s with rfl | ⟨outer, i, rfl⟩
      · exact reserved [] k rfl
      · rw [List.concat_eq_append] at reserved
        exact ih (List.count_pos_iff.1 (Nat.zero_lt_of_lt (reserved (k :: outer) i rfl)))

end Orderly

theorem bind_eq_ok {ε α β : Type} {x : Except ε α} {f : α → Except ε β} {b : β} :
    (x >>= f) = .ok b ↔ ∃ a, x = .ok a ∧ f a = .ok b := by
  cases x with
  | error m => simp [bind, Except.bind]
  | ok a => simp [bind, Except.bind]

namespace Growth

variable {g g' c c' : Growth} {k : Nat} {id : SlotId}

theorem run_append (g : Growth) (a b : List Write) :
    g.run (a ++ b) = (g.run a >>= fun mid => mid.run b) := List.foldlM_append

theorem run_singleton (g : Growth) (w : Write) : g.run [w] = g.write w := bind_pure (g.write w)

/-- The outermost text, edited. -/
def edit (g : Growth) (e : Edit) : Growth :=
  ⟨(e.apply g.tree).2, Function.update g.handles [] (g.handles [] ++ (e.apply g.tree).1.toList)⟩

theorem child_eq_ok : g.child k = .ok c ↔ ∃ id, (g.handles [])[k]? = some id
    ∧ g.tree.slot id = .ok c.tree ∧ c.handles = fun below => g.handles (k :: below) := by
  rw [child]
  cases handle : (g.handles [])[k]? with
  | none => simp
  | some id =>
    cases c with
    | mk tree handles =>
      cases slot : g.tree.slot id with
      | error m => simp [slot, bind, Except.bind]
      | ok content => simp [slot, bind, Except.bind, pure, Except.pure, eq_comm]

/-- A text that differs from another only by what is in one of its slots. -/
structure Differs (g : Growth) (k : Nat) (g' c' : Growth) : Prop where
  frame : g'.tree.frame = g.tree.frame
  handles : g'.handles [] = g.handles []
  child : g'.child k = .ok c'
  below : ∀ j ≠ k, ∀ site, g'.handles (j :: site) = g.handles (j :: site)
  slot : ∀ id, (g.handles [])[k]? ≠ some id → g'.tree.slot id = g.tree.slot id

theorem write_eq_ok {s : Site} {e : Edit} : g.write ⟨s, e⟩ = .ok g' ↔ ∃ path given tree,
    g.path s = .ok path ∧ TextTree.within (fun t => .ok (e.apply t)) path g.tree = .ok (given, tree)
      ∧ g' = ⟨tree, Function.update g.handles s (g.handles s ++ given.toList)⟩ := by
  constructor
  · intro written
    obtain ⟨path, reached, written⟩ := bind_eq_ok.1 written
    obtain ⟨⟨given, tree⟩, worked, written⟩ := bind_eq_ok.1 written
    exact ⟨path, given, tree, reached, worked, (Except.ok.inj written).symm⟩
  · rintro ⟨path, given, tree, reached, worked, rfl⟩
    exact bind_eq_ok.2 ⟨path, reached, bind_eq_ok.2 ⟨(given, tree), worked, rfl⟩⟩

/-- What is written in a slot is written in its text. -/
theorem write_slot {s : Site} {e : Edit} (child : g.child k = .ok c)
    (written : c.write ⟨s, e⟩ = .ok c') :
    ∃ g', g.write ⟨k :: s, e⟩ = .ok g' ∧ g.Differs k g' c' := by
  obtain ⟨id, handle, slot, handles⟩ := child_eq_ok.1 child
  obtain ⟨path, given, tree, reached, worked, rfl⟩ := write_eq_ok.1 written
  obtain ⟨filled, fill, frame, inSlot, others⟩ := TextTree.fill_of_slot slot tree
  have reached' : g.path (k :: s) = .ok (id :: path) := by
    rw [Growth.path, handles] at reached
    simp only [Growth.path, pathIn, handle, reached]
    rfl
  have worked' : TextTree.within (fun t => .ok (e.apply t)) (id :: path) g.tree
      = .ok (given, filled) := by
    rw [TextTree.within, slot]
    exact bind_eq_ok.2 ⟨_, rfl, bind_eq_ok.2 ⟨_, worked, bind_eq_ok.2 ⟨_, fill, rfl⟩⟩⟩
  refine ⟨_, write_eq_ok.2 ⟨_, _, _, reached', worked', rfl⟩, frame, ?_, ?_, ?_, ?_⟩
  · simp
  · refine child_eq_ok.2 ⟨id, by simpa using handle, inSlot, funext fun below => ?_⟩
    rw [handles]
    by_cases same : below = s
    · simp [same]
    · simp [same]
  · intro j ne site
    simp [ne]
  · intro other ne
    refine others other fun same => ne ?_
    rw [same, handle]

end Growth

end ScriptToGo
