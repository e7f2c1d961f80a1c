import ScriptToGo.Output.Stack
import Mathlib.Data.List.Induction

/-! A stack after any number of steps, some of which may be refused. An element that is taken off has
been put on by one push, and what was changed since then while it was on top is all that was changed
in it. -/
namespace ScriptToGo

/-- What can be done to a stack. -/
inductive StackStep (α : Type)
  | push (a : α)
  | pop
  | modify (f : α → α)

namespace StackStep

variable {α : Type}

def isPush : StackStep α → Bool
  | push _ => true
  | _ => false

/-- The element after changes, one after the other. -/
def changed (a : α) (changes : List (α → α)) : α := changes.foldl (fun a f => f a) a

/-- How many elements are put on a stack. -/
def pushes (history : List (StackStep α)) : Nat := history.countP isPush

/-- Steps that take off again all that they put on, and nothing else. The changes are those made to the
element that is on top before and after. -/
inductive OneLevel : List (StackStep α) → List (α → α) → Prop
  | nil : OneLevel [] []
  | modify {steps changes f} : OneLevel steps changes →
      OneLevel (steps ++ [.modify f]) (changes ++ [f])
  | nested {steps changes a inner within} : OneLevel steps changes → OneLevel inner within →
      OneLevel (steps ++ .push a :: (inner ++ [.pop])) changes

/-- The changes that steps make to the first element of a stack, when some elements are above it. A pop
that finds none above it does nothing. -/
def baseChanges (above : Nat) : List (StackStep α) → List (α → α)
  | [] => []
  | push _ :: rest => baseChanges (above + 1) rest
  | pop :: rest => baseChanges (above - 1) rest
  | modify f :: rest => if above = 0 then f :: baseChanges above rest else baseChanges above rest

variable {steps : List (StackStep α)} {changes : List (α → α)}

/-- Where no step changes an element, the element on top is not changed. -/
theorem OneLevel.changes_eq_nil (h : OneLevel steps changes) (none : ∀ f, .modify f ∉ steps) :
    changes = [] := by
  induction h with
  | nil => rfl
  | @modify _ _ f => exact absurd (by simp) (none f)
  | nested _ _ ih => exact ih fun f mem => none f (List.mem_append_left _ mem)

theorem baseChanges_eq_nil (none : ∀ f, .modify f ∉ steps) (above : Nat) :
    baseChanges above steps = [] := by
  induction steps generalizing above with
  | nil => rfl
  | cons step rest ih =>
    have later := ih fun f mem => none f (List.mem_cons_of_mem _ mem)
    cases step with
    | push => exact later _
    | pop => exact later _
    | modify f => exact absurd List.mem_cons_self (none f)

end StackStep

namespace Stack
open StackStep

variable {α : Type} {name : String} {base a : α} {s : Stack α} {history more : List (StackStep α)}
  {changes : List (α → α)}

/-- A stack after a step. A pop that is refused leaves it as it is. -/
def after (s : Stack α) : StackStep α → Stack α
  | .push a => s.push a
  | .pop =>
    match s.pop with
    | .ok (_, left) => left
    | .error _ => s
  | .modify f => s.modifyTop f

def run (s : Stack α) (history : List (StackStep α)) : Stack α := history.foldl after s

/-- Whether a step takes an element off a stack. -/
def gives (s : Stack α) : StackStep α → Bool
  | .pop => s.pop.isOk
  | _ => false

/-- How many elements are taken off a stack on the way, where refused pops do not count. -/
def taken (s : Stack α) : List (StackStep α) → Nat
  | [] => 0
  | step :: rest => (if s.gives step then 1 else 0) + taken (s.after step) rest

theorem pop_eq_ok {left : Stack α} :
    s.pop = .ok (a, left) ↔ s = left.push a := by
  obtain ⟨name, base, above⟩ := s
  obtain ⟨name', base', above'⟩ := left
  cases above with
  | nil => simp [pop, push]
  | cons => simp [pop, push]; grind

theorem pop_eq_error {misuse : Misuse} :
    s.pop = .error misuse ↔ s.above = [] ∧ misuse = .stackFloor s.name := by
  rw [pop]
  split
  next none => simp [none, eq_comm]
  next some => simp [some]

theorem run_append : s.run (history ++ more) = (s.run history).run more := List.foldl_append

theorem run_concat (step : StackStep α) :
    s.run (history ++ [step]) = (s.run history).after step := run_append

@[simp] theorem after_push_pop : (s.push a).after .pop = s := rfl

@[simp] theorem modifyTop_push (f : α → α) : (s.push a).modifyTop f = s.push (f a) := rfl

@[simp] theorem name_modifyTop (f : α → α) : (s.modifyTop f).name = s.name := by
  rw [modifyTop]
  split <;> rfl

@[simp] theorem depth_modifyTop (f : α → α) : (s.modifyTop f).depth = s.depth := by
  obtain ⟨name, base, above⟩ := s
  cases above <;> rfl

@[simp] theorem above_modifyTop_eq_nil (f : α → α) : (s.modifyTop f).above = [] ↔ s.above = [] := by
  obtain ⟨name, base, above⟩ := s
  cases above <;> simp [modifyTop]

/-- Only the topmost element is changed. -/
theorem toList_modifyTop (f : α → α) : (s.modifyTop f).toList = f s.top :: s.toList.tail := by
  obtain ⟨name, base, above⟩ := s
  cases above <;> rfl

@[simp] theorem depth_push : (s.push a).depth = s.depth + 1 := rfl

theorem after_pop_of_nil (none : s.above = []) : s.after .pop = s := by
  rw [after, pop_eq_error.2 ⟨none, rfl⟩]

/-- Where something is above the first element, a pop takes the topmost off. -/
theorem exists_push (some : s.above ≠ []) : ∃ (left : Stack α) (a : α), s = left.push a := by
  obtain ⟨name, base, above⟩ := s
  obtain ⟨a, rest, rfl⟩ := List.exists_cons_of_ne_nil some
  exact ⟨⟨name, base, rest⟩, a, rfl⟩

@[simp] theorem name_after (step : StackStep α) : (s.after step).name = s.name := by
  cases step with
  | push => rfl
  | modify f => exact name_modifyTop f
  | pop =>
    by_cases none : s.above = []
    · rw [after_pop_of_nil none]
    · obtain ⟨left, a, rfl⟩ := exists_push none
      rfl

@[simp] theorem name_run (s : Stack α) (history : List (StackStep α)) :
    (s.run history).name = s.name := by
  induction history generalizing s with
  | nil => rfl
  | cons step rest ih => exact (ih _).trans (name_after step)

/-- What is put on a stack is taken off again or still there. -/
theorem depth_run (s : Stack α) (history : List (StackStep α)) :
    (s.run history).depth + s.taken history = s.depth + pushes history := by
  induction history generalizing s with
  | nil => rfl
  | cons step rest ih =>
    have later := ih (s.after step)
    rw [run, List.foldl_cons, ← run, taken, pushes, List.countP_cons, ← pushes]
    cases step with
    | push a =>
      simp only [gives, isPush, after, depth_push, ↓reduceIte, Bool.false_eq_true] at later ⊢
      omega
    | modify f =>
      simp only [gives, isPush, after, depth_modifyTop, ↓reduceIte, Bool.false_eq_true] at later ⊢
      omega
    | pop =>
      by_cases none : s.above = []
      · have refused : s.gives .pop = false := by rw [gives, pop_eq_error.2 ⟨none, rfl⟩]; rfl
        rw [after_pop_of_nil none] at later ⊢
        simp only [refused, isPush, ↓reduceIte, Bool.false_eq_true]
        omega
      · obtain ⟨left, a, rfl⟩ := exists_push none
        have given : (left.push a).gives .pop = true := rfl
        simp only [given, isPush, after_push_pop, depth_push, ↓reduceIte, Bool.false_eq_true]
          at later ⊢
        omega

/-- Steps on one level change the topmost element and leave the others alone. -/
theorem run_oneLevel (h : OneLevel history changes) (s : Stack α) :
    s.run history = s.modifyTop (changed · changes) := by
  induction h generalizing s with
  | nil => exact (modifyTop_id s).symm
  | @modify steps changes f _ ih =>
    rw [run_concat, ih, after, modifyTop_modifyTop]
    simp only [changed, List.foldl_append, List.foldl_cons, List.foldl_nil]
  | @nested steps changes a inner within _ _ ih ihInner =>
    rw [run_append, ih, run, List.foldl_cons, ← run, run_concat, ihInner]
    rfl

/-- While an element stays on a stack, the stack below it does not change. -/
theorem run_above (earlier : List (StackStep α)) (h : OneLevel history changes) (s : Stack α) :
    s.run (earlier ++ .push a :: history) = (s.run earlier).push (changed a changes) := by
  rw [run_append, run, List.foldl_cons, ← run, run_oneLevel h]
  rfl

/-- What is above the first element of a stack was put there by a push, and since then there were
only steps on its level. -/
theorem exists_oneLevel (history : List (StackStep α))
    (some : ((start name base).run history).above ≠ []) :
    ∃ earlier a inner changes, history = earlier ++ .push a :: inner ∧ OneLevel inner changes := by
  induction h : history.length using Nat.strongRecOn generalizing history with
  | _ n ih =>
    rcases List.eq_nil_or_concat history with rfl | ⟨before, step, rfl⟩
    · exact absurd rfl some
    · rw [List.concat_eq_append] at some h ⊢
      rw [List.length_append, List.length_singleton] at h
      rw [run_concat] at some
      cases step with
      | push a => exact ⟨before, a, [], [], rfl, .nil⟩
      | modify f =>
        rw [after, Ne, above_modifyTop_eq_nil] at some
        obtain ⟨earlier, a, inner, changes, rfl, level⟩ := ih _ (by omega) before some rfl
        exact ⟨earlier, a, inner ++ [.modify f], _, by simp, level.modify⟩
      | pop =>
        have above : ((start name base).run before).above ≠ [] := by
          intro none
          rw [after_pop_of_nil none] at some
          exact some none
        obtain ⟨earlier, a, inner, changes, rfl, level⟩ := ih _ (by omega) before above rfl
        -- The push found first is undone, so that the one before it counts.
        rw [run_above earlier level, after_push_pop] at some
        have fewer : earlier.length < n := by
          rw [List.length_append] at h
          omega
        obtain ⟨first, b, outer, changes', rfl, level'⟩ := ih _ fewer earlier some rfl
        exact ⟨first, b, outer ++ .push a :: (inner ++ [.pop]), _, by simp, level'.nested level⟩

/-- The first element is changed by what is done while nothing is above it. -/
theorem base_run (s : Stack α) (history : List (StackStep α)) :
    (s.run history).base = changed s.base (baseChanges s.above.length history) := by
  induction history generalizing s with
  | nil => rfl
  | cons step rest ih =>
    rw [run, List.foldl_cons, ← run, ih]
    cases step with
    | push a => rfl
    | modify f =>
      obtain ⟨name, base, above⟩ := s
      cases above <;> rfl
    | pop =>
      by_cases none : s.above = []
      · rw [after_pop_of_nil none, none]
        rfl
      · obtain ⟨left, a, rfl⟩ := exists_push none
        rfl

theorem getLast?_toList (s : Stack α) : s.toList.getLast? = some s.base := List.getLast?_concat

/-- Nothing is above the first element just where as much has been taken off as was put on. -/
theorem above_run_eq_nil : ((start name base).run history).above = [] ↔
    pushes history = (start name base).taken history := by
  have law := depth_run (start name base) history
  have first : (start name base).depth = 1 := rfl
  rw [first, depth] at law
  rw [← List.length_eq_zero_iff]
  omega

/-- A pop is refused where only the first element is left. Else it takes off what one push has put on,
with the changes made to it, and leaves the stack that was there before that push. -/
theorem pop_run (name : String) (base : α) (history : List (StackStep α)) :
    (pushes history = (start name base).taken history ∧
      ((start name base).run history).pop = .error (.stackFloor name)) ∨
    ∃ earlier a inner changes, history = earlier ++ .push a :: inner ∧ OneLevel inner changes ∧
      ((start name base).run history).pop
        = .ok (changed a changes, (start name base).run earlier) := by
  by_cases none : ((start name base).run history).above = []
  · exact .inl ⟨above_run_eq_nil.1 none, pop_eq_error.2 ⟨none, by rw [name_run]; rfl⟩⟩
  · obtain ⟨earlier, a, inner, changes, rfl, level⟩ := exists_oneLevel history none
    exact .inr ⟨earlier, a, inner, changes, rfl, level, pop_eq_ok.2 (run_above earlier level _)⟩

/-- A stack is balanced in the end if as much was taken off it as was put on it, and then its first
element is left. -/
theorem finish_run (name : String) (base : α) (history : List (StackStep α)) :
    ((start name base).run history).finish =
      if (start name base).taken history < pushes history then
        .error (.unbalanced name (pushes history - (start name base).taken history + 1))
      else .ok (changed base (baseChanges 0 history)) := by
  have law : ((start name base).run history).depth + (start name base).taken history
      = 1 + pushes history := depth_run _ _
  have none : ((start name base).run history).above.isEmpty = true ↔
      pushes history = (start name base).taken history := by
    rw [List.isEmpty_iff, above_run_eq_nil]
  rw [finish]
  split
  next done =>
    have all := none.1 done
    rw [if_neg (by omega), base_run]
    rfl
  next more =>
    have least : 1 ≤ ((start name base).run history).depth := Nat.le_add_left ..
    have rest : (start name base).taken history < pushes history := by
      have := mt none.2 more
      omega
    rw [if_pos rest, name_run, show ((start name base).run history).depth
      = pushes history - (start name base).taken history + 1 by omega]
    rfl

end Stack

end ScriptToGo
