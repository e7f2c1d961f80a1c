import ScriptToGo.Output.Misuse

/-! Stacks that keep their first element. -/
namespace ScriptToGo

/-- A stack with one element that is never removed. -/
structure Stack (α : Type) where
  /-- What the stack is called when it is misused. -/
  name : String
  base : α
  above : List α

namespace Stack

variable {α : Type}

def start (name : String) (base : α) : Stack α := ⟨name, base, []⟩

def toList (s : Stack α) : List α := s.above ++ [s.base]

def depth (s : Stack α) : Nat := s.above.length + 1

def top (s : Stack α) : α := s.above.headD s.base

def push (a : α) (s : Stack α) : Stack α := { s with above := a :: s.above }

def pop (s : Stack α) : Except Misuse (α × Stack α) :=
  match s.above with
  | [] => .error (.stackFloor s.name)
  | a :: rest => .ok (a, { s with above := rest })

def modifyTop (f : α → α) (s : Stack α) : Stack α :=
  match s.above with
  | [] => { s with base := f s.base }
  | a :: rest => { s with above := f a :: rest }

/-- The first element of a stack that has no other. -/
def finish (s : Stack α) : Except Misuse α :=
  if s.above.isEmpty then .ok s.base else .error (.unbalanced s.name s.depth)

@[simp] theorem pop_push (a : α) (s : Stack α) : (s.push a).pop = .ok (a, s) := rfl

/-- The newest element is the one that was put on top. -/
@[simp] theorem top_push (a : α) (s : Stack α) : (s.push a).top = a := rfl

@[simp] theorem top_modifyTop (f : α → α) (s : Stack α) : (s.modifyTop f).top = f s.top := by
  rw [modifyTop, top]
  split <;> simp_all [top]

@[simp] theorem modifyTop_start (f : α → α) (name : String) (base : α) :
    (start name base).modifyTop f = start name (f base) := rfl

@[simp] theorem top_start (name : String) (base : α) : (start name base).top = base := rfl

@[simp] theorem finish_start (name : String) (base : α) : (start name base).finish = .ok base := rfl

theorem modifyTop_modifyTop (f h : α → α) (s : Stack α) :
    (s.modifyTop f).modifyTop h = s.modifyTop fun a => h (f a) := by
  cases s with
  | mk name base above => cases above <;> rfl

theorem modifyTop_id (s : Stack α) : (s.modifyTop fun a => a) = s := by
  cases s with
  | mk name base above => cases above <;> rfl

end Stack

end ScriptToGo
