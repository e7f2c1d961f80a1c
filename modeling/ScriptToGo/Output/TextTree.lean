import ScriptToGo.Output.Misuse

/-! Text built line by line, with slots that are filled later. -/
namespace ScriptToGo

mutual

/-- A piece of text that is complete. -/
inductive Segment
  | line (text : String)
  | slot (content : TextTree)

/-- The segments so far, the line still being written, the depth at which lines start, and what is
written once for each level of depth. -/
inductive TextTree
  | mk (segments : List Segment) (openLine : String) (depth : Nat) (unit : String)

end

/-- The slot of a text: the number of its segment. -/
structure SlotId where
  index : Nat
deriving DecidableEq

namespace TextTree

/-- The text that is written once for each level, unless told otherwise. -/
def tab : String := "\t"

def segments : TextTree → List Segment
  | mk segments _ _ _ => segments

def openLine : TextTree → String
  | mk _ openLine _ _ => openLine

def depth : TextTree → Nat
  | mk _ _ depth _ => depth

/-- What is written once for each level of depth. -/
def unit : TextTree → String
  | mk _ _ _ unit => unit

def empty (depth : Nat) (unit : String) : TextTree := mk [] "" depth unit

/-- What a line at the current depth starts with. -/
def margin (t : TextTree) : String := String.join (List.replicate t.depth t.unit)

/-- Writes on the open line. The first text on it comes after the margin. -/
def append (s : String) (t : TextTree) : TextTree :=
  mk t.segments ((if t.openLine = "" then t.margin else t.openLine) ++ s) t.depth t.unit

def newLine (t : TextTree) : TextTree :=
  mk (t.segments ++ [.line t.openLine]) "" t.depth t.unit

/-- Writes on the open line and closes it. A line without text has no margin. -/
def appendLine (s : String) (t : TextTree) : TextTree :=
  if s = "" then t.newLine else (t.append s).newLine

/-- Clears the open line, or drops the last closed line if the open one is empty. A slot is never
dropped. -/
def removeLine (t : TextTree) : TextTree :=
  if t.openLine ≠ "" then mk t.segments "" t.depth t.unit
  else
    match t.segments.getLast? with
    | some (.line _) => mk t.segments.dropLast "" t.depth t.unit
    | _ => t

def indent (t : TextTree) : TextTree := mk t.segments t.openLine (t.depth + 1) t.unit

def unindent (t : TextTree) : TextTree := mk t.segments t.openLine (t.depth - 1) t.unit

/-- Keeps a place for text that is written later, on lines of its own at the current depth. -/
def reserve (t : TextTree) : SlotId × TextTree :=
  let t := if t.openLine = "" then t else t.newLine
  (⟨t.segments.length⟩, mk (t.segments ++ [.slot (empty t.depth t.unit)]) "" t.depth t.unit)

def slot (t : TextTree) (id : SlotId) : Except Misuse TextTree :=
  match t.segments[id.index]? with
  | some (.slot content) => .ok content
  | _ => .error .foreignSlot

def fill (t : TextTree) (id : SlotId) (content : TextTree) : Except Misuse TextTree := do
  let _ ← t.slot id
  return mk (t.segments.set id.index (.slot content)) t.openLine t.depth t.unit

/-- Moves the text out of a slot, which stays at its depth. -/
def take (t : TextTree) (id : SlotId) : Except Misuse (TextTree × TextTree) := do
  let content ← t.slot id
  return (content, ← t.fill id (empty content.depth content.unit))

/-- Works on the text that is reached through slots inside of each other. -/
def within {α : Type} (work : TextTree → Except Misuse (α × TextTree)) :
    List SlotId → TextTree → Except Misuse (α × TextTree)
  | [], t => work t
  | id :: inner, t => do
    let (value, content) ← within work inner (← t.slot id)
    return (value, ← t.fill id content)

end TextTree

namespace Segment

mutual

/-- What a segment adds to its text. The last line of a slot is closed unless it is empty. -/
def render : Segment → String
  | .line text => text ++ "\n"
  | .slot (.mk segments openLine _ _) =>
    renderAll segments ++ (if openLine = "" then "" else openLine ++ "\n")

/-- What segments add to their text, one after the other. -/
def renderAll : List Segment → String
  | [] => ""
  | s :: rest => s.render ++ renderAll rest

end

mutual

/-- Whether a segment adds nothing to its text. -/
def isEmpty : Segment → Bool
  | .line _ => false
  | .slot (.mk segments openLine _ _) => openLine == "" && allEmpty segments

/-- Whether segments add nothing to their text. -/
def allEmpty : List Segment → Bool
  | [] => true
  | s :: rest => s.isEmpty && allEmpty rest

end

end Segment

namespace TextTree

/-- The whole text. Its last line is left open. -/
def render (t : TextTree) : String := Segment.renderAll t.segments ++ t.openLine

def isEmpty (t : TextTree) : Bool := t.openLine == "" && Segment.allEmpty t.segments

end TextTree

end ScriptToGo
