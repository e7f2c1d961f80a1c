/-! What can go wrong only through misuse of the output, never through a program. -/
namespace ScriptToGo

/-- A rule of the output that its user has broken. -/
inductive Misuse
  /-- A slot was looked for in a text that has no such slot. -/
  | foreignSlot
  /-- The last element of a stack was to be removed. -/
  | stackFloor (stack : String)
  /-- A stack was left with more than its last element. -/
  | unbalanced (stack : String) (depth : Nat)
  | insideCharacter
deriving DecidableEq

def Misuse.message : Misuse → String
  | foreignSlot => "INVARIANT: placeholder id does not belong to this accumulator"
  | stackFloor stack => s!"INVARIANT: {stack} stack popped below its base"
  | unbalanced stack depth =>
    s!"INVARIANT: {stack} stack unbalanced at end of emission (depth {depth})"
  | insideCharacter => "byte offset is not a character boundary"

end ScriptToGo
