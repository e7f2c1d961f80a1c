import ScriptToGo.Text.Span
import ScriptToGo.Types.Ty

/-! The types of the parts of a program. -/
namespace ScriptToGo

/-- A part of a program: the number of its module and the range it takes. -/
abbrev Place := Nat × Span

/-- The types that have been given to places, the newest first. -/
structure TypeTable where
  /-- What has been recorded. A newer record hides older ones of the same place. -/
  records : List (Place × Ty)

namespace TypeTable

def empty : TypeTable := ⟨[]⟩

/-- Gives a place a type, whatever it had before. -/
def record (t : TypeTable) (file : Nat) (span : Span) (type : Ty) : TypeTable :=
  ⟨((file, span), type) :: t.records⟩

def typeAt (t : TypeTable) (file : Nat) (span : Span) : Option Ty := t.records.lookup (file, span)

def isArrayAt (t : TypeTable) (file : Nat) (span : Span) : Bool :=
  (t.typeAt file span).any Ty.isArrayLike

def isNumberAt (t : TypeTable) (file : Nat) (span : Span) : Bool :=
  (t.typeAt file span).any Ty.isNumberLike

def visible : List (Place × Ty) → List (Place × Ty)
  | [] => []
  | r :: rest => r :: (visible rest).filter (·.1 != r.1)

def placeLe (a b : Place) : Bool := a.1 < b.1 || (a.1 == b.1 && a.2.le b.2)

/-- Every place with its type, in source order. -/
def toList (t : TypeTable) : List (Place × Ty) :=
  (visible t.records).mergeSort fun a b => placeLe a.1 b.1

end TypeTable

end ScriptToGo
