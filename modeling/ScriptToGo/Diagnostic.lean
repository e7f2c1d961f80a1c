import ScriptToGo.Text.Span
import ScriptToGo.Text.Position

/-! What the user is told about a program that is not accepted. -/
namespace ScriptToGo

/-- Which part of the work refuses a program. -/
inductive Diagnostic.Kind
  | general | syntactic | typing
deriving DecidableEq

/-- The words that introduce a diagnostic of each kind. -/
def Diagnostic.Kind.label : Diagnostic.Kind → String
  | general => "error"
  | syntactic => "syntax error"
  | typing => "type error"

/-- A message about a place in a file, with remarks that may help. -/
structure Diagnostic where
  kind : Diagnostic.Kind
  message : String
  span : Span
  notes : List String
  hints : List String

/-- A diagnostic made ready for display beside its source. -/
structure Diagnostic.Excerpt where
  message : String
  file : String
  source : String
  offset : Nat
  length : Nat
  help : Option String

/-- Fits a range into a text of the given size. An empty range is widened to one byte unless it
stands at the end. -/
def Span.clamp (span : Span) (size : Nat) : Nat × Nat :=
  let first := min span.start size
  let last := max first (min span.stop size)
  (first, if first < last then last - first else if first < size then 1 else 0)

theorem Span.clamp_le (span : Span) (size : Nat) : (span.clamp size).1 + (span.clamp size).2 ≤ size := by
  rw [clamp]
  dsimp only
  split
  · omega
  · split <;> omega

namespace Diagnostic

def Excerpt.plain (message file source : String) (span : Span) : Excerpt :=
  let (offset, length) := span.clamp source.utf8ByteSize
  ⟨message, file, source, offset, length, none⟩

/-- Shows a diagnostic in its file, the notes before the hints, one to a line. -/
def excerpt (d : Diagnostic) (file source : String) : Excerpt :=
  let (offset, length) := d.span.clamp source.utf8ByteSize
  let remarks := d.notes ++ d.hints
  ⟨s!"{d.kind.label}: {d.message}", file, source, offset, length,
    if remarks.isEmpty then none else some ("\n".intercalate remarks)⟩

end Diagnostic

end ScriptToGo
