/-! Byte ranges of a source file. -/
namespace ScriptToGo

/-- A half-open range of byte offsets. -/
structure Span where
  start : Nat
  stop : Nat
deriving DecidableEq

namespace Span

def cover (a b : Span) : Span := ⟨min a.start b.start, max a.stop b.stop⟩

def zero : Span := ⟨0, 0⟩

def le (a b : Span) : Bool := a.start < b.start || (a.start == b.start && a.stop ≤ b.stop)

end Span

end ScriptToGo
