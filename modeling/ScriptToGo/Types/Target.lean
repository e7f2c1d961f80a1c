import ScriptToGo.Text.Uppercase
import ScriptToGo.Types.Spelling
import ScriptToGo.Types.Table

/-! The Go names of types. -/
namespace ScriptToGo

/-- Why a part of a program has no Go type. -/
inductive TypeNameError
  | unresolved (text : String)
  | missing
deriving DecidableEq

def TypeNameError.message : TypeNameError → String
  | unresolved text => s!"type '{text}' could not be inferred"
  | missing => "no type was recorded for this node"

namespace Ty

mutual

/-- The Go name of a type. Arrays come first, even behind a name; other names stand for their
targets unless Go knows them. -/
def goName : Ty → Except TypeNameError String
  | number | numberLit _ => .ok Target.int
  | stringLit _ => .ok Target.string
  | any => .error (.unresolved any.text)
  | unknown => .error (.unresolved unknown.text)
  | array element => do return Target.slice ++ (← element.goName)
  | «alias» name target =>
    if target.isArrayLike || !Builtin.isNumericAlias name then target.goName
    else .ok (normalizeTypeText name)
  | object [] => .ok "struct\x7b\x7d"
  | object (.mk name type :: rest) => do
    let first ← type.goName
    let others ← goFields rest
    return s!"struct\x7b {Text.capitalized name} {first}{others} \x7d"
  | function params returns => do
    let params ← goParams params
    let result ← returns.goName
    let list := ", ".intercalate params
    let tail := if result = Target.void then "" else " " ++ result
    return s!"{Target.func}({list}){tail}"
  | t => .ok (normalizeTypeText t.text)

/-- Further fields of a struct, each after a semicolon. -/
def goFields : List Field → Except TypeNameError String
  | [] => .ok ""
  | .mk name type :: rest => do
    let first ← type.goName
    let others ← goFields rest
    return s!"; {Text.capitalized name} {first}{others}"

def goParams : List Field → Except TypeNameError (List String)
  | [] => .ok []
  | .mk _ type :: rest => do
    let first ← type.goName
    let others ← goParams rest
    return first :: others

end

/-- The Go name of an array is that of its elements behind brackets, also behind other names. -/
theorem goName_of_isArrayLike (t : Ty) (h : t.isArrayLike = true) :
    ∃ element, t.element? = some element ∧
      t.goName = do return Target.slice ++ (← element.goName) := by
  match t with
  | .array element => exact ⟨element, rfl, by rw [goName]⟩
  | .«alias» name target =>
    have inner : target.isArrayLike = true := h
    obtain ⟨element, found, named⟩ := goName_of_isArrayLike target inner
    refine ⟨element, found, ?_⟩
    rw [goName, inner, Bool.true_or, if_pos rfl, named]
  | .number | .numberLit _ | .string | .stringLit _ | .boolean | .booleanLit _ | .void | .null
  | .any | .unknown | .reference .. | .object .. | .function .. => cases h

end Ty

def TypeTable.goNameAt (t : TypeTable) (file : Nat) (span : Span) : Except TypeNameError String :=
  match t.typeAt file span with
  | some type => type.goName
  | none => .error .missing

end ScriptToGo
