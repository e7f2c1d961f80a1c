import ScriptToGo.Go.Code
import ScriptToGo.Go.View

/-! Expressions in Go. -/
namespace ScriptToGo

/-- Whether Go code is written for an operation. -/
def BinaryOp.isWritten : BinaryOp → Bool
  | mul | mulAssign | assign | greater | greaterEq | less | lessEq | sub | subAssign | add
  | addAssign | div | divAssign => true
  | _ => false

/-- Static text inside of a format, where a percent sign is written twice. -/
def formatText (text : String) : String :=
  String.ofList (text.toList.flatMap fun c => if c = '%' then ['%', '%'] else [c])

/-- The format of a template: a verb for each interpolation. -/
def templateFormat (head : String) (holes : List TemplateHole) : String :=
  formatText head ++ String.join (holes.map fun h => Target.verb ++ formatText h.after)

mutual

def Expr.toGo (v : View) : Expr → Except Failure Snippet
  | .array span elements => do
    let type ← v.typeName span "an array literal"
    let items ← Expr.allToGo v elements
    return type ++ "\x7b" ++ .commaSeparated items ++ "\x7d"
  | .binary span left op opSpan right => do
    unless op.isWritten do
      v.refuse opSpan (.noOperator op.tokenName (some (Expr.binary span left op opSpan right).kindName)
        .binaryExpression)
    let first ← left.toGo v
    let second ← right.toGo v
    let second :=
      if v.isString left.span && !v.isString right.span then .sprintf Target.verb [second]
      else second
    return first ++ s!" {op.spelling} " ++ second
  | .call _ callee args => do
    let function ← callee.toGo v
    let items ← Expr.allToGo v args
    return function ++ "(" ++ .commaSeparated items ++ ")"
  | .index _ object index => do
    let object ← object.toGo v
    let index ← index.toGo v
    return object ++ "[" ++ index ++ "]"
  | .ident span name => do
    let name ← v.plainName name span
    return ⟨name, v.importsOfName name span⟩
  | .number _ text => return text
  | .object span properties => do
    let type ← v.typeName span "an object literal"
    let items ← Property.allToGo v properties
    return type ++ "\x7b" ++ .commaSeparated items ++ "\x7d"
  | .paren _ inner => return "(" ++ (← inner.toGo v) ++ ")"
  | .leading _ op opSpan operand => do
    if op = .plus then v.refuse opSpan (.noOperator op.tokenName none .leadingOperator)
    return op.spelling ++ (← operand.toGo v)
  | .trailing _ operand op opSpan => do
    unless op.isUpdate do v.refuse opSpan (.noOperator op.tokenName none .trailingOperator)
    return (← operand.toGo v) ++ op.spelling
  | .member _ object property => do
    if property.text == "length" && v.isArray object.span then
      return s!"{Target.len}(" ++ (← object.toGo v) ++ ")"
    else
      let name ← v.plainName property.text property.span
      return (← object.toGo v) ++ "." ++ Text.capitalized name
  | .string _ body => return s!"\"{body}\""
  | .template _ head holes => do
    let items ← TemplateHole.allToGo v holes
    return .sprintf (templateFormat head holes) items
  | .boolean _ value => return if value then "true" else "false"
  | .cast span operand type =>
    v.refuse span (.noRule (Expr.cast span operand type).kindName .expression)
  | .conditional span condition whenTrue whenFalse =>
    v.refuse span
      (.noRule (Expr.conditional span condition whenTrue whenFalse).kindName .expression)
  | .null span => v.refuse span (.noRule (Expr.null span).kindName .expression)

def Expr.allToGo (v : View) : List Expr → Except Failure (List Snippet)
  | [] => return []
  | e :: rest => do
    let first ← e.toGo v
    let others ← Expr.allToGo v rest
    return first :: others

/-- The Go code of each property. Fields start with an uppercase letter. -/
def Property.allToGo (v : View) : List Property → Except Failure (List Snippet)
  | [] => return []
  | .assign _ name value :: rest => do
    let field ← v.plainName name.text name.span
    let value ← value.toGo v
    let others ← Property.allToGo v rest
    return (s!"{Text.capitalized field}: " ++ value) :: others
  | .shorthand _ name :: rest => do
    let field ← v.plainName name.text name.span
    let value : Snippet := ⟨field, v.importsOfName field name.span⟩
    let others ← Property.allToGo v rest
    return (s!"{Text.capitalized field}: " ++ value) :: others
  | .spread span value :: _ =>
    v.refuse span (.noRule (Property.spread span value).kindName .objectLiteral)

/-- The Go code of what a template interpolates. -/
def TemplateHole.allToGo (v : View) : List TemplateHole → Except Failure (List Snippet)
  | [] => return []
  | .mk value _ :: rest => do
    let first ← value.toGo v
    let others ← TemplateHole.allToGo v rest
    return first :: others

end

end ScriptToGo
