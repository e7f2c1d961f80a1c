import ScriptToGo.Program.TypeExpr
import ScriptToGo.Vocabulary.Operator

/-! Expressions as programs write them. -/
namespace ScriptToGo

mutual

/-- A written expression. Each form starts with the range it takes. -/
inductive Expr
  | array (span : Span) (elements : List Expr)
  | cast (span : Span) (operand : Expr) (type : TypeExpr)
  | binary (span : Span) (left : Expr) (op : BinaryOp) (opSpan : Span) (right : Expr)
  | call (span : Span) (callee : Expr) (args : List Expr)
  | conditional (span : Span) (condition whenTrue whenFalse : Expr)
  | index (span : Span) (object index : Expr)
  | ident (span : Span) (name : String)
  | number (span : Span) (text : String)
  | object (span : Span) (properties : List Property)
  | paren (span : Span) (inner : Expr)
  | leading (span : Span) (op : UnaryOp) (opSpan : Span) (operand : Expr)
  | trailing (span : Span) (operand : Expr) (op : UnaryOp) (opSpan : Span)
  | member (span : Span) (object : Expr) (property : Name)
  /-- A string, written as the inside of a Go string literal. -/
  | string (span : Span) (body : String)
  /-- A template, its texts written as string bodies are. -/
  | template (span : Span) (head : String) (holes : List TemplateHole)
  | boolean (span : Span) (value : Bool)
  | null (span : Span)

/-- A property of an object literal. -/
inductive Property
  | assign (span : Span) (name : Name) (value : Expr)
  /-- A property that takes the value of the variable of its name. -/
  | shorthand (span : Span) (name : Name)
  | spread (span : Span) (value : Expr)

/-- An interpolation and the static text after it. -/
inductive TemplateHole
  | mk (value : Expr) (after : String)

end

namespace TemplateHole

def value : TemplateHole → Expr
  | mk value _ => value

def after : TemplateHole → String
  | mk _ after => after

end TemplateHole

namespace Expr

def span : Expr → Span
  | array s _ | cast s _ _ | binary s _ _ _ _ | call s _ _ | conditional s _ _ _ | index s _ _
  | ident s _ | number s _ | object s _ | paren s _ | leading s _ _ _ | trailing s _ _ _
  | member s _ _ | string s _ | template s _ _ | boolean s _ | null s => s

def kindName : Expr → String
  | array .. => "ArrayLiteralExpression"
  | cast .. => "AsExpression"
  | binary .. => "BinaryExpression"
  | call .. => "CallExpression"
  | conditional .. => "ConditionalExpression"
  | index .. => "ElementAccessExpression"
  | ident .. => "Identifier"
  | number .. => "NumericLiteral"
  | object .. => "ObjectLiteralExpression"
  | paren .. => "ParenthesizedExpression"
  | leading .. => "PrefixUnaryExpression"
  | trailing .. => "PostfixUnaryExpression"
  | member .. => "PropertyAccessExpression"
  | string .. => "StringLiteral"
  | template .. => "TemplateExpression"
  | boolean _ true => "TrueKeyword"
  | boolean _ false => "FalseKeyword"
  | null .. => "NullKeyword"

end Expr

namespace Property

def span : Property → Span
  | assign s _ _ | shorthand s _ | spread s _ => s

def kindName : Property → String
  | assign .. => "PropertyAssignment"
  | shorthand .. => "ShorthandPropertyAssignment"
  | spread .. => "SpreadAssignment"

end Property

end ScriptToGo
