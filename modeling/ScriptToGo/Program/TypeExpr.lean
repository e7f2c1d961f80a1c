import ScriptToGo.Text.Span

/-! Types as programs write them. -/
namespace ScriptToGo

/-- A name and where it is written. -/
structure Name where
  text : String
  span : Span

mutual

/-- A written type. Parentheses leave no trace but the wider range. -/
inductive TypeExpr
  | named (span : Span) (name : String) (args : List TypeExpr)
  | array (span : Span) (element : TypeExpr)
  | string (span : Span) (body : String)
  /-- The type of one number, which may carry a minus sign. -/
  | number (span : Span) (text : String)
  | boolean (span : Span) (value : Bool)
  | null (span : Span)
  | object (span : Span) (members : List Member)

/-- A member of an object type or of an interface. -/
inductive Member
  | mk (span : Span) (name : String) (isOptional : Bool) (type : TypeExpr)

end

namespace Member

def span : Member → Span
  | mk span _ _ _ => span

def name : Member → String
  | mk _ name _ _ => name

def isOptional : Member → Bool
  | mk _ _ isOptional _ => isOptional

def type : Member → TypeExpr
  | mk _ _ _ type => type

end Member

namespace TypeExpr

def span : TypeExpr → Span
  | named s _ _ | array s _ | string s _ | number s _ | boolean s _ | null s | object s _ => s

def withSpan (s : Span) : TypeExpr → TypeExpr
  | named _ name args => named s name args
  | array _ element => array s element
  | string _ body => string s body
  | number _ text => number s text
  | boolean _ value => boolean s value
  | null _ => null s
  | object _ members => object s members

mutual

def text : TypeExpr → String
  | named _ name args =>
    match args with
    | [] => name
    | first :: rest => s!"{name}<{first.text}{argsText rest}>"
  | array _ element => s!"{element.text}[]"
  | string _ body => s!"\"{body}\""
  | number _ text => text
  | boolean _ value => if value then "true" else "false"
  | null _ => "null"
  | object _ members => s!"\x7b{membersText members} \x7d"

def argsText : List TypeExpr → String
  | [] => ""
  | arg :: rest => s!", {arg.text}{argsText rest}"

/-- Members, each after a blank and closed by a semicolon. -/
def membersText : List Member → String
  | [] => ""
  | .mk _ name isOptional type :: rest =>
    let mark := if isOptional then "?" else ""
    s!" {name}{mark}: {type.text};{membersText rest}"

end

end TypeExpr

end ScriptToGo
