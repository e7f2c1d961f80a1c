import ScriptToGo.Vocabulary.Builtin

/-! The types that checking gives to the parts of a program. -/
namespace ScriptToGo

mutual

/-- A type. -/
inductive Ty
  | number
  | numberLit (text : String)
  | string
  /-- The type of one string, written as the inside of a Go string literal. -/
  | stringLit (body : String)
  | boolean
  | booleanLit (value : Bool)
  | void
  | null
  | any
  /-- Nothing is known, because an error has been reported. -/
  | unknown
  | array (element : Ty)
  /-- A name for another type, shown as that name. -/
  | «alias» (name : String) (target : Ty)
  | reference (name : String) (args : List Ty)
  | object (fields : List Field)
  | function (params : List Field) (returns : Ty)

/-- A field of an object, or a parameter of a function. -/
inductive Field
  | mk (name : String) (type : Ty)

end

namespace Field

def name : Field → String
  | mk name _ => name

def type : Field → Ty
  | mk _ type => type

end Field

namespace Ty

def isFunction : Ty → Bool
  | function .. => true
  | _ => false

mutual

/-- A type in the spelling of the source language. -/
def text : Ty → String
  | number => Primitive.number.spelling
  | numberLit text => text
  | string => Primitive.string.spelling
  | stringLit body => s!"\"{body}\""
  | boolean => Primitive.boolean.spelling
  | booleanLit value => if value then "true" else "false"
  | void => Primitive.void.spelling
  | null => "null"
  | any => Primitive.any.spelling
  | unknown => "unknown"
  | array element => if element.isFunction then s!"({element.text})[]" else s!"{element.text}[]"
  | «alias» name _ => name
  | reference name args =>
    match args with
    | [] => name
    | first :: rest => s!"{name}<{first.text}{argsText rest}>"
  | object [] => "\x7b\x7d"
  | object fields => s!"\x7b {fieldsText fields}\x7d"
  | function params returns =>
    match params with
    | [] => s!"() => {returns.text}"
    | .mk name type :: rest => s!"({name}: {type.text}{paramsText rest}) => {returns.text}"

def argsText : List Ty → String
  | [] => ""
  | arg :: rest => s!", {arg.text}{argsText rest}"

/-- Fields, each closed by a semicolon and a blank. -/
def fieldsText : List Field → String
  | [] => ""
  | .mk name type :: rest => s!"{name}: {type.text}; {fieldsText rest}"

def paramsText : List Field → String
  | [] => ""
  | .mk name type :: rest => s!", {name}: {type.text}{paramsText rest}"

end

/-- What a type stands for, seen through names. -/
def resolved : Ty → Ty
  | «alias» _ target => target.resolved
  | t => t

mutual

/-- The type of a variable that may take other values of the same kind. -/
def widened : Ty → Ty
  | numberLit _ => number
  | stringLit _ => string
  | booleanLit _ => boolean
  | array element => array element.widened
  | object fields => object (widenedFields fields)
  | t => t

def widenedFields : List Field → List Field
  | [] => []
  | .mk name type :: rest => .mk name type.widened :: widenedFields rest

end

/-- The type of the elements, if the type is that of an array. -/
def element? (t : Ty) : Option Ty :=
  match t.resolved with
  | array element => some element
  | _ => none

def isArrayLike (t : Ty) : Bool := t.element?.isSome

def isNumberLike (t : Ty) : Bool :=
  match t.resolved with
  | number | numberLit _ => true
  | _ => false

def isStringLike (t : Ty) : Bool :=
  match t.resolved with
  | string | stringLit _ => true
  | _ => false

/-- Whether anything goes with a type, by choice or after an error. -/
def isDynamic (t : Ty) : Bool :=
  match t.resolved with
  | any | unknown => true
  | _ => false

end Ty

end ScriptToGo
