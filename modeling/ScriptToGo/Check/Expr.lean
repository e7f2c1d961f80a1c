import ScriptToGo.Check.Collect

/-! The types of expressions. Every expression gets its type at its place. -/
namespace ScriptToGo
open Check

/-- What an expression is used for. -/
inductive Use
  /-- Its value, and the type that a value at this place should have. -/
  | value (expected? : Option Ty)
  /-- It is written to; the fault of all that cannot be written to. -/
  | target (otherwise : TypeFault)

/-- The type that a value should have at a place. -/
def Use.expected? : Use → Option Ty
  | value expected? => expected?
  | target _ => none

namespace Field

def typeIn? (name : String) (fields : List Field) : Option Ty :=
  (fields.find? (·.name == name)).map Field.type

/-- Gives a field a type. A new field comes last. -/
def set (name : String) (type : Ty) : List Field → List Field
  | [] => [.mk name type]
  | .mk other old :: rest =>
    if other == name then .mk name type :: rest else .mk other old :: set name type rest

/-- Gives each field of the second list its type in the first. -/
def setAll (fields new : List Field) : List Field :=
  new.foldl (fun fields f => set f.name f.type fields) fields

end Field

namespace Check

def typeOfName (file : FileId) (name : String) (span : Span) : Check Ty := do
  match ← kind? name with
  | some (.variable type _) => return type
  | some (.function params returns _) => return .function params returns
  | some (.global value) => return .reference value.typeName []
  | some (.builtin _) | some (.interface _) | some (.«alias» ..) =>
    fault file (.typeAsValue name) span
  | none => fault file (.unknownName name) span

/-- Reports a name that may not be written to. -/
def requireWritable (file : FileId) (name : String) (span : Span) : Check PUnit := do
  match ← kind? name with
  | some (.variable _ (some .constant)) => report file (.assignedConstant name) span
  | some (.function ..) => report file (.assignedFunction name) span
  | _ => return

/-- The fields of an object type or of an interface. -/
def fields? (type : Ty) : Check (Option (List Field)) := do
  match type.resolved with
  | .object fields => return some fields
  | .reference name _ =>
    match ← kind? name with
    | some (.interface members) => return some members
    | _ => return none
  | _ => return none

/-- Whether a name is that of the type of a global value with the method. -/
def isGlobalMethod (typeName method : String) : Bool :=
  Builtin.globals.any fun g => g.typeName == typeName && g.methods.contains method

def typeOfMember (file : FileId) (object : Ty) (property : Name) : Check Ty := do
  let type := object.resolved
  let field? := ((← fields? type).bind (Field.typeIn? property.text))
  let unknown := fault file (.unknownProperty property.text object.text) property.span
  if type.isDynamic then return type
  else if property.text == "length" && (type.isArrayLike || type.isStringLike) then return .number
  else
    match field?, type with
    | some field, _ => return field
    | none, .reference name _ =>
      if isGlobalMethod name property.text then return .function [] .void else unknown
    | none, _ => unknown

def typeOfElement (object : Ty) : Ty :=
  match object.resolved with
  | .array element => element
  | type => if type.isStringLike then .string else if type.isDynamic then type else .any

/-- Whether a value belongs to the type of a global value. -/
def isGlobal : Option Ty → Bool
  | some (.reference name _) => Builtin.globals.any (·.typeName == name)
  | _ => false

/-- Whether a call goes to a method of a global value. Such a method takes any number of arguments. -/
def callsGlobal (file : FileId) : Expr → Check Bool
  | .member _ object _ => return isGlobal (← recorded? file object.span)
  | _ => return false

/-- The type of a negated value. Negating the type of one number changes its sign. -/
def negated : Ty → Ty
  | .numberLit text =>
    match text.toList with
    | '-' :: digits => .numberLit (String.ofList digits)
    | _ => .numberLit ("-" ++ text)
  | type => if type.isDynamic then type else .number

def typeOfAssignment (op : BinaryOp) (target value : Ty) : Ty :=
  match op with
  | .assign => value
  | .addAssign => if target.isStringLike || value.isStringLike then .string else target
  | _ => target

/-- The type of a binary operation that writes nothing. -/
def typeOfOperation (op : BinaryOp) (left right : Ty) : Ty :=
  match op with
  | .add =>
    if left.isStringLike || right.isStringLike then .string
    else if left.isDynamic || right.isDynamic then .any
    else .number
  | .sub | .mul | .div | .mod => .number
  | _ => .boolean

/-- Gives an expression its type. As a target it is one that cannot be written to. -/
def settle (file : FileId) (use : Use) (span : Span) (find : Check Ty) : Check Ty := do
  let type ← recording file span find
  match use with
  | .value _ => return type
  | .target otherwise => fault file otherwise span

end Check

mutual

/-- Finds the types of an expression and of all its parts. The type that a value should have shapes
the types of literals; it is not enforced. -/
def Expr.check (file : FileId) (use : Use) : Expr → Check Ty
  | .ident span name => do
    let type ← recording file span (typeOfName file name span)
    match use with
    | .value _ => return type
    | .target _ =>
      requireWritable file name span
      return type
  | .member span object property => recording file span do
    let type ← object.check file (.value none)
    typeOfMember file type property
  | .index span object index => recording file span do
    let type ← object.check file (.value none)
    discard <| index.check file (.value none)
    return typeOfElement type
  | .paren span inner => recording file span (inner.check file use)
  | .number span text => settle file use span (return .numberLit text)
  | .string span body => settle file use span (return .stringLit body)
  | .boolean span value => settle file use span (return .booleanLit value)
  | .null span => settle file use span (return .null)
  | .template span _ holes => settle file use span do
    TemplateHole.checkAll file holes
    return .string
  | .array span elements => settle file use span do
    let types ← Expr.checkElements file (use.expected?.bind Ty.element?) elements
    match use.expected?.filter Ty.isArrayLike, types with
    | some type, _ => return type
    | none, [] => return .array .any
    | none, first :: _ => return .array first.widened
  | .object span properties => settle file use span do
    return .object (← Property.checkAll file [] properties)
  | .leading span op _ operand => settle file use span do
    let type ← operand.check file (if op.isUpdate then .target .badStepTarget else .value none)
    match op with
    | .not => return .boolean
    | .negate => return negated type
    | .plus | .increment | .decrement => return .number
  | .trailing span operand _ _ => settle file use span do
    discard <| operand.check file (.target .badStepTarget)
    return .number
  | .binary span left op _ right => settle file use span do
    if op.isAssignment then
      let target ← left.check file (.target .badAssignmentTarget)
      let value ← right.check file (.value (some target))
      return typeOfAssignment op target value
    else
      let left ← left.check file (.value none)
      let right ← right.check file (.value none)
      return typeOfOperation op left right
  | .call span callee args => settle file use span do
    let type ← callee.check file (.value none)
    match type.resolved with
    | .function params returns =>
      if !(← callsGlobal file callee) && args.length != params.length then
        report file (.argumentCount params.length args.length) span
      Expr.checkArgs file params args
      return returns
    | type =>
      Expr.checkArgs file [] args
      if type.isDynamic then return type else fault file .notCallable callee.span
  | .conditional span condition whenTrue whenFalse => settle file use span do
    discard <| condition.check file (.value none)
    let type ← whenTrue.check file (.value use.expected?)
    discard <| whenFalse.check file (.value use.expected?)
    return type.widened
  | .cast span operand type => settle file use span do
    discard <| operand.check file (.value none)
    resolveType file type

/-- The types of the elements of an array, in order. -/
def Expr.checkElements (file : FileId) (expected? : Option Ty) : List Expr → Check (List Ty)
  | [] => return []
  | e :: rest => do
    let type ← e.check file (.value expected?)
    let types ← Expr.checkElements file expected? rest
    return type :: types

/-- Checks arguments, each with the type of its parameter in mind. -/
def Expr.checkArgs (file : FileId) (params : List Field) : List Expr → Check PUnit
  | [] => return
  | e :: rest => do
    discard <| e.check file (.value (params.head?.map Field.type))
    Expr.checkArgs file params.tail rest

/-- The fields that the properties of an object give it, added to those before. -/
def Property.checkAll (file : FileId) (fields : List Field) : List Property → Check (List Field)
  | [] => return fields
  | .assign _ name value :: rest => do
    let type ← value.check file (.value none)
    Property.checkAll file (Field.set name.text type.widened fields) rest
  | .shorthand _ name :: rest => do
    let type ← recording file name.span do
      return (← typeOfName file name.text name.span).widened
    Property.checkAll file (Field.set name.text type fields) rest
  | .spread _ value :: rest => do
    let type ← value.check file (.value none)
    match ← fields? type with
    | some new => Property.checkAll file (Field.setAll fields new) rest
    | none =>
      unless type.isDynamic do report file .spreadOfNonObject value.span
      Property.checkAll file fields rest

def TemplateHole.checkAll (file : FileId) : List TemplateHole → Check PUnit
  | [] => return
  | .mk value _ :: rest => do
    discard <| value.check file (.value none)
    TemplateHole.checkAll file rest

end

end ScriptToGo
