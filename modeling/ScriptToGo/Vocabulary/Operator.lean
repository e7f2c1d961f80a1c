/-! The operators of the source language with the facts that parsing and emission share. -/
namespace ScriptToGo

/-- An operator token. -/
inductive Operator
  | plus | minus | star | slash | percent
  | less | lessEq | greater | greaterEq
  | equal | strictEqual | notEqual | strictNotEqual
  | and | or | bang
  | assign | plusAssign | minusAssign | starAssign | slashAssign | percentAssign
  | increment | decrement
deriving DecidableEq

/-- How a chain of one operator groups. -/
inductive Operator.Associativity
  | left | right
deriving DecidableEq

/-- Where an operator may stand relative to its operands. -/
inductive Operator.Fixity
  | between | before | betweenOrBefore | update
deriving DecidableEq

namespace Operator

def all : List Operator :=
  [plus, minus, star, slash, percent,
   less, lessEq, greater, greaterEq, equal, strictEqual, notEqual, strictNotEqual,
   and, or, bang,
   assign, plusAssign, minusAssign, starAssign, slashAssign, percentAssign,
   increment, decrement]

def spelling : Operator → String
  | plus => "+"
  | minus => "-"
  | star => "*"
  | slash => "/"
  | percent => "%"
  | less => "<"
  | lessEq => "<="
  | greater => ">"
  | greaterEq => ">="
  | equal => "=="
  | strictEqual => "==="
  | notEqual => "!="
  | strictNotEqual => "!=="
  | and => "&&"
  | or => "||"
  | bang => "!"
  | assign => "="
  | plusAssign => "+="
  | minusAssign => "-="
  | starAssign => "*="
  | slashAssign => "/="
  | percentAssign => "%="
  | increment => "++"
  | decrement => "--"

def tokenName : Operator → String
  | plus => "PlusToken"
  | minus => "MinusToken"
  | star => "AsteriskToken"
  | slash => "SlashToken"
  | percent => "PercentToken"
  | less => "LessThanToken"
  | lessEq => "LessThanEqualsToken"
  | greater => "GreaterThanToken"
  | greaterEq => "GreaterThanEqualsToken"
  | equal => "EqualsEqualsToken"
  | strictEqual => "EqualsEqualsEqualsToken"
  | notEqual => "ExclamationEqualsToken"
  | strictNotEqual => "ExclamationEqualsEqualsToken"
  | and => "AmpersandAmpersandToken"
  | or => "BarBarToken"
  | bang => "ExclamationToken"
  | assign => "EqualsToken"
  | plusAssign => "PlusEqualsToken"
  | minusAssign => "MinusEqualsToken"
  | starAssign => "AsteriskEqualsToken"
  | slashAssign => "SlashEqualsToken"
  | percentAssign => "PercentEqualsToken"
  | increment => "PlusPlusToken"
  | decrement => "MinusMinusToken"

/-- Binding strength: a higher number binds tighter, and assignments share the lowest. -/
def precedence : Operator → Nat
  | assign | plusAssign | minusAssign | starAssign | slashAssign | percentAssign => 10
  | or => 20
  | and => 30
  | equal | strictEqual | notEqual | strictNotEqual => 40
  | less | lessEq | greater | greaterEq => 50
  | plus | minus => 60
  | star | slash | percent => 70
  | bang => 80
  | increment | decrement => 90

/-- Only negation and the assignments group from the right. -/
def associativity : Operator → Associativity
  | bang | assign | plusAssign | minusAssign | starAssign | slashAssign | percentAssign => .right
  | _ => .left

/-- Signs stand between or before operands, the step operators before or after one. -/
def fixity : Operator → Fixity
  | plus | minus => .betweenOrBefore
  | bang => .before
  | increment | decrement => .update
  | _ => .between

def isAssignment (op : Operator) : Bool :=
  op.precedence == assign.precedence

/-- Every operator, longer spellings before shorter ones. -/
def byLength : List Operator :=
  [strictEqual, strictNotEqual,
   equal, notEqual, lessEq, greaterEq, and, or,
   plusAssign, minusAssign, starAssign, slashAssign, percentAssign, increment, decrement,
   plus, minus, star, slash, percent, less, greater, bang, assign]

def ofSpelling? (text : String) : Option Operator :=
  all.find? (·.spelling == text)

end Operator

/-- The meaning of an operator that stands between two operands. -/
inductive BinaryOp
  | add | sub | mul | div | mod
  | less | lessEq | greater | greaterEq
  | equal | strictEqual | notEqual | strictNotEqual
  | and | or
  | assign | addAssign | subAssign | mulAssign | divAssign | modAssign
deriving DecidableEq

namespace BinaryOp

def token : BinaryOp → Operator
  | add => .plus
  | sub => .minus
  | mul => .star
  | div => .slash
  | mod => .percent
  | less => .less
  | lessEq => .lessEq
  | greater => .greater
  | greaterEq => .greaterEq
  | equal => .equal
  | strictEqual => .strictEqual
  | notEqual => .notEqual
  | strictNotEqual => .strictNotEqual
  | and => .and
  | or => .or
  | assign => .assign
  | addAssign => .plusAssign
  | subAssign => .minusAssign
  | mulAssign => .starAssign
  | divAssign => .slashAssign
  | modAssign => .percentAssign

/-- The binary operation that a token writes between two operands, if it can stand there. -/
def ofToken? : Operator → Option BinaryOp
  | .plus => some add
  | .minus => some sub
  | .star => some mul
  | .slash => some div
  | .percent => some mod
  | .less => some less
  | .lessEq => some lessEq
  | .greater => some greater
  | .greaterEq => some greaterEq
  | .equal => some equal
  | .strictEqual => some strictEqual
  | .notEqual => some notEqual
  | .strictNotEqual => some strictNotEqual
  | .and => some and
  | .or => some or
  | .assign => some assign
  | .plusAssign => some addAssign
  | .minusAssign => some subAssign
  | .starAssign => some mulAssign
  | .slashAssign => some divAssign
  | .percentAssign => some modAssign
  | .bang | .increment | .decrement => none

/-- Reading back the token of an operation gives the operation. -/
@[simp] theorem ofToken?_token (op : BinaryOp) : ofToken? op.token = some op := by
  cases op <;> rfl

/-- The source spelling of a binary operation. -/
def spelling (op : BinaryOp) : String := op.token.spelling

/-- The diagnostic name of a binary operation. -/
def tokenName (op : BinaryOp) : String := op.token.tokenName

def precedence (op : BinaryOp) : Nat := op.token.precedence

def isAssignment (op : BinaryOp) : Bool := op.token.isAssignment

end BinaryOp

/-- The meaning of an operator with a single operand. -/
inductive UnaryOp
  | not | negate | plus | increment | decrement
deriving DecidableEq

namespace UnaryOp

def token : UnaryOp → Operator
  | not => .bang
  | negate => .minus
  | plus => .plus
  | increment => .increment
  | decrement => .decrement

/-- The unary operation that a token writes before its operand, if it can stand there. -/
def ofLeadingToken? : Operator → Option UnaryOp
  | .bang => some not
  | .minus => some negate
  | .plus => some plus
  | .increment => some increment
  | .decrement => some decrement
  | _ => none

/-- The step operation that a token writes after its operand, if it can stand there. -/
def ofTrailingToken? : Operator → Option UnaryOp
  | .increment => some increment
  | .decrement => some decrement
  | _ => none

def spelling (op : UnaryOp) : String := op.token.spelling

def tokenName (op : UnaryOp) : String := op.token.tokenName

/-- The step operations write to their operand. -/
def isUpdate : UnaryOp → Bool
  | increment | decrement => true
  | _ => false

end UnaryOp

/-- Chains of assignments are the ones with two operands that group from the right. -/
theorem BinaryOp.isAssignment_iff {op : BinaryOp} :
    op.isAssignment = true ↔ op.token.associativity = .right := by
  cases op <;> decide

/-- An operator is read between two operands, before or after one just where it may stand. -/
theorem Operator.read_iff_fixity (op : Operator) :
    ((BinaryOp.ofToken? op).isSome = true ↔ op.fixity = .between ∨ op.fixity = .betweenOrBefore) ∧
      ((UnaryOp.ofLeadingToken? op).isSome = true ↔ op.fixity ≠ .between) ∧
      ((UnaryOp.ofTrailingToken? op).isSome = true ↔ op.fixity = .update) := by
  cases op <;> decide

end ScriptToGo
