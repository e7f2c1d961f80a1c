import ScriptToGo.Module.Path
import ScriptToGo.Output.Misuse
import ScriptToGo.Text.Position
import ScriptToGo.Text.Span
import ScriptToGo.Types.Target

/-! Why a part of a program is not written in Go. -/
namespace ScriptToGo

/-- A place in a source file, for people. -/
structure Location where
  path : Path
  position : Text.Position
  span : Span

def Location.text (l : Location) : String :=
  s!"{l.path.text}:{l.position.line}:{l.position.column}"

/-- The rules that write parts of a program in Go, one for each kind of part. -/
inductive Rule
  | topLevelStatement | blockLevelStatement | expression | binaryExpression
  | leadingOperator | trailingOperator | objectLiteral
deriving DecidableEq

namespace Rule

def all : List Rule :=
  [topLevelStatement, blockLevelStatement, expression, binaryExpression, leadingOperator,
   trailingOperator, objectLiteral]

def name : Rule → String
  | topLevelStatement => "emit_top_level_statement"
  | blockLevelStatement => "emit_block_level_statement"
  | expression => "emit_expression"
  | binaryExpression => "emit_binary_expression"
  | leadingOperator => "emit_prefix_unary_expression"
  | trailingOperator => "emit_postfix_unary_expression"
  | objectLiteral => "emit_object_literal_expression"

end Rule

/-- What Go needs and a part of a program may lack. -/
inductive Requirement
  | functionName
  | declaredResult (function : String)
  | functionBody (function : String)
  | plainName (name : String)
  | singleLoopVariable
  | typeName (what : String) (error : TypeNameError)
  /-- A requirement that comes with its own words. -/
  | stated (message : String)

/-- The text of each requirement when it is not met. -/
def Requirement.message : Requirement → String
  | functionName => "Cannot emit a function declaration without a name."
  | declaredResult function =>
    s!"Cannot emit function '{function}' without a declared return type."
  | functionBody function => s!"Cannot emit function '{function}' without a body."
  | plainName name =>
    s!"Cannot emit identifier '{name}': '$' is not allowed in Go identifiers."
  | singleLoopVariable => "Cannot emit a for-loop initializer that declares more than one variable."
  | typeName what error => s!"Cannot emit the type of {what}: {error.message}."
  | stated message => message

/-- The reasons not to write a part of a program in Go. -/
inductive RefusalCause
  /-- The rule for its place knows no part of its kind. -/
  | noRule (kindName : String) (rule : Rule)
  | noOperator (tokenName : String) (owner? : Option String) (rule : Rule)
  | unmet (requirement : Requirement)
  | unresolvedModule (specifier : String)

namespace RefusalCause

def message : RefusalCause → String
  | noRule kindName rule => s!"Failed to emit {kindName} in {rule.name}."
  | noOperator tokenName none rule => s!"Failed to emit {tokenName} in {rule.name}."
  | noOperator tokenName (some owner) rule =>
    s!"Failed to emit {tokenName} for {owner} in {rule.name}."
  | unmet requirement => requirement.message
  | unresolvedModule specifier => s!"Cannot resolve module '{specifier}'."

/-- The rule that was tried, if the cause lies there. -/
def rule? : RefusalCause → Option Rule
  | noRule _ rule | noOperator _ _ rule => some rule
  | unmet _ | unresolvedModule _ => none

/-- Where a rule was tried, the message names it last. -/
theorem message_of_rule? {cause : RefusalCause} {rule : Rule} (h : cause.rule? = some rule) :
    ∃ what : String, cause.message = "Failed to emit " ++ what ++ " in " ++ rule.name ++ "." := by
  cases cause with
  | noRule kindName tried =>
    obtain rfl : tried = rule := Option.some.inj h
    exact ⟨kindName, rfl⟩
  | noOperator tokenName owner? tried =>
    obtain rfl : tried = rule := Option.some.inj h
    match owner? with
    | none => exact ⟨tokenName, rfl⟩
    | some owner =>
      refine ⟨tokenName ++ " for " ++ owner, ?_⟩
      change "Failed to emit " ++ tokenName ++ " for " ++ owner ++ " in " ++ tried.name ++ "." = _
      simp only [String.append_assoc]
  | unmet | unresolvedModule => cases h

end RefusalCause

/-- A refusal to write a part of a program in Go, and where the part stands. -/
structure Refusal where
  location : Location
  cause : RefusalCause

def Refusal.message (r : Refusal) : String := s!"{r.location.text}: {r.cause.message}"

/-- How writing Go can fail. -/
inductive Failure
  /-- The program has a part that is not written in Go. -/
  | refused (refusal : Refusal)
  | misused (misuse : Misuse)

def Failure.message : Failure → String
  | refused refusal => refusal.message
  | misused misuse => misuse.message

def guarded {α : Type} : Except Misuse α → Except Failure α
  | .ok a => .ok a
  | .error misuse => .error (.misused misuse)

end ScriptToGo
