import ScriptToGo.Go.Expr
import ScriptToGo.Program.Statement

/-! Statements and functions in Go. -/
namespace ScriptToGo

/-- The Go code of a declared variable. A number takes the type that has been found for it. -/
def Declarator.toGo (v : View) (d : Declarator) : Except Failure Snippet := do
  let name ← v.plainName d.name.text d.name.span
  let what := s!"variable '{name}'"
  match d.initializer? with
  | some value =>
    if v.isNumber d.span then
      let type ← v.typeName d.span what
      return s!"{name} {Target.shortDeclaration} {type}(" ++ (← value.toGo v) ++ ")"
    else
      return s!"{name} {Target.shortDeclaration} " ++ (← value.toGo v)
  | none =>
    let type ← v.typeName d.span what
    return s!"{Target.var} {name} {type}"

/-- The Go code of what a loop does before its first round. -/
def LoopStart.toGo (v : View) : LoopStart → Except Failure Snippet
  | .nothing => return ""
  | .expression value => value.toGo v
  | .«variables» span list =>
    match list.declarators with
    | [d] => d.toGo v
    | _ => v.refuse span (.unmet .singleLoopVariable)

/-- The Go code of a clause that may be left out. -/
def clauseToGo (v : View) : Option Expr → Except Failure Snippet
  | none => return ""
  | some e => e.toGo v

def LoopClauses.toGo (v : View) (clauses : LoopClauses) : Except Failure Snippet := do
  let start ← clauses.start.toGo v
  let condition ← clauseToGo v clauses.condition?
  let step ← clauseToGo v clauses.step?
  return "for " ++ start ++ "; " ++ condition ++ "; " ++ step ++ " "

mutual

/-- The Go code of a statement inside of a function, which takes whole lines. -/
def Statement.toGo (v : View) : Statement → Except Failure (List Code)
  | .block _ body => return [.block "" (← Statement.allToGo v body)]
  | .expression _ value => return [.line (← value.toGo v)]
  | .forLoop _ clauses (.block _ body) => do
    let head ← clauses.toGo v
    return [.block head (← Statement.allToGo v body)]
  | .forLoop _ clauses body => do
    let head ← clauses.toGo v
    return [.block head (← body.toGo v)]
  | .returning _ none => return [.line "return"]
  | .returning _ (some value) => return [.line ("return " ++ (← value.toGo v))]
  | .«variables» _ list => list.declarators.mapM fun d => return .line (← d.toGo v)
  | s => v.refuse s.span (.noRule s.kindName .blockLevelStatement)

/-- The Go code of statements, one after the other. -/
def Statement.allToGo (v : View) : List Statement → Except Failure (List Code)
  | [] => return []
  | s :: rest => do
    let first ← s.toGo v
    let others ← Statement.allToGo v rest
    return first ++ others

end

def Param.toGo (v : View) (p : Param) : Except Failure String := do
  let name ← v.plainName p.name.text p.name.span
  let type ← v.typeName p.span s!"parameter '{name}'"
  return s!"{name} {type}"

/-- The Go code of a function. Go needs its name, its result type and its body. -/
def FunctionHead.toGo (v : View) (span : Span) (head : FunctionHead) (body? : Option (List Statement)) :
    Except Failure Code := do
  let some name := head.name? | v.refuse span (.unmet .functionName)
  let goName ← v.plainName name.text name.span
  let some returns := head.returns? | v.refuse name.span (.unmet (.declaredResult name.text))
  let some body := body? | v.refuse name.span (.unmet (.functionBody name.text))
  let params ← head.params.mapM (Param.toGo v)
  let result ← v.typeName returns.span s!"the return type of '{name.text}'"
  let tail := if result = Target.void then "" else result ++ " "
  let list := ", ".intercalate params
  return .block s!"{Target.func} {goName}({list}) {tail}" (← Statement.allToGo v body)

/-- The Go code of a statement that no other statement holds. Only functions are written. An
unresolved import has no statements that could stand in its place. -/
def Statement.toGoTopLevel (v : View) : Statement → Except Failure Code
  | .function span head _ body => head.toGo v span (some body)
  | .overload span head => head.toGo v span none
  | .importing span decl => v.refuse span (.unresolvedModule decl.specifier.text)
  | s => v.refuse s.span (.noRule s.kindName .topLevelStatement)

end ScriptToGo
