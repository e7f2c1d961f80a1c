import ScriptToGo.Program.Expr

/-! Statements, declarations and whole programs. -/
namespace ScriptToGo

/-- A parameter of a function. -/
structure Param where
  span : Span
  name : Name
  type? : Option TypeExpr

/-- What a function shows before its body. -/
structure FunctionHead where
  isExported : Bool
  /-- Whether it is the default export of its module. -/
  isDefault : Bool
  /-- Its name; only a default export may lack one. -/
  name? : Option Name
  params : List Param
  returns? : Option TypeExpr

/-- One of the names that an import lists. -/
structure ImportedName where
  span : Span
  imported : String
  localName : String

/-- An import of another module. -/
structure ImportDecl where
  default? : Option Name
  whole? : Option Name
  named : List ImportedName
  specifier : Name

/-- A declared object type. -/
structure InterfaceDecl where
  isExported : Bool
  name : Name
  members : List Member

/-- A declared name of a type. -/
structure AliasDecl where
  isExported : Bool
  name : Name
  type : TypeExpr

/-- The word that declares variables. -/
inductive VariableKeyword
  | constant | letWord | varWord
deriving DecidableEq

/-- The source spelling of a variable keyword. -/
def VariableKeyword.spelling : VariableKeyword → String
  | constant => "const"
  | letWord => "let"
  | varWord => "var"

/-- One declared variable. -/
structure Declarator where
  span : Span
  name : Name
  type? : Option TypeExpr
  initializer? : Option Expr

/-- Variables declared together. -/
structure VariableList where
  keyword : VariableKeyword
  declarators : List Declarator

/-- The first clause of a counted loop. -/
inductive LoopStart
  | nothing
  | «variables» (span : Span) (list : VariableList)
  | expression (value : Expr)

/-- The clauses of a counted loop. -/
structure LoopClauses where
  start : LoopStart
  condition? : Option Expr
  step? : Option Expr

/-- A written statement. Each form starts with the range it takes. -/
inductive Statement
  | function (span : Span) (head : FunctionHead) (bodySpan : Span) (body : List Statement)
  /-- A function without a body, which declares an overload. -/
  | overload (span : Span) (head : FunctionHead)
  | importing (span : Span) (decl : ImportDecl)
  | interface (span : Span) (decl : InterfaceDecl)
  | typeAlias (span : Span) (decl : AliasDecl)
  | block (span : Span) (statements : List Statement)
  | expression (span : Span) (value : Expr)
  | forLoop (span : Span) (clauses : LoopClauses) (body : Statement)
  | returning (span : Span) (value? : Option Expr)
  | «variables» (span : Span) (list : VariableList)
  | ifThen (span : Span) (condition : Expr) (thenBranch : Statement)
  | ifElse (span : Span) (condition : Expr) (thenBranch elseBranch : Statement)
  | whileLoop (span : Span) (condition : Expr) (body : Statement)
  | doLoop (span : Span) (body : Statement) (condition : Expr)
  | empty (span : Span)

namespace Statement

def span : Statement → Span
  | function s _ _ _ | overload s _ | importing s _ | interface s _ | typeAlias s _ | block s _
  | expression s _ | forLoop s _ _ | returning s _ | «variables» s _ | ifThen s _ _
  | ifElse s _ _ _ | whileLoop s _ _ | doLoop s _ _ | empty s => s

def kindName : Statement → String
  | function .. | overload .. => "FunctionDeclaration"
  | importing .. => "ImportDeclaration"
  | interface .. => "InterfaceDeclaration"
  | typeAlias .. => "TypeAliasDeclaration"
  | block .. => "Block"
  | expression .. => "ExpressionStatement"
  | forLoop .. => "ForStatement"
  | returning .. => "ReturnStatement"
  | «variables» .. => "VariableStatement"
  | ifThen .. | ifElse .. => "IfStatement"
  | whileLoop .. => "WhileStatement"
  | doLoop .. => "DoStatement"
  | empty .. => "EmptyStatement"

/-- The import that a statement makes, if it is one. -/
def import? : Statement → Option ImportDecl
  | importing _ decl => some decl
  | _ => none

end Statement

/-- A program is what its file holds from top to bottom. -/
abbrev Program := List Statement

def Program.imports (program : Program) : List ImportDecl := program.filterMap Statement.import?

end ScriptToGo
