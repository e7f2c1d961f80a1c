import ScriptToGo.Program.Statement
import ScriptToGo.Proofs.Token.Shift

/-! Programs that are written further on in a file. -/
namespace ScriptToGo

namespace Span

theorem shift_zero (s : Span) : s.shift 0 = s := rfl

theorem cover_shift (n : Nat) (a b : Span) : (a.shift n).cover (b.shift n) = (a.cover b).shift n := by
  simp only [cover, shift, Nat.add_min_add_right, Nat.add_max_add_right]

end Span

def Name.shift (n : Nat) (name : Name) : Name := ⟨name.text, name.span.shift n⟩

mutual

/-- A written type further on in its file, and with it the types inside of it. -/
def TypeExpr.shift (n : Nat) : TypeExpr → TypeExpr
  | .named span name args => .named (span.shift n) name (TypeExpr.shiftAll n args)
  | .array span element => .array (span.shift n) (element.shift n)
  | .string span body => .string (span.shift n) body
  | .number span text => .number (span.shift n) text
  | .boolean span value => .boolean (span.shift n) value
  | .null span => .null (span.shift n)
  | .object span members => .object (span.shift n) (Member.shiftAll n members)

def TypeExpr.shiftAll (n : Nat) : List TypeExpr → List TypeExpr
  | [] => []
  | type :: rest => type.shift n :: TypeExpr.shiftAll n rest

def Member.shiftAll (n : Nat) : List Member → List Member
  | [] => []
  | .mk span name isOptional type :: rest =>
    .mk (span.shift n) name isOptional (type.shift n) :: Member.shiftAll n rest

end

mutual

/-- An expression further on in its file, and with it all that it is made of. -/
def Expr.shift (n : Nat) : Expr → Expr
  | .array span elements => .array (span.shift n) (Expr.shiftAll n elements)
  | .cast span operand type => .cast (span.shift n) (operand.shift n) (type.shift n)
  | .binary span left op opSpan right =>
    .binary (span.shift n) (left.shift n) op (opSpan.shift n) (right.shift n)
  | .call span callee args => .call (span.shift n) (callee.shift n) (Expr.shiftAll n args)
  | .conditional span condition whenTrue whenFalse =>
    .conditional (span.shift n) (condition.shift n) (whenTrue.shift n) (whenFalse.shift n)
  | .index span object index => .index (span.shift n) (object.shift n) (index.shift n)
  | .ident span name => .ident (span.shift n) name
  | .number span text => .number (span.shift n) text
  | .object span properties => .object (span.shift n) (Property.shiftAll n properties)
  | .paren span inner => .paren (span.shift n) (inner.shift n)
  | .leading span op opSpan operand =>
    .leading (span.shift n) op (opSpan.shift n) (operand.shift n)
  | .trailing span operand op opSpan =>
    .trailing (span.shift n) (operand.shift n) op (opSpan.shift n)
  | .member span object property => .member (span.shift n) (object.shift n) (property.shift n)
  | .string span body => .string (span.shift n) body
  | .template span head holes => .template (span.shift n) head (TemplateHole.shiftAll n holes)
  | .boolean span value => .boolean (span.shift n) value
  | .null span => .null (span.shift n)

def Expr.shiftAll (n : Nat) : List Expr → List Expr
  | [] => []
  | e :: rest => e.shift n :: Expr.shiftAll n rest

def Property.shift (n : Nat) : Property → Property
  | .assign span name value => .assign (span.shift n) (name.shift n) (value.shift n)
  | .shorthand span name => .shorthand (span.shift n) (name.shift n)
  | .spread span value => .spread (span.shift n) (value.shift n)

def Property.shiftAll (n : Nat) : List Property → List Property
  | [] => []
  | p :: rest => p.shift n :: Property.shiftAll n rest

def TemplateHole.shiftAll (n : Nat) : List TemplateHole → List TemplateHole
  | [] => []
  | .mk value after :: rest => .mk (value.shift n) after :: TemplateHole.shiftAll n rest

end

def Param.shift (n : Nat) (p : Param) : Param :=
  ⟨p.span.shift n, p.name.shift n, p.type?.map (TypeExpr.shift n)⟩

def FunctionHead.shift (n : Nat) (head : FunctionHead) : FunctionHead where
  isExported := head.isExported
  isDefault := head.isDefault
  name? := head.name?.map (Name.shift n)
  params := head.params.map (Param.shift n)
  returns? := head.returns?.map (TypeExpr.shift n)

def ImportedName.shift (n : Nat) (entry : ImportedName) : ImportedName :=
  ⟨entry.span.shift n, entry.imported, entry.localName⟩

def ImportDecl.shift (n : Nat) (decl : ImportDecl) : ImportDecl where
  default? := decl.default?.map (Name.shift n)
  whole? := decl.whole?.map (Name.shift n)
  named := decl.named.map (ImportedName.shift n)
  specifier := decl.specifier.shift n

def InterfaceDecl.shift (n : Nat) (decl : InterfaceDecl) : InterfaceDecl :=
  ⟨decl.isExported, decl.name.shift n, Member.shiftAll n decl.members⟩

def AliasDecl.shift (n : Nat) (decl : AliasDecl) : AliasDecl :=
  ⟨decl.isExported, decl.name.shift n, decl.type.shift n⟩

def Declarator.shift (n : Nat) (d : Declarator) : Declarator where
  span := d.span.shift n
  name := d.name.shift n
  type? := d.type?.map (TypeExpr.shift n)
  initializer? := d.initializer?.map (Expr.shift n)

def VariableList.shift (n : Nat) (list : VariableList) : VariableList :=
  ⟨list.keyword, list.declarators.map (Declarator.shift n)⟩

def LoopStart.shift (n : Nat) : LoopStart → LoopStart
  | .nothing => .nothing
  | .«variables» span list => .«variables» (span.shift n) (list.shift n)
  | .expression value => .expression (value.shift n)

def LoopClauses.shift (n : Nat) (clauses : LoopClauses) : LoopClauses where
  start := clauses.start.shift n
  condition? := clauses.condition?.map (Expr.shift n)
  step? := clauses.step?.map (Expr.shift n)

mutual

/-- A statement further on in its file, and with it all that it is made of. -/
def Statement.shift (n : Nat) : Statement → Statement
  | .function span head bodySpan body =>
    .function (span.shift n) (head.shift n) (bodySpan.shift n) (Statement.shiftAll n body)
  | .overload span head => .overload (span.shift n) (head.shift n)
  | .importing span decl => .importing (span.shift n) (decl.shift n)
  | .interface span decl => .interface (span.shift n) (decl.shift n)
  | .typeAlias span decl => .typeAlias (span.shift n) (decl.shift n)
  | .block span statements => .block (span.shift n) (Statement.shiftAll n statements)
  | .expression span value => .expression (span.shift n) (value.shift n)
  | .forLoop span clauses body => .forLoop (span.shift n) (clauses.shift n) (body.shift n)
  | .returning span value? => .returning (span.shift n) (value?.map (Expr.shift n))
  | .«variables» span list => .«variables» (span.shift n) (list.shift n)
  | .ifThen span condition thenBranch =>
    .ifThen (span.shift n) (condition.shift n) (thenBranch.shift n)
  | .ifElse span condition thenBranch elseBranch =>
    .ifElse (span.shift n) (condition.shift n) (thenBranch.shift n) (elseBranch.shift n)
  | .whileLoop span condition body =>
    .whileLoop (span.shift n) (condition.shift n) (body.shift n)
  | .doLoop span body condition => .doLoop (span.shift n) (body.shift n) (condition.shift n)
  | .empty span => .empty (span.shift n)

def Statement.shiftAll (n : Nat) : List Statement → List Statement
  | [] => []
  | s :: rest => s.shift n :: Statement.shiftAll n rest

end

theorem Expr.span_shift (n : Nat) (e : Expr) : (e.shift n).span = e.span.shift n := by
  cases e <;> rfl

theorem TypeExpr.span_shift (n : Nat) (t : TypeExpr) : (t.shift n).span = t.span.shift n := by
  cases t <;> rfl

theorem TypeExpr.withSpan_shift (n : Nat) (t : TypeExpr) (span : Span) :
    (t.withSpan span).shift n = (t.shift n).withSpan (span.shift n) := by
  cases t <;> rfl

mutual

theorem Token.shift_zero (token : Token) : token.shift 0 = token := by
  obtain ⟨kind, span⟩ := token
  rw [Token.shift, TokenKind.shift_zero kind, Span.shift_zero]

theorem TokenKind.shift_zero (kind : TokenKind) : kind.shift 0 = kind := by
  cases kind with
  | template head holes => rw [TokenKind.shift, Hole.shiftAll_zero holes]
  | _ => rfl

theorem Token.shiftAll_zero (tokens : List Token) : Token.shiftAll 0 tokens = tokens := by
  match tokens with
  | [] => rfl
  | token :: rest => rw [Token.shiftAll, Token.shift_zero token, Token.shiftAll_zero rest]

theorem Hole.shiftAll_zero (holes : List Hole) : Hole.shiftAll 0 holes = holes := by
  match holes with
  | [] => rfl
  | .mk tokens span after :: rest =>
    rw [Hole.shiftAll, Hole.shift, Token.shiftAll_zero tokens, Span.shift_zero,
      Hole.shiftAll_zero rest]

end

theorem Name.shift_zero : Name.shift 0 = id := rfl

mutual

theorem TypeExpr.shift_zero (t : TypeExpr) : t.shift 0 = t := by
  cases t with
  | named span name args => rw [TypeExpr.shift, TypeExpr.shiftAll_zero args, Span.shift_zero]
  | array span element => rw [TypeExpr.shift, element.shift_zero, Span.shift_zero]
  | object span members => rw [TypeExpr.shift, Member.shiftAll_zero members, Span.shift_zero]
  | _ => rfl

theorem TypeExpr.shiftAll_zero (types : List TypeExpr) : TypeExpr.shiftAll 0 types = types := by
  match types with
  | [] => rfl
  | t :: rest => rw [TypeExpr.shiftAll, t.shift_zero, TypeExpr.shiftAll_zero rest]

theorem Member.shiftAll_zero (members : List Member) : Member.shiftAll 0 members = members := by
  match members with
  | [] => rfl
  | .mk span name isOptional type :: rest =>
    rw [Member.shiftAll, type.shift_zero, Member.shiftAll_zero rest, Span.shift_zero]

end

mutual

theorem Expr.shift_zero (e : Expr) : e.shift 0 = e := by
  cases e with
  | array span elements => rw [Expr.shift, Expr.shiftAll_zero elements, Span.shift_zero]
  | cast span operand type =>
    rw [Expr.shift, operand.shift_zero, type.shift_zero, Span.shift_zero]
  | binary span left op opSpan right =>
    rw [Expr.shift, left.shift_zero, right.shift_zero, Span.shift_zero, Span.shift_zero]
  | call span callee args =>
    rw [Expr.shift, callee.shift_zero, Expr.shiftAll_zero args, Span.shift_zero]
  | conditional span condition whenTrue whenFalse =>
    rw [Expr.shift, condition.shift_zero, whenTrue.shift_zero, whenFalse.shift_zero,
      Span.shift_zero]
  | index span object index => rw [Expr.shift, object.shift_zero, index.shift_zero, Span.shift_zero]
  | object span properties => rw [Expr.shift, Property.shiftAll_zero properties, Span.shift_zero]
  | paren span inner => rw [Expr.shift, inner.shift_zero, Span.shift_zero]
  | leading span op opSpan operand | trailing span operand op opSpan =>
    rw [Expr.shift, operand.shift_zero, Span.shift_zero, Span.shift_zero]
  | member span object property =>
    rw [Expr.shift, object.shift_zero, Span.shift_zero, Name.shift_zero, id]
  | template span head holes => rw [Expr.shift, TemplateHole.shiftAll_zero holes, Span.shift_zero]
  | _ => rfl

theorem Expr.shiftAll_zero (list : List Expr) : Expr.shiftAll 0 list = list := by
  match list with
  | [] => rfl
  | e :: rest => rw [Expr.shiftAll, e.shift_zero, Expr.shiftAll_zero rest]

theorem Property.shiftAll_zero (list : List Property) : Property.shiftAll 0 list = list := by
  match list with
  | [] => rfl
  | .assign span name value :: rest | .spread span value :: rest =>
    rw [Property.shiftAll, Property.shift, value.shift_zero, Property.shiftAll_zero rest]
    rfl
  | .shorthand span name :: rest =>
    rw [Property.shiftAll, Property.shiftAll_zero rest]
    rfl

theorem TemplateHole.shiftAll_zero (holes : List TemplateHole) :
    TemplateHole.shiftAll 0 holes = holes := by
  match holes with
  | [] => rfl
  | .mk value after :: rest =>
    rw [TemplateHole.shiftAll, value.shift_zero, TemplateHole.shiftAll_zero rest]

end

theorem TypeExpr.map_shift_zero (t? : Option TypeExpr) : t?.map (TypeExpr.shift 0) = t? := by
  rw [show TypeExpr.shift 0 = id from funext TypeExpr.shift_zero, Option.map_id, id]

theorem Expr.map_shift_zero (e? : Option Expr) : e?.map (Expr.shift 0) = e? := by
  rw [show Expr.shift 0 = id from funext Expr.shift_zero, Option.map_id, id]

theorem FunctionHead.shift_zero (head : FunctionHead) : head.shift 0 = head := by
  have params : Param.shift 0 = id := funext fun p => by
    rw [Param.shift, TypeExpr.map_shift_zero]
    rfl
  rw [FunctionHead.shift, TypeExpr.map_shift_zero, params, List.map_id, Name.shift_zero,
    Option.map_id]
  rfl

theorem ImportDecl.shift_zero (decl : ImportDecl) : decl.shift 0 = decl := by
  have named : ImportedName.shift 0 = id := rfl
  rw [ImportDecl.shift, named, List.map_id, Name.shift_zero, Option.map_id]
  rfl

theorem VariableList.shift_zero (list : VariableList) : list.shift 0 = list := by
  have declarators : Declarator.shift 0 = id := funext fun d => by
    rw [Declarator.shift, TypeExpr.map_shift_zero, Expr.map_shift_zero]
    rfl
  rw [VariableList.shift, declarators, List.map_id]

theorem LoopClauses.shift_zero (clauses : LoopClauses) : clauses.shift 0 = clauses := by
  have start : clauses.start.shift 0 = clauses.start := by
    cases clauses.start with
    | nothing => rfl
    | «variables» span list => rw [LoopStart.shift, list.shift_zero, Span.shift_zero]
    | expression value => rw [LoopStart.shift, value.shift_zero]
  rw [LoopClauses.shift, start, Expr.map_shift_zero, Expr.map_shift_zero]

mutual

/-- A program that is not moved stays as it is. -/
theorem Statement.shift_zero (s : Statement) : s.shift 0 = s := by
  cases s with
  | function span head bodySpan body =>
    rw [Statement.shift, head.shift_zero, Statement.shiftAll_zero body, Span.shift_zero,
      Span.shift_zero]
  | overload span head => rw [Statement.shift, head.shift_zero, Span.shift_zero]
  | importing span decl => rw [Statement.shift, decl.shift_zero, Span.shift_zero]
  | interface span decl =>
    rw [Statement.shift, InterfaceDecl.shift, Member.shiftAll_zero]
    rfl
  | typeAlias span decl =>
    rw [Statement.shift, AliasDecl.shift, TypeExpr.shift_zero]
    rfl
  | block span body => rw [Statement.shift, Statement.shiftAll_zero body, Span.shift_zero]
  | expression span value => rw [Statement.shift, value.shift_zero, Span.shift_zero]
  | forLoop span clauses body =>
    rw [Statement.shift, clauses.shift_zero, body.shift_zero, Span.shift_zero]
  | returning span value? => rw [Statement.shift, Expr.map_shift_zero, Span.shift_zero]
  | «variables» span list => rw [Statement.shift, list.shift_zero, Span.shift_zero]
  | ifThen span condition thenBranch | whileLoop span condition thenBranch =>
    rw [Statement.shift, condition.shift_zero, thenBranch.shift_zero, Span.shift_zero]
  | ifElse span condition thenBranch elseBranch =>
    rw [Statement.shift, condition.shift_zero, thenBranch.shift_zero, elseBranch.shift_zero,
      Span.shift_zero]
  | doLoop span body condition =>
    rw [Statement.shift, body.shift_zero, condition.shift_zero, Span.shift_zero]
  | empty span => rfl

theorem Statement.shiftAll_zero (statements : List Statement) :
    Statement.shiftAll 0 statements = statements := by
  match statements with
  | [] => rfl
  | s :: rest => rw [Statement.shiftAll, s.shift_zero, Statement.shiftAll_zero rest]

end

theorem Statement.shiftAll_eq_map (n : Nat) (statements : List Statement) :
    Statement.shiftAll n statements = statements.map (Statement.shift n) := by
  induction statements with
  | nil => rfl
  | cons s rest ih => rw [Statement.shiftAll, ih, List.map_cons]

end ScriptToGo
