import ScriptToGo.Proofs.Grammar.Completeness

/-! Expressions without the places where they are written. -/
namespace ScriptToGo

mutual

/-- A type with all ranges forgotten. -/
def TypeExpr.bare : TypeExpr → TypeExpr
  | .named _ name args => .named .zero name (TypeExpr.allBare args)
  | .array _ element => .array .zero element.bare
  | .string _ body => .string .zero body
  | .number _ text => .number .zero text
  | .boolean _ value => .boolean .zero value
  | .null _ => .null .zero
  | .object _ members => .object .zero (Member.allBare members)

def TypeExpr.allBare : List TypeExpr → List TypeExpr
  | [] => []
  | type :: rest => type.bare :: TypeExpr.allBare rest

def Member.allBare : List Member → List Member
  | [] => []
  | .mk _ name isOptional type :: rest => .mk .zero name isOptional type.bare :: Member.allBare rest

end

/-- A name with its range forgotten. -/
def Name.bare (name : Name) : Name := ⟨name.text, .zero⟩

mutual

/-- An expression with all ranges forgotten. -/
def Expr.bare : Expr → Expr
  | .array _ elements => .array .zero (Expr.allBare elements)
  | .cast _ operand type => .cast .zero operand.bare type.bare
  | .binary _ left op _ right => .binary .zero left.bare op .zero right.bare
  | .call _ callee args => .call .zero callee.bare (Expr.allBare args)
  | .conditional _ condition whenTrue whenFalse =>
    .conditional .zero condition.bare whenTrue.bare whenFalse.bare
  | .index _ object index => .index .zero object.bare index.bare
  | .ident _ name => .ident .zero name
  | .number _ text => .number .zero text
  | .object _ properties => .object .zero (Property.allBare properties)
  | .paren _ inner => .paren .zero inner.bare
  | .leading _ op _ operand => .leading .zero op .zero operand.bare
  | .trailing _ operand op _ => .trailing .zero operand.bare op .zero
  | .member _ object property => .member .zero object.bare property.bare
  | .string _ body => .string .zero body
  | .template _ head holes => .template .zero head (TemplateHole.allBare holes)
  | .boolean _ value => .boolean .zero value
  | .null _ => .null .zero

def Expr.allBare : List Expr → List Expr
  | [] => []
  | e :: rest => e.bare :: Expr.allBare rest

def Property.allBare : List Property → List Property
  | [] => []
  | .assign _ name value :: rest => .assign .zero name.bare value.bare :: Property.allBare rest
  | .shorthand _ name :: rest => .shorthand .zero name.bare :: Property.allBare rest
  | .spread _ value :: rest => .spread .zero value.bare :: Property.allBare rest

def TemplateHole.allBare : List TemplateHole → List TemplateHole
  | [] => []
  | .mk value after :: rest => .mk value.bare after :: TemplateHole.allBare rest

end

@[simp] theorem Expr.strength_bare (e : Expr) : e.bare.strength = e.strength := by
  cases e <;> rfl

@[simp] theorem Expr.isCast_bare (e : Expr) : e.bare.isCast = e.isCast := by
  cases e <;> rfl

@[simp] theorem Expr.bears_bare (e : Expr) (precedence : Nat) :
    e.bare.Bears precedence ↔ e.Bears precedence := by
  rw [Bears, Bears, isCast_bare, strength_bare]

@[simp] theorem Expr.isOperation_bare (e : Expr) : e.bare.IsOperation ↔ e.IsOperation := by
  rw [IsOperation, IsOperation, strength_bare]

mutual

theorem Expr.castFree_bare (e : Expr) : e.bare.CastFree ↔ e.CastFree := by
  cases e with
  | array _ elements => exact Expr.allCastFree_bare elements
  | binary _ left _ _ right => exact and_congr left.castFree_bare right.castFree_bare
  | call _ callee args => exact and_congr callee.castFree_bare (Expr.allCastFree_bare args)
  | conditional _ condition whenTrue whenFalse =>
    exact and_congr condition.castFree_bare (and_congr whenTrue.castFree_bare whenFalse.castFree_bare)
  | index _ object index => exact and_congr object.castFree_bare index.castFree_bare
  | object _ properties => exact Property.allCastFree_bare properties
  | paren _ inner => exact inner.castFree_bare
  | leading _ _ _ operand | trailing _ operand _ _ => exact operand.castFree_bare
  | member _ object _ => exact object.castFree_bare
  | template _ _ holes => exact TemplateHole.allCastFree_bare holes
  | _ => exact Iff.rfl

theorem Expr.allCastFree_bare (list : List Expr) :
    Expr.AllCastFree (Expr.allBare list) ↔ Expr.AllCastFree list := by
  cases list with
  | nil => exact Iff.rfl
  | cons e rest => exact and_congr e.castFree_bare (Expr.allCastFree_bare rest)

theorem Property.allCastFree_bare (list : List Property) :
    Property.AllCastFree (Property.allBare list) ↔ Property.AllCastFree list := by
  match list with
  | [] => exact Iff.rfl
  | .assign _ _ value :: rest | .spread _ value :: rest =>
    exact and_congr value.castFree_bare (Property.allCastFree_bare rest)
  | .shorthand .. :: rest => exact Property.allCastFree_bare rest

theorem TemplateHole.allCastFree_bare (list : List TemplateHole) :
    TemplateHole.AllCastFree (TemplateHole.allBare list) ↔ TemplateHole.AllCastFree list := by
  match list with
  | [] => exact Iff.rfl
  | .mk value _ :: rest =>
    exact and_congr value.castFree_bare (TemplateHole.allCastFree_bare rest)

end

mutual

/-- The table of operators asks nothing of ranges. -/
theorem Expr.leveled_bare (e : Expr) : e.bare.Leveled ↔ e.Leveled := by
  cases e with
  | array _ elements => exact Expr.allLeveled_bare elements
  | cast _ operand _ => exact and_congr operand.leveled_bare (operand.bears_bare _)
  | binary _ left op _ right =>
    refine and_congr left.leveled_bare (and_congr right.leveled_bare ?_)
    simp only [Expr.isOperation_bare, Expr.bears_bare, Expr.strength_bare]
  | call _ callee args =>
    refine and_congr callee.leveled_bare (and_congr ?_ (Expr.allLeveled_bare args))
    rw [Expr.strength_bare]
  | conditional _ condition whenTrue whenFalse =>
    exact and_congr condition.leveled_bare (and_congr condition.isOperation_bare
      (and_congr whenTrue.leveled_bare whenFalse.leveled_bare))
  | index _ object index =>
    refine and_congr object.leveled_bare (and_congr ?_ index.leveled_bare)
    rw [Expr.strength_bare]
  | object _ properties => exact Property.allLeveled_bare properties
  | paren _ inner => exact inner.leveled_bare
  | leading _ _ _ operand | trailing _ operand _ _ | member _ operand _ =>
    refine and_congr operand.leveled_bare ?_
    rw [Expr.strength_bare]
  | template _ _ holes => exact TemplateHole.allLeveled_bare holes
  | _ => exact Iff.rfl

theorem Expr.allLeveled_bare (list : List Expr) :
    Expr.AllLeveled (Expr.allBare list) ↔ Expr.AllLeveled list := by
  cases list with
  | nil => exact Iff.rfl
  | cons e rest => exact and_congr e.leveled_bare (Expr.allLeveled_bare rest)

theorem Property.allLeveled_bare (list : List Property) :
    Property.AllLeveled (Property.allBare list) ↔ Property.AllLeveled list := by
  match list with
  | [] => exact Iff.rfl
  | .assign _ _ value :: rest | .spread _ value :: rest =>
    exact and_congr value.leveled_bare (Property.allLeveled_bare rest)
  | .shorthand .. :: rest => exact Property.allLeveled_bare rest

theorem TemplateHole.allLeveled_bare (list : List TemplateHole) :
    TemplateHole.AllLeveled (TemplateHole.allBare list) ↔ TemplateHole.AllLeveled list := by
  match list with
  | [] => exact Iff.rfl
  | .mk value _ :: rest => exact and_congr value.leveled_bare (TemplateHole.allLeveled_bare rest)

end

end ScriptToGo
