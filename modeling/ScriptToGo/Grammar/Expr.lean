import ScriptToGo.Grammar.TypeExpr
import ScriptToGo.Program.Expr

/-! Reading expressions, from assignments down to literals. -/
namespace ScriptToGo.Grammar

/-- The binding strength at which a value is taken as having a type. -/
def castPrecedence : Nat := Operator.less.precedence

/-- Reads the step operators after an operand. -/
def trailingOperators (operand : Expr) (c : Cursor) : Reading Expr (c.size + 1) :=
  match c.take? TokenKind.trailing? with
  | none => .stay operand c
  | some ⟨op, opSpan, c₁, shorter⟩ =>
    .loosen <|
      (trailingOperators (.trailing (operand.span.cover opSpan) operand op opSpan) c₁).weaken shorter
termination_by c.size

mutual

/-- Reads an expression. Assignments group from the right. -/
def expression (c : Cursor) : Reading Expr c.size :=
  (conditional c).andMaybe fun target c₁ _ =>
  match c₁.take? TokenKind.assignment? with
  | none => .stay target c₁
  | some ⟨op, opSpan, c₂, shorter⟩ =>
    .pastOptional shorter <| (expression c₂).map fun value =>
      .binary (target.span.cover value.span) target op opSpan value
termination_by 16 * c.size + 6

/-- Reads an expression that assigns nothing outside brackets. -/
def conditional (c : Cursor) : Reading Expr c.size :=
  (binary 0 c).andMaybe fun condition c₁ _ =>
  match c₁.mark? .question with
  | none => .stay condition c₁
  | some ⟨_, _, c₂, shorter⟩ =>
    .pastOptional shorter <| (expression c₂).andThen fun whenTrue c₃ _ =>
      (c₃.expectMark .colon "':' in conditional expression").andThen fun _ c₄ _ =>
      (expression c₄).map fun whenFalse =>
        .conditional (condition.span.cover whenFalse.span) condition whenTrue whenFalse
termination_by 16 * c.size + 5

/-- Reads operands and the operators between them that bind at least as tightly as `least`. -/
def binary (least : Nat) (c : Cursor) : Reading Expr c.size :=
  (unary c).andMaybe fun left c₁ _ => operators least left c₁
termination_by 16 * c.size + 4

/-- Reads the operators after a left operand, each with its right operand. -/
def operators (least : Nat) (left : Expr) (c : Cursor) : Reading Expr (c.size + 1) :=
  match if least ≤ castPrecedence then c.word? .asWord else none with
  | some ⟨_, _, c₁, shorter⟩ =>
    .pastOptional shorter <| (typeExpr c₁).andMaybe fun type c₂ _ =>
      operators least (.cast (left.span.cover type.span) left type) c₂
  | none =>
    match c.take? (TokenKind.binary? least) with
    | none => .stay left c
    | some ⟨op, opSpan, c₁, shorter⟩ =>
      .pastOptional shorter <| (binary (op.precedence + 1) c₁).andMaybe fun right c₂ _ =>
        operators least (.binary (left.span.cover right.span) left op opSpan right) c₂
termination_by 16 * c.size + 4

/-- Reads an operand with the operators before it. -/
def unary (c : Cursor) : Reading Expr c.size :=
  match c.take? TokenKind.leading? with
  | none => (access c).andMaybe fun operand c₁ _ => trailingOperators operand c₁
  | some ⟨op, opSpan, c₁, shorter⟩ =>
    .past shorter <| (unary c₁).map fun operand =>
      .leading (opSpan.cover operand.span) op opSpan operand
termination_by 16 * c.size + 3

/-- Reads an operand with the calls, properties and indices after it. -/
def access (c : Cursor) : Reading Expr c.size :=
  (primary c).andMaybe fun first c₁ _ => accesses first c₁
termination_by 16 * c.size + 1

/-- Reads the calls, properties and indices after an operand. -/
def accesses (target : Expr) (c : Cursor) : Reading Expr (c.size + 1) :=
  match c.mark? .leftParen with
  | some ⟨_, _, c₁, shorter⟩ =>
    .pastOptional shorter <|
      (expressionList .rightParen "')' after arguments" c₁).andMaybe fun args c₂ _ =>
      accesses (.call (target.span.cover c₂.last) target args) c₂
  | none =>
  match c.mark? .dot with
  | some ⟨_, _, c₁, shorter⟩ =>
    .pastOptional shorter <|
      (c₁.expect TokenKind.propertyName? "property name after '.'").andMaybe fun (text, span) c₂ _ =>
      accesses (.member (target.span.cover span) target ⟨text, span⟩) c₂
  | none =>
  match c.mark? .leftBracket with
  | some ⟨_, _, c₁, shorter⟩ =>
    .pastOptional shorter <| (expression c₁).andThen fun index c₂ _ =>
      (c₂.expectMark .rightBracket "']' after index").andMaybe fun _ c₃ _ =>
      accesses (.index (target.span.cover c₃.last) target index) c₃
  | none => .stay target c
termination_by 16 * c.size + 1

/-- Reads expressions with commas between them, up to and including the closing mark. A comma may
follow the last. -/
def expressionList (close : Punctuation) (wanted : String) (c : Cursor) :
    Reading (List Expr) c.size :=
  match c.mark? close with
  | some ⟨_, _, c₁, shorter⟩ => .ok [] c₁ shorter
  | none =>
    (expression c).andThen fun first c₁ _ =>
    match c₁.mark? .comma with
    | some ⟨_, _, c₂, shorter⟩ => ((expressionList close wanted c₂).map (first :: ·)).past shorter
    | none => (c₁.expectMark close wanted).map fun _ => [first]
termination_by 16 * c.size + 7

/-- Reads a literal, a name or an expression in brackets. -/
def primary (c : Cursor) : Reading Expr c.size :=
  let start := c.start
  match c.next? with
  | none => c.unexpected "expression"
  | some ⟨.number text, _, c₁, _, shorter⟩ => .ok (.number (c₁.spanFrom start) text) c₁ shorter
  | some ⟨.string body, _, c₁, _, shorter⟩ => .ok (.string (c₁.spanFrom start) body) c₁ shorter
  | some ⟨.ident name, _, c₁, _, shorter⟩ => .ok (.ident (c₁.spanFrom start) name) c₁ shorter
  | some ⟨.keyword .trueWord, _, c₁, _, shorter⟩ =>
    .ok (.boolean (c₁.spanFrom start) true) c₁ shorter
  | some ⟨.keyword .falseWord, _, c₁, _, shorter⟩ =>
    .ok (.boolean (c₁.spanFrom start) false) c₁ shorter
  | some ⟨.keyword .nullWord, _, c₁, _, shorter⟩ => .ok (.null (c₁.spanFrom start)) c₁ shorter
  | some ⟨.template head holes, _, c₁, _, shorter⟩ =>
    match interpolations holes with
    | .ok list => .ok (.template (c₁.spanFrom start) head list) c₁ shorter
    | .error error => .failPast error c₁ shorter
  | some ⟨.punctuation .leftParen, _, c₁, _, shorter⟩ =>
    .past shorter <| (expression c₁).andThen fun inner c₂ _ =>
      (c₂.expectMark .rightParen "')' after expression").mapAt fun _ c₃ =>
        .paren (c₃.spanFrom start) inner
  | some ⟨.punctuation .leftBracket, _, c₁, _, shorter⟩ =>
    .past shorter <|
      (expressionList .rightBracket "']' after array elements" c₁).mapAt fun elements c₂ =>
      .array (c₂.spanFrom start) elements
  | some ⟨.punctuation .leftBrace, _, c₁, _, shorter⟩ =>
    ((properties c₁).mapAt fun list c₂ => .object (c₂.spanFrom start) list).past shorter
  | some _ => c.unexpected "expression"
termination_by 16 * c.size
decreasing_by all_goals simp only [TokenKind.weight] at *; omega

def property (c : Cursor) : Reading Property c.size :=
  match c.mark? .ellipsis with
  | some ⟨_, _, c₁, shorter⟩ =>
    ((expression c₁).mapAt fun value c₂ => .spread (c₂.spanFrom c.start) value).past shorter
  | none =>
    (c.expectName "property name").andMaybe fun name c₁ _ =>
    match c₁.mark? .colon with
    | some ⟨_, _, c₂, shorter⟩ =>
      .pastOptional shorter <| (expression c₂).mapAt fun value c₃ =>
        .assign (c₃.spanFrom c.start) name value
    | none => .stay (.shorthand (c₁.spanFrom c.start) name) c₁
termination_by 16 * c.size

/-- Reads the properties of an object literal after its opening brace, up to and including the
closing one. A comma may follow the last. -/
def properties (c : Cursor) : Reading (List Property) c.size :=
  if c.atMark .rightBrace || c.atEnd then
    (c.expectMark .rightBrace "'\x7d' after object literal").map fun _ => []
  else
    (property c).andThen fun first c₁ _ =>
    match c₁.mark? .comma with
    | some ⟨_, _, c₂, shorter⟩ => ((properties c₂).map (first :: ·)).past shorter
    | none => (c₁.expectMark .rightBrace "'\x7d' after object literal").map fun _ => [first]
termination_by 16 * c.size + 1

/-- Reads the interpolations of a template. Each holds one expression and nothing more. -/
def interpolations (holes : List Hole) : Except SyntaxError (List TemplateHole) :=
  match holes with
  | [] => .ok []
  | .mk tokens span after :: holes =>
    match opened : Cursor.ofTokens? tokens with
    | none => .error ⟨.emptyInterpolation, span⟩
    | some start =>
      have := Cursor.size_ofTokens? opened
      match expression start with
      | .fail error _ _ => .error error
      | .ok value c _ =>
        if c.atEnd then
          match interpolations holes with
          | .ok list => .ok (.mk value after :: list)
          | .error error => .error error
        else
          .error ⟨.expected "'\x7d' after template expression" c.peek.kind, c.peek.span⟩
termination_by 16 * holesWeight holes
decreasing_by
  all_goals simp only [holesWeight, Hole.weight] at *; omega

end

end ScriptToGo.Grammar
