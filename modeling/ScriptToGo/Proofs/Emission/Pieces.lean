import ScriptToGo.Proofs.Emission.InLine
import ScriptToGo.Proofs.Emission.Supported
import ScriptToGo.Proofs.Program.Bare
import ScriptToGo.Proofs.Token.Rereading

/-! The tokens and blanks that make up the Go code of an expression. -/
namespace ScriptToGo

mutual

/-- An expression of names without a dollar sign, numbers, truth values, parentheses, calls, indices
and operators that Go has. -/
def Expr.Simple : Expr → Prop
  | .binary _ left op _ right => op.isWritten = true ∧ left.Simple ∧ right.Simple
  | .call _ callee args => callee.Simple ∧ Expr.AllSimple args
  | .index _ target place => target.Simple ∧ place.Simple
  | .ident _ name => IsPlain name
  | .paren _ inner => inner.Simple
  | .leading _ op _ operand => op ≠ .plus ∧ operand.Simple
  | .trailing _ operand op _ => op.isUpdate = true ∧ operand.Simple
  | .number .. | .boolean .. => True
  | .array .. | .cast .. | .conditional .. | .object .. | .member .. | .string .. | .template ..
  | .null .. => False

def Expr.AllSimple : List Expr → Prop
  | [] => True
  | e :: rest => e.Simple ∧ Expr.AllSimple rest

end

mutual

/-- No left operand in a simple expression is a string. -/
def Expr.NoStringLeft (v : View) : Expr → Prop
  | .binary _ left _ _ right =>
    v.isString left.span = false ∧ left.NoStringLeft v ∧ right.NoStringLeft v
  | .call _ callee args => callee.NoStringLeft v ∧ Expr.AllNoStringLeft v args
  | .index _ target place => target.NoStringLeft v ∧ place.NoStringLeft v
  | .paren _ inner => inner.NoStringLeft v
  | .leading _ _ _ operand | .trailing _ operand _ _ => operand.NoStringLeft v
  | _ => True

def Expr.AllNoStringLeft (v : View) : List Expr → Prop
  | [] => True
  | e :: rest => e.NoStringLeft v ∧ Expr.AllNoStringLeft v rest

end

mutual

/-- The pieces of the Go code of a simple expression. Blanks stand around an operator between
operands, and behind a comma. -/
def Expr.pieces : Expr → List CodePiece
  | .binary _ left op _ right =>
    left.pieces ++ .blank :: .token (.operator op.token) :: .blank :: right.pieces
  | .call _ callee args => callee.pieces ++ .token (.punctuation .leftParen) ::
      (Expr.listPieces args ++ [.token (.punctuation .rightParen)])
  | .index _ target place => target.pieces ++ .token (.punctuation .leftBracket) ::
      (place.pieces ++ [.token (.punctuation .rightBracket)])
  | .ident _ name => [.token (.ident name)]
  | .number _ text => [.token (.number text)]
  | .boolean _ true => [.token (.keyword .trueWord)]
  | .boolean _ false => [.token (.keyword .falseWord)]
  | .paren _ inner => .token (.punctuation .leftParen) ::
      (inner.pieces ++ [.token (.punctuation .rightParen)])
  | .leading _ op _ operand => .token (.operator op.token) :: operand.pieces
  | .trailing _ operand op _ => operand.pieces ++ [.token (.operator op.token)]
  | _ => []

def Expr.listPieces : List Expr → List CodePiece
  | [] => []
  | [e] => e.pieces
  | e :: next :: rest =>
    e.pieces ++ .token (.punctuation .comma) :: .blank :: Expr.listPieces (next :: rest)

end

namespace Snippet

/-- The text of Go code consists of pieces. -/
def IsMadeOf (pieces : List CodePiece) (s : Snippet) : Prop :=
  s.text.toList = CodePiece.allChars pieces

theorem IsMadeOf.append {first second : Snippet} {front back : List CodePiece}
    (h : first.IsMadeOf front) (next : second.IsMadeOf back) :
    (first ++ second).IsMadeOf (front ++ back) := by
  have whole : (first ++ second).text.toList = first.text.toList ++ second.text.toList :=
    String.toList_append
  rw [IsMadeOf, whole, h, next, CodePiece.allChars_append]

/-- The code of a token that is written as it is kept. -/
theorem isMadeOf_token {kind : TokenKind} {text : String} (written : kind.spelling? = some text) :
    (ofText text).IsMadeOf [.token kind] := by
  rw [IsMadeOf, CodePiece.allChars, List.flatMap_singleton, CodePiece.chars, TokenKind.written,
    written]
  rfl

theorem isMadeOf_commaSeparated {list : List Expr} {items : List Snippet}
    (h : List.Forall₂ (fun e s => IsMadeOf e.pieces s) list items) :
    (commaSeparated items).IsMadeOf (Expr.listPieces list) := by
  match h with
  | .nil => rfl
  | .cons first .nil => exact first
  | .cons first (.cons second rest) =>
    have comma : (ofText ", ").IsMadeOf [.token (.punctuation .comma), .blank] := rfl
    have others := isMadeOf_commaSeparated (.cons second rest)
    rw [Expr.listPieces, commaSeparated]
    · have whole := (first.append comma).append others
      rwa [List.append_assoc] at whole
    · simp

end Snippet

mutual

/-- The Go code of a simple expression consists of its pieces. -/
theorem Expr.toGo_isMadeOf {v : View} (e : Expr) (simple : e.Simple) (noString : e.NoStringLeft v) :
    Returns (Snippet.IsMadeOf e.pieces) (e.toGo v) := by
  match e with
  | .binary span left op opSpan right =>
    rw [Expr.toGo, Expr.pieces]
    split
    · refine (left.toGo_isMadeOf simple.2.1 noString.2.1).bind fun first made => ?_
      refine (right.toGo_isMadeOf simple.2.2 noString.2.2).bind fun second others => ?_
      have sign : (Snippet.ofText s!" {op.spelling} ").IsMadeOf
          [.blank, .token (.operator op.token), .blank] := by
        cases op <;> rfl
      have whole := (made.append sign).append others
      rw [noString.1, Bool.false_and, if_neg Bool.false_ne_true]
      rwa [List.append_assoc] at whole
    · exact View.returns_refuse_bind
  | .call span callee args =>
    rw [Expr.toGo, Expr.pieces]
    refine (callee.toGo_isMadeOf simple.1 noString.1).bind fun function made => ?_
    refine (Expr.allToGo_isMadeOf args simple.2 noString.2).bind fun items each => ?_
    have opening : (Snippet.ofText "(").IsMadeOf [.token (.punctuation .leftParen)] := rfl
    have closing : (Snippet.ofText ")").IsMadeOf [.token (.punctuation .rightParen)] := rfl
    have list := Snippet.isMadeOf_commaSeparated each
    have whole := ((made.append opening).append list).append closing
    rwa [List.append_assoc, List.append_assoc] at whole
  | .index span target place =>
    rw [Expr.toGo, Expr.pieces]
    refine (target.toGo_isMadeOf simple.1 noString.1).bind fun first made => ?_
    refine (place.toGo_isMadeOf simple.2 noString.2).bind fun second inside => ?_
    have opening : (Snippet.ofText "[").IsMadeOf [.token (.punctuation .leftBracket)] := rfl
    have closing : (Snippet.ofText "]").IsMadeOf [.token (.punctuation .rightBracket)] := rfl
    have whole := ((made.append opening).append inside).append closing
    rwa [List.append_assoc, List.append_assoc] at whole
  | .ident span name =>
    rw [Expr.toGo, Expr.pieces]
    refine (View.plainName_self name).bind fun text is => ?_
    subst is
    exact Snippet.isMadeOf_token rfl
  | .number span text =>
    rw [Expr.toGo, Expr.pieces]
    exact Snippet.isMadeOf_token rfl
  | .boolean span true | .boolean span false =>
    rw [Expr.toGo, Expr.pieces]
    exact Snippet.isMadeOf_token rfl
  | .paren span inner =>
    rw [Expr.toGo, Expr.pieces]
    refine (inner.toGo_isMadeOf simple noString).bind fun code inside => ?_
    have opening : (Snippet.ofText "(").IsMadeOf [.token (.punctuation .leftParen)] := rfl
    have closing : (Snippet.ofText ")").IsMadeOf [.token (.punctuation .rightParen)] := rfl
    exact (opening.append inside).append closing
  | .leading span op opSpan operand =>
    rw [Expr.toGo, Expr.pieces]
    split
    · exact View.returns_refuse_bind
    · refine (operand.toGo_isMadeOf simple.2 noString).bind fun code inside => ?_
      have sign : (Snippet.ofText op.spelling).IsMadeOf [.token (.operator op.token)] :=
        Snippet.isMadeOf_token rfl
      exact sign.append inside
  | .trailing span operand op opSpan =>
    rw [Expr.toGo, Expr.pieces]
    split
    · refine (operand.toGo_isMadeOf simple.2 noString).bind fun code inside => ?_
      have sign : (Snippet.ofText op.spelling).IsMadeOf [.token (.operator op.token)] :=
        Snippet.isMadeOf_token rfl
      exact inside.append sign
    · exact View.returns_refuse_bind
  | .array .. | .cast .. | .conditional .. | .object .. | .member .. | .string .. | .template ..
  | .null .. => exact simple.elim

theorem Expr.allToGo_isMadeOf {v : View} (list : List Expr) (simple : Expr.AllSimple list)
    (noString : Expr.AllNoStringLeft v list) :
    Returns (List.Forall₂ (fun e s => Snippet.IsMadeOf e.pieces s) list) (Expr.allToGo v list) := by
  match list with
  | [] =>
    rw [Expr.allToGo]
    exact .nil
  | e :: rest =>
    rw [Expr.allToGo]
    refine (e.toGo_isMadeOf simple.1 noString.1).bind fun first made => ?_
    exact (Expr.allToGo_isMadeOf rest simple.2 noString.2).bind fun others each => .cons made each

end

/-- A piece that is written as it is kept. -/
def CodePiece.IsSpelled : CodePiece → Prop
  | blank => True
  | token kind => kind.spelling?.isSome

mutual

theorem Expr.pieces_spelled (e : Expr) : ∀ p ∈ e.pieces, p.IsSpelled := by
  match e with
  | .binary _ left op _ right =>
    refine List.forall_mem_append.2 ⟨left.pieces_spelled, List.forall_mem_cons.2 ⟨trivial, ?_⟩⟩
    exact List.forall_mem_cons.2 ⟨rfl, List.forall_mem_cons.2 ⟨trivial, right.pieces_spelled⟩⟩
  | .call _ callee args =>
    refine List.forall_mem_append.2 ⟨callee.pieces_spelled, List.forall_mem_cons.2 ⟨rfl, ?_⟩⟩
    exact List.forall_mem_append.2 ⟨Expr.listPieces_spelled args, List.forall_mem_singleton.2 rfl⟩
  | .index _ target place =>
    refine List.forall_mem_append.2 ⟨target.pieces_spelled, List.forall_mem_cons.2 ⟨rfl, ?_⟩⟩
    exact List.forall_mem_append.2 ⟨place.pieces_spelled, List.forall_mem_singleton.2 rfl⟩
  | .ident .. | .number .. | .boolean _ true | .boolean _ false =>
    exact List.forall_mem_singleton.2 rfl
  | .paren _ inner =>
    refine List.forall_mem_cons.2 ⟨rfl, ?_⟩
    exact List.forall_mem_append.2 ⟨inner.pieces_spelled, List.forall_mem_singleton.2 rfl⟩
  | .leading _ op _ operand => exact List.forall_mem_cons.2 ⟨rfl, operand.pieces_spelled⟩
  | .trailing _ operand op _ =>
    exact List.forall_mem_append.2 ⟨operand.pieces_spelled, List.forall_mem_singleton.2 rfl⟩
  | .array .. | .cast .. | .conditional .. | .object .. | .member .. | .string .. | .template ..
  | .null .. => exact List.forall_mem_nil _

theorem Expr.listPieces_spelled (list : List Expr) : ∀ p ∈ listPieces list, p.IsSpelled := by
  match list with
  | [] => exact List.forall_mem_nil _
  | [e] => exact e.pieces_spelled
  | e :: next :: rest =>
    refine List.forall_mem_append.2 ⟨e.pieces_spelled, List.forall_mem_cons.2 ⟨rfl, ?_⟩⟩
    exact List.forall_mem_cons.2 ⟨trivial, Expr.listPieces_spelled (next :: rest)⟩

end

end ScriptToGo
