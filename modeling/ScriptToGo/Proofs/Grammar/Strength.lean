import ScriptToGo.Proofs.Grammar.WrittenExprs

/-! Reading an expression keeps to the table of operators. -/
namespace ScriptToGo

namespace Expr

/-- The strength of calls, properties and indices, which no operator reaches. -/
def accessStrength : Nat := 100

/-- How tightly an expression holds its parts together. Assignments and choices hold them most
loosely; literals, names and all that stands in brackets hold them most tightly. -/
def strength : Expr → Nat
  | .binary _ _ op _ _ => op.precedence
  | .conditional .. => Operator.assign.precedence
  | .cast .. => Grammar.castPrecedence
  | .leading .. => Operator.bang.precedence
  | .trailing .. => Operator.increment.precedence
  | .call .. | .member .. | .index .. => accessStrength
  | .array .. | .ident .. | .number .. | .object .. | .paren .. | .string .. | .template ..
  | .boolean .. | .null .. => accessStrength + 10

def isCast : Expr → Bool
  | .cast .. => true
  | _ => false

/-- An expression may stand to the left of an operator of this precedence. A type ends of itself,
so that any operator may follow it. -/
def Bears (precedence : Nat) (e : Expr) : Prop := e.isCast = true ∨ precedence ≤ e.strength

/-- An expression that is neither an assignment nor a choice. -/
def IsOperation (e : Expr) : Prop := Operator.assign.precedence < e.strength

end Expr

mutual

/-- Every operand in an expression holds together at least as tightly as its place asks for, unless
brackets stand around it. -/
def Expr.Leveled : Expr → Prop
  | .array _ elements => Expr.AllLeveled elements
  | .cast _ operand _ => operand.Leveled ∧ operand.Bears Grammar.castPrecedence
  | .binary _ left op _ right => left.Leveled ∧ right.Leveled ∧
      if op.isAssignment then left.IsOperation
      else left.Bears op.precedence ∧ op.precedence < right.strength
  | .call _ callee args =>
    callee.Leveled ∧ Expr.accessStrength ≤ callee.strength ∧ Expr.AllLeveled args
  | .conditional _ condition whenTrue whenFalse =>
    condition.Leveled ∧ condition.IsOperation ∧ whenTrue.Leveled ∧ whenFalse.Leveled
  | .index _ object index =>
    object.Leveled ∧ Expr.accessStrength ≤ object.strength ∧ index.Leveled
  | .object _ properties => Property.AllLeveled properties
  | .paren _ inner => inner.Leveled
  | .leading _ _ _ operand => operand.Leveled ∧ Operator.bang.precedence ≤ operand.strength
  | .trailing _ operand op _ =>
    operand.Leveled ∧ Operator.increment.precedence ≤ operand.strength ∧ op.isUpdate = true
  | .member _ object _ => object.Leveled ∧ Expr.accessStrength ≤ object.strength
  | .template _ _ holes => TemplateHole.AllLeveled holes
  | .ident .. | .number .. | .string .. | .boolean .. | .null .. => True

def Expr.AllLeveled : List Expr → Prop
  | [] => True
  | e :: rest => e.Leveled ∧ Expr.AllLeveled rest

def Property.AllLeveled : List Property → Prop
  | [] => True
  | .assign _ _ value :: rest => value.Leveled ∧ Property.AllLeveled rest
  | .shorthand .. :: rest => Property.AllLeveled rest
  | .spread _ value :: rest => value.Leveled ∧ Property.AllLeveled rest

def TemplateHole.AllLeveled : List TemplateHole → Prop
  | [] => True
  | .mk value _ :: rest => value.Leveled ∧ TemplateHole.AllLeveled rest

end

/-- Where operators of one strength stand in a row, the operands group to the side on which they
associate. -/
theorem Expr.Leveled.associates {s opSpan : Span} {left right : Expr} {op : BinaryOp}
    (h : (Expr.binary s left op opSpan right).Leveled) :
    (∀ s' first op' opSpan' second, left = .binary s' first op' opSpan' second →
      op'.precedence = op.precedence → op.token.associativity = .left) ∧
    ∀ s' first op' opSpan' second, right = .binary s' first op' opSpan' second →
      op'.precedence = op.precedence → op.token.associativity = .right := by
  obtain ⟨-, -, operands⟩ := h
  split at operands
  next assigns =>
    refine ⟨?_, fun _ _ _ _ _ _ _ => BinaryOp.isAssignment_iff.1 assigns⟩
    rintro s' first op' opSpan' second rfl same
    have lowest : op.precedence = Operator.assign.precedence := of_decide_eq_true assigns
    exact absurd operands (by rw [IsOperation, strength, same, lowest]; exact Nat.lt_irrefl _)
  next computes =>
    refine ⟨fun _ _ _ _ _ _ _ => ?_, ?_⟩
    · cases side : op.token.associativity with
      | left => rfl
      | right => exact absurd (BinaryOp.isAssignment_iff.2 side) computes
    · rintro s' first op' opSpan' second rfl same
      exact absurd operands.2 (by rw [strength, same]; exact Nat.lt_irrefl _)

theorem Property.allLeveled_cons {p : Property} {rest : List Property}
    (h : AllLeveled (p :: rest)) : AllLeveled [p] ∧ AllLeveled rest := by
  cases p with
  | shorthand => exact ⟨trivial, h⟩
  | assign | spread => exact ⟨⟨h.1, trivial⟩, h.2⟩

/-- Nothing follows that binds at least as tightly as `least`. -/
structure Cursor.Stops (least : Nat) (c : Cursor) : Prop where
  cast : least ≤ Grammar.castPrecedence → c.word? .asWord = none
  operator : c.take? (TokenKind.binary? least) = none

theorem BinaryOp.precedence_bounds {op : BinaryOp} (h : op.isAssignment = false) :
    Operator.assign.precedence < op.precedence ∧ op.precedence < Operator.bang.precedence := by
  revert h
  cases op <;> decide

namespace Expr
open Grammar (castPrecedence)

variable {e : Expr}

theorem shape_of_not_isOperation (loose : ¬e.IsOperation) :
    (∃ s condition whenTrue whenFalse, e = .conditional s condition whenTrue whenFalse) ∨
      ∃ s left op opSpan right, op.isAssignment = true ∧ e = .binary s left op opSpan right := by
  cases e with
  | conditional s condition whenTrue whenFalse => exact .inl ⟨s, condition, whenTrue, whenFalse, rfl⟩
  | binary s left op opSpan right =>
    refine .inr ⟨s, left, op, opSpan, right, ?_, rfl⟩
    cases assigns : op.isAssignment with
    | true => rfl
    | false => exact absurd (BinaryOp.precedence_bounds assigns).1 loose
  | _ => simp [IsOperation, strength, accessStrength, castPrecedence, Operator.precedence] at loose

theorem shape_of_isOperation (operation : e.IsOperation)
    (loose : ¬Operator.bang.precedence ≤ e.strength) :
    e.isCast = true ∨
      ∃ s left op opSpan right, op.isAssignment = false ∧ e = .binary s left op opSpan right := by
  cases e with
  | cast => exact .inl rfl
  | binary s left op opSpan right =>
    refine .inr ⟨s, left, op, opSpan, right, ?_, rfl⟩
    cases assigns : op.isAssignment with
    | false => rfl
    | true =>
      have lowest : op.precedence = Operator.assign.precedence := of_decide_eq_true assigns
      exact absurd operation (by rw [IsOperation, strength, lowest]; exact Nat.lt_irrefl _)
  | conditional => simp [IsOperation, strength] at operation
  | _ => simp [strength, accessStrength, Operator.precedence] at loose

theorem shape_of_leading (strong : Operator.bang.precedence ≤ e.strength)
    (loose : ¬Operator.increment.precedence ≤ e.strength) :
    ∃ s op opSpan operand, e = .leading s op opSpan operand := by
  cases e with
  | leading s op opSpan operand => exact ⟨s, op, opSpan, operand, rfl⟩
  | binary s left op =>
    exact absurd strong (by rw [strength]; cases op <;> decide)
  | conditional | cast => simp [strength, castPrecedence, Operator.precedence] at strong
  | _ => simp [strength, accessStrength, Operator.precedence] at loose

theorem shape_of_trailing (strong : Operator.increment.precedence ≤ e.strength)
    (loose : ¬accessStrength ≤ e.strength) :
    ∃ s operand op opSpan, e = .trailing s operand op opSpan := by
  cases e with
  | trailing s operand op opSpan => exact ⟨s, operand, op, opSpan, rfl⟩
  | binary s left op =>
    exact absurd strong (by rw [strength]; cases op <;> decide)
  | conditional | cast | leading =>
    simp [strength, castPrecedence, Operator.precedence] at strong
  | _ => simp [strength, accessStrength] at loose

theorem shape_of_access (strong : accessStrength ≤ e.strength)
    (loose : ¬accessStrength < e.strength) :
    (∃ s callee args, e = .call s callee args) ∨ (∃ s target name, e = .member s target name) ∨
      ∃ s target place, e = .index s target place := by
  cases e with
  | call s callee args => exact .inl ⟨s, callee, args, rfl⟩
  | member s target name => exact .inr (.inl ⟨s, target, name, rfl⟩)
  | index s target place => exact .inr (.inr ⟨s, target, place, rfl⟩)
  | binary s left op =>
    exact absurd strong (by rw [strength]; cases op <;> decide)
  | conditional | cast | leading | trailing =>
    simp [strength, accessStrength, castPrecedence, Operator.precedence] at strong
  | _ => simp [strength] at loose

end Expr

namespace TokenKind

theorem binary?_mono {kind : TokenKind} {least more : Nat} (le : least ≤ more)
    (h : kind.binary? least = none) : kind.binary? more = none := by
  cases kind with
  | operator op =>
    rw [binary?, Option.filter_eq_none_iff] at h ⊢
    intro meaning found
    have := h meaning found
    simp only [Bool.and_eq_true, Bool.not_eq_true', decide_eq_true_eq, not_and] at this ⊢
    intro other
    have := this other
    omega
  | _ => rfl

theorem binary?_token {op : BinaryOp} {least : Nat} (other : op.isAssignment = false)
    (tight : least ≤ op.precedence) : (operator op.token).binary? least = some op := by
  rw [binary?, BinaryOp.ofToken?_token, Option.filter_some, if_pos]
  rw [other, decide_eq_true tight]
  rfl

/-- No operator between operands binds as tightly as those before an operand. -/
theorem binary?_leading (kind : TokenKind) : kind.binary? Operator.bang.precedence = none := by
  cases kind with
  | operator op => cases op <;> rfl
  | _ => rfl

end TokenKind

namespace Cursor

variable {c : Cursor}

theorem take?_none_mono {α : Type} {test other : TokenKind → Option α}
    (h : c.take? test = none) (implies : ∀ kind, test kind = none → other kind = none) :
    c.take? other = none := by
  rw [take?] at h ⊢
  split at h
  · rfl
  · rw [Option.map_eq_none_iff] at h ⊢
    exact implies _ h

theorem Stops.mono {least more : Nat} (le : least ≤ more) (h : c.Stops least) : c.Stops more where
  cast weak := h.cast (Nat.le_trans le weak)
  operator := take?_none_mono h.operator fun _ => TokenKind.binary?_mono le

theorem stops_leading (c : Cursor) : c.Stops Operator.bang.precedence where
  cast weak := absurd weak (by decide)
  operator := by
    rw [take?]
    split
    · rfl
    · rw [Option.map_eq_none_iff]
      exact TokenKind.binary?_leading _

end Cursor

namespace Grammar
open Cursor

theorem trailingOperators_leveled {operand : Expr} {c : Cursor} (leveled : operand.Leveled)
    (strong : Operator.increment.precedence ≤ operand.strength) :
    (trailingOperators operand c).Ensures fun e _ =>
      e.Leveled ∧ Operator.increment.precedence ≤ e.strength := by
  rw [trailingOperators]
  split
  · exact ⟨leveled, strong⟩
  next op opSpan c₁ _ taken =>
    obtain ⟨kind, accepted, -⟩ := passes_of_take? taken
    have updates := (TokenKind.of_trailing? accepted).2
    apply Reading.Ensures.loosen
    apply Reading.Ensures.weaken
    exact trailingOperators_leveled ⟨leveled, strong, updates⟩ (Nat.le_refl _)
termination_by c.size

mutual

theorem expression_leveled (c : Cursor) :
    (expression c).Ensures fun e next =>
      e.Leveled ∧ next.take? TokenKind.assignment? = none := by
  rw [expression]
  apply (conditional_leveled c).andMaybe
  rintro target c₁ _ ⟨leveled, operation⟩
  split
  next none => exact ⟨leveled, none⟩
  next op opSpan c₂ _ taken =>
    have operation : target.IsOperation := by
      rcases operation with operation | none
      · exact operation
      · rw [none] at taken
        cases taken
    obtain ⟨kind, accepted, -⟩ := passes_of_take? taken
    have assigns := (TokenKind.of_assignment? accepted).2
    apply Reading.Ensures.pastOptional
    apply (expression_leveled c₂).map
    rintro value c₃ ⟨valued, none⟩
    refine ⟨⟨leveled, valued, ?_⟩, none⟩
    rwa [if_pos assigns]
termination_by 16 * c.size + 6

/-- No assignment follows a choice, as its last part takes them all. -/
theorem conditional_leveled (c : Cursor) :
    (conditional c).Ensures fun e next =>
      e.Leveled ∧ (e.IsOperation ∨ next.take? TokenKind.assignment? = none) := by
  rw [conditional]
  apply (binary_leveled (Nat.zero_le _) c).andMaybe
  rintro condition c₁ _ ⟨leveled, operation, -, -⟩
  split
  · exact ⟨leveled, .inl operation⟩
  next c₂ _ asked =>
    apply Reading.Ensures.pastOptional
    apply (expression_leveled c₂).andThen
    rintro whenTrue c₃ _ ⟨first, -⟩
    apply expectMark_ensures.andThen
    intro _ c₄ _ _
    apply (expression_leveled c₄).map
    rintro whenFalse c₅ ⟨second, none⟩
    exact ⟨⟨leveled, operation, first, second⟩, .inr none⟩
termination_by 16 * c.size + 5

theorem binary_leveled {least : Nat} (bound : least ≤ Operator.bang.precedence) (c : Cursor) :
    (binary least c).Ensures fun e next =>
      e.Leveled ∧ e.IsOperation ∧ least ≤ e.strength ∧ next.Stops least := by
  rw [binary]
  apply (unary_leveled c).andMaybe
  rintro left c₁ _ ⟨leveled, strong⟩
  apply operators_leveled leveled
  · exact Nat.lt_of_lt_of_le (by decide) strong
  · exact Nat.le_trans bound strong
  · exact .inr ((stops_leading c₁).mono (Nat.le_succ_of_le strong))
termination_by 16 * c.size + 4

/-- The loop goes on only with operators to whose left all that has been read may stand: what
follows a right operand binds no tighter than the operator before it. -/
theorem operators_leveled {least : Nat} {left : Expr} {c : Cursor} (leveled : left.Leveled)
    (operation : left.IsOperation) (strong : least ≤ left.strength)
    (bears : left.isCast = true ∨ c.Stops (left.strength + 1)) :
    (operators least left c).Ensures fun e next =>
      e.Leveled ∧ e.IsOperation ∧ least ≤ e.strength ∧ next.Stops least := by
  rw [operators]
  split
  next span c₁ _ cast =>
    split at cast
    next weak =>
      have borne : left.Bears castPrecedence := by
        rcases bears with isCast | stops
        · exact .inl isCast
        · refine .inr (Nat.le_of_not_lt fun stronger => ?_)
          rw [stops.cast stronger] at cast
          cases cast
      apply Reading.Ensures.pastOptional
      apply (Reading.ensures_of fun _ _ _ => trivial : (typeExpr c₁).Ensures fun _ _ => True).andMaybe
      intro type c₂ _ _
      have operation : Operator.assign.precedence < castPrecedence := by decide
      exact operators_leveled ⟨leveled, borne⟩ operation weak (.inl rfl)
    · cases cast
  next noCast =>
    split
    next none =>
      refine ⟨leveled, operation, strong, fun weak => ?_, none⟩
      rwa [if_pos weak] at noCast
    next op opSpan c₁ _ taken =>
      obtain ⟨kind, accepted, passed⟩ := passes_of_take? taken
      obtain ⟨rfl, other, tight⟩ := TokenKind.of_binary? accepted
      have bounds := BinaryOp.precedence_bounds other
      have borne : left.Bears op.precedence := by
        rcases bears with isCast | stops
        · exact .inl isCast
        · refine .inr (Nat.le_of_not_lt fun stronger => ?_)
          obtain ⟨_, found⟩ := passed.take? (TokenKind.binary?_token other stronger)
          rw [stops.operator] at found
          cases found
      apply Reading.Ensures.pastOptional
      apply (binary_leveled bounds.2 c₁).andMaybe
      rintro right c₂ _ ⟨rightLeveled, -, tighter, stops⟩
      refine operators_leveled ⟨leveled, rightLeveled, ?_⟩ bounds.1 tight (.inr stops)
      rw [if_neg (by simp [other])]
      exact ⟨borne, tighter⟩
termination_by 16 * c.size + 4

theorem unary_leveled (c : Cursor) :
    (unary c).Ensures fun e _ => e.Leveled ∧ Operator.bang.precedence ≤ e.strength := by
  rw [unary]
  split
  · apply (access_leveled c).andMaybe
    rintro operand c₁ _ ⟨leveled, strong⟩
    have tight : Operator.increment.precedence ≤ Expr.accessStrength := by decide
    refine (trailingOperators_leveled leveled (Nat.le_trans tight strong)).mono ?_
    rintro e next ⟨leveled, strong⟩
    have tighter : Operator.bang.precedence ≤ Operator.increment.precedence := by decide
    exact ⟨leveled, Nat.le_trans tighter strong⟩
  next op opSpan c₁ _ taken =>
    apply Reading.Ensures.past
    apply (unary_leveled c₁).map
    rintro operand c₂ ⟨leveled, strong⟩
    exact ⟨⟨leveled, strong⟩, Nat.le_refl _⟩
termination_by 16 * c.size + 3

theorem access_leveled (c : Cursor) :
    (access c).Ensures fun e _ => e.Leveled ∧ Expr.accessStrength ≤ e.strength := by
  rw [access]
  apply (primary_leveled c).andMaybe
  rintro first c₁ _ ⟨leveled, strong⟩
  exact accesses_leveled leveled strong
termination_by 16 * c.size + 1

theorem accesses_leveled {target : Expr} {c : Cursor} (leveled : target.Leveled)
    (strong : Expr.accessStrength ≤ target.strength) :
    (accesses target c).Ensures fun e _ => e.Leveled ∧ Expr.accessStrength ≤ e.strength := by
  rw [accesses]
  split
  next c₁ _ opened =>
    apply Reading.Ensures.pastOptional
    apply (expressionList_leveled c₁).andMaybe
    intro args c₂ _ listed
    exact accesses_leveled ⟨leveled, strong, listed⟩ (Nat.le_refl _)
  split
  next c₁ _ dotted =>
    apply Reading.Ensures.pastOptional
    apply expect_ensures.andMaybe
    intro (text, span) c₂ _ _
    exact accesses_leveled ⟨leveled, strong⟩ (Nat.le_refl _)
  split
  next c₁ _ opened =>
    apply Reading.Ensures.pastOptional
    apply (expression_leveled c₁).andThen
    rintro index c₂ _ ⟨indexed, -⟩
    apply expectMark_ensures.andMaybe
    intro _ c₃ _ _
    exact accesses_leveled ⟨leveled, strong, indexed⟩ (Nat.le_refl _)
  · exact ⟨leveled, strong⟩
termination_by 16 * c.size + 1

theorem expressionList_leveled {close : Punctuation} {wanted : String} (c : Cursor) :
    (expressionList close wanted c).Ensures fun list _ => Expr.AllLeveled list := by
  rw [expressionList]
  split
  · trivial
  · apply (expression_leveled c).andThen
    rintro first c₁ _ ⟨leveled, -⟩
    split
    next c₂ _ comma =>
      apply Reading.Ensures.past
      apply (expressionList_leveled c₂).map
      intro rest _ others
      exact ⟨leveled, others⟩
    · exact expectMark_ensures.map fun _ _ _ => ⟨leveled, trivial⟩
termination_by 16 * c.size + 7

theorem primary_leveled (c : Cursor) :
    (primary c).Ensures fun e _ => e.Leveled ∧ Expr.accessStrength ≤ e.strength := by
  have strong : Expr.accessStrength ≤ Expr.accessStrength + 10 := Nat.le_add_right _ _
  rw [primary]
  split
  · trivial
  · exact ⟨trivial, strong⟩
  · exact ⟨trivial, strong⟩
  · exact ⟨trivial, strong⟩
  · exact ⟨trivial, strong⟩
  · exact ⟨trivial, strong⟩
  · exact ⟨trivial, strong⟩
  next head holes span c₁ size shorter found =>
    have fewer : holesWeight holes < c.size := by
      simp only [TokenKind.weight] at size
      omega
    split
    next list read => exact ⟨interpolations_leveled read, strong⟩
    · trivial
  next c₁ _ _ opened =>
    apply Reading.Ensures.past
    apply (expression_leveled c₁).andThen
    rintro inner c₂ _ ⟨leveled, -⟩
    exact expectMark_ensures.mapAt fun _ _ _ => ⟨leveled, strong⟩
  next c₁ _ _ opened =>
    apply Reading.Ensures.past
    exact (expressionList_leveled c₁).mapAt fun _ _ leveled => ⟨leveled, strong⟩
  next c₁ _ _ opened =>
    apply Reading.Ensures.past
    exact (properties_leveled c₁).mapAt fun _ _ leveled => ⟨leveled, strong⟩
  · trivial
termination_by 16 * c.size

theorem property_leveled (c : Cursor) :
    (property c).Ensures fun p _ => Property.AllLeveled [p] := by
  rw [property]
  split
  next c₁ _ dotted =>
    apply Reading.Ensures.past
    exact (expression_leveled c₁).mapAt fun _ _ good => ⟨good.1, trivial⟩
  · apply expectName_ensures.andMaybe
    intro name c₁ _ _
    split
    next c₂ _ coloned =>
      apply Reading.Ensures.pastOptional
      exact (expression_leveled c₂).mapAt fun _ _ good => ⟨good.1, trivial⟩
    · trivial
termination_by 16 * c.size

theorem properties_leveled (c : Cursor) :
    (properties c).Ensures fun list _ => Property.AllLeveled list := by
  rw [properties]
  split
  · exact expectMark_ensures.map fun _ _ _ => trivial
  · apply (property_leveled c).andThen
    intro first c₁ _ leveled
    split
    next c₂ _ comma =>
      apply Reading.Ensures.past
      apply (properties_leveled c₂).map
      intro rest _ others
      cases first with
      | assign => exact ⟨leveled.1, others⟩
      | shorthand => exact others
      | spread => exact ⟨leveled.1, others⟩
    · exact expectMark_ensures.map fun _ _ _ => leveled
termination_by 16 * c.size + 1

theorem interpolations_leveled {holes : List Hole} {list : List TemplateHole}
    (read : interpolations holes = .ok list) : TemplateHole.AllLeveled list := by
  match holes with
  | [] =>
    rw [interpolations] at read
    cases read
    trivial
  | .mk tokens span after :: rest =>
    rw [interpolations] at read
    split at read
    · cases read
    next start opened =>
      have size := size_ofTokens? opened
      have good := expression_leveled start
      dsimp only at read
      split at read
      · cases read
      next value c _ parsed =>
        rw [parsed] at good
        split at read
        · split at read
          next list more =>
            cases read
            exact ⟨good.1, interpolations_leveled more⟩
          · cases read
        · cases read
termination_by 16 * holesWeight holes
decreasing_by all_goals simp only [holesWeight, Hole.weight] at *; omega

end

end Grammar

end ScriptToGo
