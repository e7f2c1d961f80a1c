import ScriptToGo.Proofs.Grammar.Rules

/-! Reading the tokens of an expression gives the expression. -/
namespace ScriptToGo

mutual

/-- No value in an expression is taken as having a type. -/
def Expr.CastFree : Expr → Prop
  | .array _ elements => Expr.AllCastFree elements
  | .cast .. => False
  | .binary _ left _ _ right => left.CastFree ∧ right.CastFree
  | .call _ callee args => callee.CastFree ∧ Expr.AllCastFree args
  | .conditional _ condition whenTrue whenFalse =>
    condition.CastFree ∧ whenTrue.CastFree ∧ whenFalse.CastFree
  | .index _ object index => object.CastFree ∧ index.CastFree
  | .object _ properties => Property.AllCastFree properties
  | .paren _ inner => inner.CastFree
  | .leading _ _ _ operand | .trailing _ operand _ _ => operand.CastFree
  | .member _ object _ => object.CastFree
  | .template _ _ holes => TemplateHole.AllCastFree holes
  | .ident .. | .number .. | .string .. | .boolean .. | .null .. => True

def Expr.AllCastFree : List Expr → Prop
  | [] => True
  | e :: rest => e.CastFree ∧ Expr.AllCastFree rest

def Property.AllCastFree : List Property → Prop
  | [] => True
  | .assign _ _ value :: rest => value.CastFree ∧ Property.AllCastFree rest
  | .shorthand .. :: rest => Property.AllCastFree rest
  | .spread _ value :: rest => value.CastFree ∧ Property.AllCastFree rest

def TemplateHole.AllCastFree : List TemplateHole → Prop
  | [] => True
  | .mk value _ :: rest => value.CastFree ∧ TemplateHole.AllCastFree rest

end

theorem Property.allCastFree_cons {p : Property} {rest : List Property}
    (h : AllCastFree (p :: rest)) : AllCastFree [p] ∧ AllCastFree rest := by
  cases p with
  | shorthand => exact ⟨trivial, h⟩
  | assign | spread => exact ⟨⟨h.1, trivial⟩, h.2⟩

theorem Expr.CastFree.not_isCast {e : Expr} (free : e.CastFree) : ¬e.isCast = true := by
  cases e with
  | cast => exact free.elim
  | _ => exact Bool.false_ne_true

/-- What the table of operators asks of operands that are not taken as having a type. -/
theorem Expr.Leveled.operands {s opSpan : Span} {left right : Expr} {op : BinaryOp}
    (h : (Expr.binary s left op opSpan right).Leveled)
    (free : (Expr.binary s left op opSpan right).CastFree) (other : op.isAssignment = false) :
    left.Leveled ∧ right.Leveled ∧ op.precedence ≤ left.strength ∧
      op.precedence < right.strength := by
  obtain ⟨leveledLeft, leveledRight, shape⟩ := h
  rw [if_neg (by simp [other])] at shape
  obtain ⟨isCast | bears, tighter⟩ := shape
  · exact (free.1.not_isCast isCast).elim
  · exact ⟨leveledLeft, leveledRight, bears, tighter⟩

theorem Expr.WrittenBy.operands {s opSpan : Span} {left right : Expr} {op : BinaryOp}
    {ts : List Token} (h : (Expr.binary s left op opSpan right).WrittenBy ts) :
    ∃ us vs, ts = us ++ .mk (.operator op.token) opSpan :: vs ∧ left.WrittenBy us ∧
      right.WrittenBy vs ∧ s = left.span.cover right.span := by
  cases h with
  | binary first second => exact ⟨_, _, rfl, first, second, rfl⟩

namespace Grammar
open Cursor

/-- All expressions below a size are read from their tokens, wherever something follows that ends
an expression. -/
def ReadsBack (size : Nat) : Prop :=
  ∀ {c next : Cursor} {ts : List Token} {e : Expr}, sizeOf e < size → e.WrittenBy ts →
    e.CastFree → e.Leveled → c.Passes ts next → next.grip < Operator.assign.precedence →
    (expression c).Gives e next

variable {size : Nat}

theorem expressionList_gives (smaller : ReadsBack size) {close : Punctuation} {wanted : String}
    {c next : Cursor} {ts : List Token} {closing : Span} {list : List Expr}
    (small : sizeOf list ≤ size) (written : Expr.ListWrittenBy list ts)
    (free : Expr.AllCastFree list) (leveled : Expr.AllLeveled list)
    (passed : c.Passes (ts ++ [.mk (.punctuation close) closing]) next)
    (closes : (TokenKind.punctuation close).grip = 0)
    (other : (TokenKind.punctuation close).opensExpression = false)
    (noComma : TokenKind.isMark .comma (.punctuation close) = none) :
    (expressionList close wanted c).Gives list next := by
  induction list generalizing c ts with
  | nil => cases written with | nil => exact expressionList_nil passed
  | cons e rest ih =>
    rw [List.cons.sizeOf_spec] at small
    cases written with
    | last first =>
      obtain ⟨mid, before, closed⟩ := passed.split
      have loose : mid.grip < Operator.assign.precedence := by
        rw [closed.grip_eq, closes]
        decide
      exact expressionList_last (before.mark?_eq_none first other)
        (smaller (by omega) first free.1 leveled.1 before loose) closed noComma
    | cons first others =>
      rw [List.append_assoc] at passed
      obtain ⟨mid, before, after⟩ := passed.split
      obtain ⟨start, comma, after⟩ := after.cons
      have loose : mid.grip < Operator.assign.precedence := by rw [comma.grip_eq]; decide
      exact expressionList_cons (before.mark?_eq_none first other)
        (smaller (by omega) first free.1 leveled.1 before loose) comma
        (ih (by omega) others free.2 leveled.2 after)

theorem property_gives (smaller : ReadsBack size) {c next : Cursor} {ts : List Token} {p : Property}
    (small : sizeOf p ≤ size) (written : p.WrittenBy ts) (free : Property.AllCastFree [p])
    (leveled : Property.AllLeveled [p]) (passed : c.Passes ts next)
    (loose : next.grip < Operator.assign.precedence) (noColon : next.mark? .colon = none) :
    (property c).Gives p next ∧ (c.atMark .rightBrace || c.atEnd) = false := by
  have span := passed.spanFrom_eq written.ne_nil
  cases written with
  | assign whole value =>
    subst whole
    rw [Property.assign.sizeOf_spec] at small
    obtain ⟨mid, named, after⟩ := passed.cons
    obtain ⟨start, coloned, after⟩ := after.cons
    rw [atMark, atEnd, passed.peek, ← span]
    have read := smaller (by omega) value free.1 leveled.1 after loose
    exact ⟨property_assign named coloned read, rfl⟩
  | shorthand =>
    rw [atMark, atEnd, passed.peek, ← span]
    exact ⟨property_shorthand passed noColon, rfl⟩
  | spread whole value =>
    subst whole
    rw [Property.spread.sizeOf_spec] at small
    obtain ⟨mid, dotted, after⟩ := passed.cons
    rw [atMark, atEnd, passed.peek, ← span]
    exact ⟨property_spread dotted (smaller (by omega) value free.1 leveled.1 after loose), rfl⟩

theorem properties_gives (smaller : ReadsBack size) {c next : Cursor} {ts : List Token}
    {closing : Span} {list : List Property} (small : sizeOf list ≤ size)
    (written : Property.ListWrittenBy list ts) (free : Property.AllCastFree list)
    (leveled : Property.AllLeveled list)
    (passed : c.Passes (ts ++ [.mk (.punctuation .rightBrace) closing]) next) :
    (properties c).Gives list next := by
  induction list generalizing c ts with
  | nil => cases written with | nil => exact properties_nil passed
  | cons p rest ih =>
    rw [List.cons.sizeOf_spec] at small
    cases written with
    | last first =>
      obtain ⟨mid, before, closed⟩ := passed.split
      have loose : mid.grip < Operator.assign.precedence := by rw [closed.grip_eq]; decide
      have noColon : mid.mark? .colon = none := take?_eq_none (by rw [closed.peek]; rfl)
      obtain ⟨read, some⟩ :=
        property_gives smaller (by omega) first free leveled before loose noColon
      exact properties_last some read closed
    | cons first others =>
      rw [List.append_assoc] at passed
      obtain ⟨mid, before, after⟩ := passed.split
      obtain ⟨start, comma, after⟩ := after.cons
      obtain ⟨freeFirst, freeRest⟩ := Property.allCastFree_cons free
      obtain ⟨leveledFirst, leveledRest⟩ := Property.allLeveled_cons leveled
      have loose : mid.grip < Operator.assign.precedence := by rw [comma.grip_eq]; decide
      have noColon : mid.mark? .colon = none := take?_eq_none (by rw [comma.peek]; rfl)
      obtain ⟨read, some⟩ :=
        property_gives smaller (by omega) first freeFirst leveledFirst before loose noColon
      exact properties_cons some read comma (ih (by omega) others freeRest leveledRest after)

theorem interpolations_gives (smaller : ReadsBack size) {list : List TemplateHole}
    {holes : List Hole} (small : sizeOf list ≤ size)
    (written : TemplateHole.ListWrittenBy list holes) (free : TemplateHole.AllCastFree list)
    (leveled : TemplateHole.AllLeveled list) : interpolations holes = .ok list := by
  induction list generalizing holes with
  | nil => cases written with | nil => rw [interpolations]
  | cons hole rest ih =>
    cases written with
    | cons first others =>
      rw [List.cons.sizeOf_spec, TemplateHole.mk.sizeOf_spec] at small
      refine interpolations_cons (fun c next passed rest => ?_)
        (ih (by omega) others free.2 leveled.2)
      have atEnd : next.grip = 0 := by
        simp only [Cursor.grip, peek, rest]
        rfl
      exact smaller (by omega) first free.1 leveled.1 passed (by rw [atEnd]; decide)

theorem primary_gives (smaller : ReadsBack size) {c next : Cursor} {ts : List Token} {e : Expr}
    (small : sizeOf e ≤ size) (written : e.WrittenBy ts) (free : e.CastFree) (leveled : e.Leveled)
    (atom : Expr.accessStrength < e.strength) (passed : c.Passes ts next) :
    c.peek.kind.leading? = none ∧ (primary c).Gives e next := by
  have span := passed.spanFrom_eq written.ne_nil
  cases written with
  | number | string | ident =>
    rw [passed.peek, ← span]
    exact ⟨rfl, primary_atom passed rfl⟩
  | trueWord whole | falseWord whole | null whole =>
    subst whole
    rw [passed.peek, ← span]
    exact ⟨rfl, primary_atom passed rfl⟩
  | template listed =>
    rw [Expr.template.sizeOf_spec] at small
    rw [passed.peek, ← span]
    have read := interpolations_gives smaller (by omega) listed free leveled
    exact ⟨rfl, primary_holes passed read⟩
  | paren whole inner =>
    subst whole
    rw [Expr.paren.sizeOf_spec] at small
    obtain ⟨start, opened, after⟩ := passed.cons
    obtain ⟨stop, between, closed⟩ := after.split
    have closes : stop.grip < Operator.assign.precedence := by rw [closed.grip_eq]; decide
    rw [passed.peek, ← span]
    exact ⟨rfl, primary_paren opened (smaller (by omega) inner free leveled between closes) closed⟩
  | array whole listed =>
    subst whole
    rw [Expr.array.sizeOf_spec] at small
    obtain ⟨start, opened, after⟩ := passed.cons
    rw [passed.peek, ← span]
    refine ⟨rfl, primary_array opened ?_⟩
    exact expressionList_gives smaller (by omega) listed free leveled after rfl rfl rfl
  | object whole listed =>
    subst whole
    rw [Expr.object.sizeOf_spec] at small
    obtain ⟨start, opened, after⟩ := passed.cons
    rw [passed.peek, ← span]
    exact ⟨rfl, primary_object opened (properties_gives smaller (by omega) listed free leveled after)⟩
  | @binary _ _ op => exact absurd atom (by rw [Expr.strength]; cases op <;> decide)
  | cast | call | member | index | conditional | leading | trailing =>
    simp [Expr.strength, Expr.accessStrength, castPrecedence, Operator.precedence] at atom

theorem access_gives (smaller : ReadsBack size) {c next last : Cursor} {ts : List Token}
    {e value : Expr} (small : sizeOf e ≤ size) (written : e.WrittenBy ts) (free : e.CastFree)
    (leveled : e.Leveled) (strong : Expr.accessStrength ≤ e.strength) (passed : c.Passes ts next)
    (others : (accesses e next).Gives value last) :
    c.peek.kind.leading? = none ∧ (access c).Gives value last := by
  by_cases atom : Expr.accessStrength < e.strength
  · obtain ⟨notLeading, read⟩ := primary_gives smaller small written free leveled atom passed
    exact ⟨notLeading, access_primary read others⟩
  · rcases Expr.shape_of_access strong atom with
      ⟨_, callee, args, rfl⟩ | ⟨_, target, name, rfl⟩ | ⟨_, target, place, rfl⟩
    · rw [Expr.call.sizeOf_spec] at small
      cases written with
      | call first listed =>
        obtain ⟨mid, before, after⟩ := passed.split
        obtain ⟨start, opened, after⟩ := after.cons
        obtain ⟨leveledCallee, strong, leveledArgs⟩ := leveled
        refine access_gives smaller (by omega) first free.1 leveledCallee strong before ?_
        refine accesses_call opened
          (expressionList_gives smaller (by omega) listed free.2 leveledArgs after rfl rfl rfl) ?_
        rw [after.last, lastSpan_append, lastSpan_cons]
        exact others
    · rw [Expr.member.sizeOf_spec] at small
      cases written with
      | member first =>
        obtain ⟨mid, before, after⟩ := passed.split
        obtain ⟨start, dotted, named⟩ := after.cons
        refine access_gives smaller (by omega) first free leveled.1 leveled.2 before ?_
        exact accesses_member dotted named others
    · rw [Expr.index.sizeOf_spec] at small
      cases written with
      | index first indexed =>
        obtain ⟨mid, before, after⟩ := passed.split
        obtain ⟨start, opened, after⟩ := after.cons
        obtain ⟨stop, between, closed⟩ := after.split
        obtain ⟨leveledTarget, strong, leveledPlace⟩ := leveled
        have closes : stop.grip < Operator.assign.precedence := by rw [closed.grip_eq]; decide
        have read := smaller (by omega) indexed free.2 leveledPlace between closes
        refine access_gives smaller (by omega) first free.1 leveledTarget strong before ?_
        exact accesses_index opened read closed others
termination_by sizeOf e

theorem trailing_gives (smaller : ReadsBack size) {c next last : Cursor} {ts : List Token}
    {e value : Expr} (small : sizeOf e ≤ size) (written : e.WrittenBy ts) (free : e.CastFree)
    (leveled : e.Leveled) (strong : Operator.increment.precedence ≤ e.strength)
    (passed : c.Passes ts next) (loose : next.grip < Expr.accessStrength)
    (others : (trailingOperators e next).Gives value last) :
    (unary c).Gives value last := by
  by_cases tight : Expr.accessStrength ≤ e.strength
  · obtain ⟨notLeading, read⟩ :=
      access_gives smaller small written free leveled tight passed (accesses_stop loose)
    exact unary_access notLeading read others
  · obtain ⟨_, operand, op, opSpan, rfl⟩ := Expr.shape_of_trailing strong tight
    rw [Expr.trailing.sizeOf_spec] at small
    cases written with
    | trailing first =>
      obtain ⟨mid, before, after⟩ := passed.split
      obtain ⟨tight, strong, updates⟩ := leveled
      have looser : mid.grip < Expr.accessStrength := by
        rw [after.grip_eq]
        cases op <;> decide
      refine trailing_gives smaller (by omega) first free tight strong before looser ?_
      exact trailingOperators_step after updates others
termination_by sizeOf e

theorem unary_gives (smaller : ReadsBack size) {c next : Cursor} {ts : List Token} {e : Expr}
    (small : sizeOf e ≤ size) (written : e.WrittenBy ts) (free : e.CastFree) (leveled : e.Leveled)
    (strong : Operator.bang.precedence ≤ e.strength) (passed : c.Passes ts next)
    (loose : next.grip < Operator.increment.precedence) : (unary c).Gives e next := by
  by_cases tight : Operator.increment.precedence ≤ e.strength
  · have looser : next.grip < Expr.accessStrength := Nat.lt_trans loose (by decide)
    exact trailing_gives smaller small written free leveled tight passed looser
      (trailingOperators_stop loose)
  · obtain ⟨_, op, opSpan, operand, rfl⟩ := Expr.shape_of_leading strong tight
    rw [Expr.leading.sizeOf_spec] at small
    cases written with
    | leading inner =>
      obtain ⟨mid, first, after⟩ := passed.cons
      apply unary_leading first
      exact unary_gives smaller (by omega) inner free leveled.1 leveled.2 after loose
termination_by sizeOf e

/-- Reading operands and operators goes on behind what is read, from where the loop would. -/
theorem binary_gives (smaller : ReadsBack size) {least : Nat} {c next last : Cursor}
    {ts : List Token} {e value : Expr} (small : sizeOf e ≤ size) (written : e.WrittenBy ts)
    (free : e.CastFree) (leveled : e.Leveled) (operation : e.IsOperation)
    (strong : least ≤ e.strength) (passed : c.Passes ts next)
    (loose : next.grip ≤ e.strength) (looser : next.grip < Operator.bang.precedence)
    (others : (operators least e next).Gives value last) :
    (binary least c).Gives value last := by
  by_cases tight : Operator.bang.precedence ≤ e.strength
  · have looser : next.grip < Operator.increment.precedence := Nat.lt_trans looser (by decide)
    exact binary_operand (unary_gives smaller small written free leveled tight passed looser) others
  · rcases Expr.shape_of_isOperation operation tight with
      isCast | ⟨_, left, op, opSpan, right, other, rfl⟩
    · exact (free.not_isCast isCast).elim
    · rw [Expr.binary.sizeOf_spec] at small
      obtain ⟨us, vs, rfl, first, second, rfl⟩ := written.operands
      obtain ⟨mid, before, after⟩ := passed.split
      obtain ⟨start, taken, after⟩ := after.cons
      obtain ⟨leveledLeft, leveledRight, bears, tighter⟩ := leveled.operands free other
      have bounds := BinaryOp.precedence_bounds other
      have loose : next.grip ≤ op.precedence := loose
      have grip : mid.grip = op.precedence := by rw [taken.grip_eq, TokenKind.grip_token]
      refine binary_gives smaller (by omega) first free.1 leveledLeft
        (Nat.lt_of_lt_of_le bounds.1 bears) (Nat.le_trans strong bears) before (by omega)
        (by omega) ?_
      refine operators_step taken other strong ?_ others
      exact binary_gives smaller (by omega) second free.2 leveledRight
        (Nat.lt_trans bounds.1 tighter) tighter after (by omega) looser
        (operators_stop (.inl (Nat.lt_succ_of_le loose)))
termination_by sizeOf e

theorem conditional_gives (smaller : ReadsBack size) {c next : Cursor} {ts : List Token} {e : Expr}
    (small : sizeOf e ≤ size) (written : e.WrittenBy ts) (free : e.CastFree) (leveled : e.Leveled)
    (operation : e.IsOperation) (passed : c.Passes ts next)
    (loose : next.grip ≤ Operator.assign.precedence) : (conditional c).Gives e next := by
  have looser : next.grip < Operator.bang.precedence := Nat.lt_of_le_of_lt loose (by decide)
  have weak : next.grip ≤ e.strength := Nat.le_trans loose (Nat.le_of_lt operation)
  refine conditional_operation ?_ loose
  exact binary_gives smaller small written free leveled operation (Nat.zero_le _) passed weak looser
    (operators_stop (.inr (Nat.le_succ_of_le loose)))

theorem choice_gives (smaller : ReadsBack size) {c next : Cursor} {ts : List Token} {s : Span}
    {condition whenTrue whenFalse : Expr}
    (small : sizeOf (Expr.conditional s condition whenTrue whenFalse) ≤ size)
    (written : (Expr.conditional s condition whenTrue whenFalse).WrittenBy ts)
    (free : (Expr.conditional s condition whenTrue whenFalse).CastFree)
    (leveled : (Expr.conditional s condition whenTrue whenFalse).Leveled)
    (passed : c.Passes ts next) (loose : next.grip < Operator.assign.precedence) :
    (conditional c).Gives (.conditional s condition whenTrue whenFalse) next := by
  rw [Expr.conditional.sizeOf_spec] at small
  cases written with
  | conditional first second third =>
    obtain ⟨mid, before, after⟩ := passed.split
    obtain ⟨start, asked, after⟩ := after.cons
    obtain ⟨stop, between, after⟩ := after.split
    obtain ⟨place, coloned, after⟩ := after.cons
    obtain ⟨leveledFirst, operation, leveledSecond, leveledThird⟩ := leveled
    have grip : mid.grip = Operator.assign.precedence + 1 := asked.grip_eq
    have strong : mid.grip ≤ condition.strength := by rw [grip]; exact operation
    have looser : mid.grip < Operator.bang.precedence := by rw [grip]; decide
    have closes : stop.grip < Operator.assign.precedence := by rw [coloned.grip_eq]; decide
    refine conditional_choice ?_ asked ?_ coloned ?_
    · exact binary_gives smaller (by omega) first free.1 leveledFirst operation (Nat.zero_le _)
        before strong looser (operators_stop (.inr (Nat.le_of_eq grip)))
    · exact smaller (by omega) second free.2.1 leveledSecond between closes
    · exact smaller (by omega) third free.2.2 leveledThird after loose

theorem readsBack_succ (smaller : ReadsBack size) : ReadsBack (size + 1) := by
  intro c next ts e small written free leveled passed loose
  have small : sizeOf e ≤ size := Nat.le_of_lt_succ small
  by_cases operation : e.IsOperation
  · refine expression_conditional ?_ loose
    exact conditional_gives smaller small written free leveled operation passed (Nat.le_of_lt loose)
  · rcases Expr.shape_of_not_isOperation operation with
      ⟨_, condition, whenTrue, whenFalse, rfl⟩ | ⟨_, left, op, opSpan, right, assigns, rfl⟩
    · exact expression_conditional (choice_gives smaller small written free leveled passed loose) loose
    · rw [Expr.binary.sizeOf_spec] at small
      obtain ⟨us, vs, rfl, first, second, rfl⟩ := written.operands
      obtain ⟨mid, before, after⟩ := passed.split
      obtain ⟨start, assigned, after⟩ := after.cons
      obtain ⟨leveledLeft, leveledRight, operation⟩ := leveled
      rw [if_pos assigns] at operation
      have lowest : op.precedence = Operator.assign.precedence := of_decide_eq_true assigns
      have looser : mid.grip ≤ Operator.assign.precedence := by
        rw [assigned.grip_eq, TokenKind.grip_token, lowest]
      refine expression_assignment ?_ assigned assigns ?_
      · exact conditional_gives smaller (by omega) first free.1 leveledLeft operation before looser
      · exact smaller (by omega) second free.2 leveledRight after loose

/-- The tokens of an expression that keeps to the table of operators are read as that expression. -/
theorem expression_gives {c next : Cursor} {ts : List Token} {e : Expr} (written : e.WrittenBy ts)
    (free : e.CastFree) (leveled : e.Leveled) (passed : c.Passes ts next)
    (loose : next.grip < Operator.assign.precedence) : (expression c).Gives e next := by
  have readsBack (size : Nat) : ReadsBack size := by
    induction size with
    | zero => exact fun none => absurd none (Nat.not_lt_zero _)
    | succ size ih => exact readsBack_succ ih
  exact readsBack _ (Nat.lt_succ_self _) written free leveled passed loose

end Grammar

end ScriptToGo
