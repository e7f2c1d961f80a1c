import ScriptToGo.Grammar.Expr
import ScriptToGo.Proofs.Grammar.WrittenTypes
import ScriptToGo.Proofs.Token.Lexical

/-! The tokens that reading an expression takes are those that write it. -/
namespace ScriptToGo

theorem Cursor.Passes.lexical {c next : Cursor} {taken : List Token} (h : c.Passes taken next)
    (lexical : Lexical c.rest) : Lexical next.rest := by
  rw [h.rest] at lexical
  exact (lexical_append.1 lexical).2

namespace Cursor

variable {c start : Cursor} {taken tokens : List Token}

theorem rest_of_ofTokens? (opened : ofTokens? tokens = some start) : start.rest = tokens := by
  rw [ofTokens?] at opened
  split at opened
  · cases opened
    rfl
  · cases opened

/-- Before the end of the text all tokens but the last have been taken. -/
theorem tokens_of_atEnd (passed : start.Passes taken c) (atEnd : c.atEnd = true)
    (ends : EndsOnce start.rest) : ∃ stop, start.rest = taken ++ [.mk .eof stop] := by
  obtain ⟨last, rest, left⟩ := List.exists_cons_of_ne_nil c.rest_ne_nil
  have isEof : last.kind = .eof := by
    rw [Cursor.atEnd, peek] at atEnd
    simp only [left, List.head_cons] at atEnd
    cases is : last.kind with
    | eof => rfl
    | _ => simp [is, TokenKind.isEof] at atEnd
  rw [passed.rest, left] at ends ⊢
  exact ends.eq_of_eof isEof

end Cursor

theorem BinaryOp.token_of_ofToken? {op : Operator} {meaning : BinaryOp}
    (h : ofToken? op = some meaning) : op = meaning.token := by
  cases op <;> cases h <;> rfl

theorem UnaryOp.token_of_ofLeadingToken? {op : Operator} {meaning : UnaryOp}
    (h : ofLeadingToken? op = some meaning) : op = meaning.token := by
  cases op <;> cases h <;> rfl

theorem UnaryOp.token_of_ofTrailingToken? {op : Operator} {meaning : UnaryOp}
    (h : ofTrailingToken? op = some meaning) : op = meaning.token ∧ meaning.isUpdate = true := by
  cases op <;> cases h <;> exact ⟨rfl, rfl⟩

namespace TokenKind

variable {kind : TokenKind}

theorem of_assignment? {op : BinaryOp} (h : kind.assignment? = some op) :
    kind = .operator op.token ∧ op.isAssignment = true := by
  cases kind with
  | operator token =>
    obtain ⟨found, assigns⟩ := Option.filter_eq_some_iff.1 h
    exact ⟨by rw [BinaryOp.token_of_ofToken? found], assigns⟩
  | _ => cases h

theorem of_binary? {least : Nat} {op : BinaryOp} (h : kind.binary? least = some op) :
    kind = .operator op.token ∧ op.isAssignment = false ∧ least ≤ op.precedence := by
  cases kind with
  | operator token =>
    obtain ⟨found, binds⟩ := Option.filter_eq_some_iff.1 h
    simp only [Bool.and_eq_true, Bool.not_eq_true', decide_eq_true_eq] at binds
    exact ⟨by rw [BinaryOp.token_of_ofToken? found], binds⟩
  | _ => cases h

theorem of_leading? {op : UnaryOp} (h : kind.leading? = some op) : kind = .operator op.token := by
  cases kind with
  | operator token => rw [UnaryOp.token_of_ofLeadingToken? h]
  | _ => cases h

theorem of_trailing? {op : UnaryOp} (h : kind.trailing? = some op) :
    kind = .operator op.token ∧ op.isUpdate = true := by
  cases kind with
  | operator token =>
    obtain ⟨same, updates⟩ := UnaryOp.token_of_ofTrailingToken? h
    exact ⟨by rw [same], updates⟩
  | _ => cases h

/-- Among lexical tokens a name of a property is written by one kind of token. -/
theorem of_propertyName? {name : String} (h : kind.propertyName? = some name)
    (lexical : kind.IsLexical) : kind = wordKind name := by
  cases kind with
  | ident text =>
    cases h
    rw [wordKind, show Keyword.ofSpelling? name = none from lexical]
  | keyword word =>
    cases h
    cases word <;> rfl
  | _ => cases h

end TokenKind

namespace Grammar
open Cursor

theorem trailingOperators_takes {first c : Cursor} {operand : Expr} {ts : List Token}
    (before : first.Passes ts c) (written : operand.WrittenBy ts) :
    (trailingOperators operand c).Takes first Expr.WrittenBy := by
  rw [trailingOperators]
  split
  · exact ⟨ts, before, written⟩
  next op opSpan c₁ _ taken =>
    obtain ⟨kind, accepted, passed⟩ := passes_of_take? taken
    obtain ⟨rfl, -⟩ := TokenKind.of_trailing? accepted
    apply Reading.Ensures.loosen
    apply Reading.Ensures.weaken
    exact trailingOperators_takes (before.trans passed) (.trailing written)
termination_by c.size

mutual

theorem expression_takes {c : Cursor} (lexical : Lexical c.rest) :
    (expression c).Takes c Expr.WrittenBy := by
  rw [expression]
  apply (conditional_takes lexical).andMaybe
  rintro target c₁ _ ⟨ts, before, written⟩
  split
  · exact ⟨ts, before, written⟩
  next op opSpan c₂ _ taken =>
    obtain ⟨kind, accepted, passed⟩ := passes_of_take? taken
    obtain ⟨rfl, -⟩ := TokenKind.of_assignment? accepted
    have before : c.Passes _ c₂ := before.trans passed
    apply Reading.Ensures.pastOptional
    apply (expression_takes (before.lexical lexical)).map
    rintro value c₃ ⟨us, after, valued⟩
    refine ⟨_, before.trans after, ?_⟩
    rw [List.append_assoc]
    exact .binary written valued
termination_by 16 * c.size + 6

theorem conditional_takes {c : Cursor} (lexical : Lexical c.rest) :
    (conditional c).Takes c Expr.WrittenBy := by
  rw [conditional]
  apply (binary_takes lexical).andMaybe
  rintro condition c₁ _ ⟨ts, before, written⟩
  split
  · exact ⟨ts, before, written⟩
  next c₂ _ asked =>
    have before : c.Passes _ c₂ := before.trans (passes_of_mark? asked)
    apply Reading.Ensures.pastOptional
    apply (expression_takes (before.lexical lexical)).andThen
    rintro whenTrue c₃ _ ⟨us, between, whenTrueWritten⟩
    apply expectMark_ensures.andThen
    intro colon c₄ _ coloned
    have between := before.trans (between.trans coloned)
    apply (expression_takes (between.lexical lexical)).map
    rintro whenFalse c₅ ⟨vs, after, whenFalseWritten⟩
    refine ⟨_, between.trans after, ?_⟩
    simp only [List.append_assoc, List.cons_append, List.nil_append]
    exact .conditional written whenTrueWritten whenFalseWritten
termination_by 16 * c.size + 5

theorem binary_takes {least : Nat} {c : Cursor} (lexical : Lexical c.rest) :
    (binary least c).Takes c Expr.WrittenBy := by
  rw [binary]
  apply (unary_takes lexical).andMaybe
  rintro left c₁ _ ⟨ts, before, written⟩
  exact operators_takes lexical before written
termination_by 16 * c.size + 4

theorem operators_takes {least : Nat} {first c : Cursor} {left : Expr} {ts : List Token}
    (lexical : Lexical first.rest) (before : first.Passes ts c) (written : left.WrittenBy ts) :
    (operators least left c).Takes first Expr.WrittenBy := by
  rw [operators]
  split
  next span c₁ _ cast =>
    have taken : c.Passes [.mk (.keyword .asWord) span] c₁ := by
      split at cast
      · exact passes_of_word? cast
      · cases cast
    have before := before.trans taken
    apply Reading.Ensures.pastOptional
    apply (typeExpr_takes _).andMaybe
    rintro type c₂ _ ⟨us, after, typed⟩
    refine operators_takes lexical (before.trans after) ?_
    rw [List.append_assoc]
    exact .cast written typed
  · split
    · exact ⟨ts, before, written⟩
    next op opSpan c₁ _ taken =>
      obtain ⟨kind, accepted, passed⟩ := passes_of_take? taken
      obtain ⟨rfl, -⟩ := TokenKind.of_binary? accepted
      have before : first.Passes _ c₁ := before.trans passed
      apply Reading.Ensures.pastOptional
      apply (binary_takes (before.lexical lexical)).andMaybe
      rintro right c₂ _ ⟨us, after, rightWritten⟩
      refine operators_takes lexical (before.trans after) ?_
      rw [List.append_assoc]
      exact .binary written rightWritten
termination_by 16 * c.size + 4

theorem unary_takes {c : Cursor} (lexical : Lexical c.rest) :
    (unary c).Takes c Expr.WrittenBy := by
  rw [unary]
  split
  · apply (access_takes lexical).andMaybe
    rintro operand c₁ _ ⟨ts, before, written⟩
    exact trailingOperators_takes before written
  next op opSpan c₁ _ taken =>
    obtain ⟨kind, accepted, passed⟩ := passes_of_take? taken
    obtain rfl := TokenKind.of_leading? accepted
    have passed : c.Passes _ c₁ := passed
    apply Reading.Ensures.past
    apply (unary_takes (passed.lexical lexical)).map
    rintro operand c₂ ⟨ts, after, written⟩
    exact ⟨_, passed.trans after, .leading written⟩
termination_by 16 * c.size + 3

theorem access_takes {c : Cursor} (lexical : Lexical c.rest) :
    (access c).Takes c Expr.WrittenBy := by
  rw [access]
  apply (primary_takes lexical).andMaybe
  rintro first c₁ _ ⟨ts, before, written⟩
  exact accesses_takes lexical before written
termination_by 16 * c.size + 1

theorem accesses_takes {first c : Cursor} {target : Expr} {ts : List Token}
    (lexical : Lexical first.rest) (before : first.Passes ts c) (written : target.WrittenBy ts) :
    (accesses target c).Takes first Expr.WrittenBy := by
  rw [accesses]
  split
  next c₁ _ opened =>
    have before : first.Passes _ c₁ := before.trans (passes_of_mark? opened)
    apply Reading.Ensures.pastOptional
    apply (expressionList_takes (before.lexical lexical)).andMaybe
    rintro args c₂ _ ⟨_, after, us, closing, rfl, listed⟩
    refine accesses_takes lexical (before.trans after) ?_
    rw [after.last, lastSpan_append, lastSpan_cons, List.append_assoc]
    exact .call written listed
  split
  next c₁ _ dotted =>
    have before : first.Passes _ c₁ := before.trans (passes_of_mark? dotted)
    apply Reading.Ensures.pastOptional
    apply expect_ensures.andMaybe
    rintro ⟨text, span⟩ c₂ _ ⟨kind, accepted, named⟩
    have isLexical : kind.IsLexical := by
      have rest := before.lexical lexical
      rw [named.rest] at rest
      exact (lexical_cons.1 rest).1
    obtain rfl := TokenKind.of_propertyName? accepted isLexical
    refine accesses_takes lexical (before.trans named) ?_
    rw [List.append_assoc]
    exact .member written
  split
  next c₁ _ opened =>
    have before : first.Passes _ c₁ := before.trans (passes_of_mark? opened)
    apply Reading.Ensures.pastOptional
    apply (expression_takes (before.lexical lexical)).andThen
    rintro index c₂ _ ⟨us, between, indexed⟩
    apply expectMark_ensures.andMaybe
    intro closing c₃ _ closed
    refine accesses_takes lexical (before.trans (between.trans closed)) ?_
    rw [closed.last, lastSpan_cons, List.append_assoc]
    exact .index written indexed
  · exact ⟨ts, before, written⟩
termination_by 16 * c.size + 1

theorem expressionList_takes {close : Punctuation} {wanted : String} {c : Cursor}
    (lexical : Lexical c.rest) :
    (expressionList close wanted c).Takes c fun list taken => ∃ ts closing,
      taken = ts ++ [.mk (.punctuation close) closing] ∧ Expr.ListWrittenBy list ts := by
  rw [expressionList]
  split
  next closed => exact ⟨_, passes_of_mark? closed, [], _, rfl, .nil⟩
  · apply (expression_takes lexical).andThen
    rintro first c₁ _ ⟨ts, before, written⟩
    split
    next span c₂ _ comma =>
      have before : c.Passes _ c₂ := before.trans (passes_of_mark? comma)
      apply Reading.Ensures.past
      apply (expressionList_takes (before.lexical lexical)).map
      rintro rest c₃ ⟨_, after, us, closing, rfl, others⟩
      exact ⟨_, before.trans after, ts ++ .mk (.punctuation .comma) span :: us, closing, by simp,
        .cons written others⟩
    · apply expectMark_ensures.map
      intro closing c₂ closed
      exact ⟨_, before.trans closed, ts, closing, rfl, .last written⟩
termination_by 16 * c.size + 7

theorem primary_takes {c : Cursor} (lexical : Lexical c.rest) :
    (primary c).Takes c Expr.WrittenBy := by
  rw [primary]
  split
  · trivial
  next found =>
    have passed := passes_of_next? found
    exact ⟨_, passed, passed.spanFrom_eq (by simp) ▸ .number⟩
  next found =>
    have passed := passes_of_next? found
    exact ⟨_, passed, passed.spanFrom_eq (by simp) ▸ .string⟩
  next found =>
    have passed := passes_of_next? found
    exact ⟨_, passed, passed.spanFrom_eq (by simp) ▸ .ident⟩
  next found =>
    have passed := passes_of_next? found
    exact ⟨_, passed, passed.spanFrom_eq (by simp) ▸ .trueWord rfl⟩
  next found =>
    have passed := passes_of_next? found
    exact ⟨_, passed, passed.spanFrom_eq (by simp) ▸ .falseWord rfl⟩
  next found =>
    have passed := passes_of_next? found
    exact ⟨_, passed, passed.spanFrom_eq (by simp) ▸ .null rfl⟩
  next head holes span c₁ size shorter found =>
    have passed := passes_of_next? found
    have fewer : holesWeight holes < c.size := by
      simp only [TokenKind.weight] at size
      omega
    have inside : ∀ hole ∈ holes, EndsOnce hole.tokens ∧ Lexical hole.tokens := by
      rw [passed.rest] at lexical
      exact lexical.inside
    split
    next list read =>
      refine ⟨_, passed, ?_⟩
      rw [passed.spanFrom_eq (by simp)]
      exact .template (interpolations_written inside read)
    · trivial
  next c₁ _ _ opened =>
    have before : c.Passes _ c₁ := passes_of_next? opened
    apply Reading.Ensures.past
    apply (expression_takes (before.lexical lexical)).andThen
    rintro inner c₂ _ ⟨ts, between, written⟩
    apply expectMark_ensures.mapAt
    intro closing c₃ closed
    have passed := before.trans (between.trans closed)
    refine ⟨_, passed, ?_⟩
    rw [passed.spanFrom_eq (by simp)]
    exact .paren rfl written
  next c₁ _ _ opened =>
    have before : c.Passes _ c₁ := passes_of_next? opened
    apply Reading.Ensures.past
    apply (expressionList_takes (before.lexical lexical)).mapAt
    rintro elements c₂ ⟨_, after, ts, closing, rfl, written⟩
    have passed := before.trans after
    refine ⟨_, passed, ?_⟩
    rw [passed.spanFrom_eq (by simp)]
    exact .array rfl written
  next c₁ _ _ opened =>
    have before : c.Passes _ c₁ := passes_of_next? opened
    apply Reading.Ensures.past
    apply (properties_takes (before.lexical lexical)).mapAt
    rintro list c₂ ⟨_, after, ts, closing, rfl, written⟩
    have passed := before.trans after
    refine ⟨_, passed, ?_⟩
    rw [passed.spanFrom_eq (by simp)]
    exact .object rfl written
  · trivial
termination_by 16 * c.size

theorem property_takes {c : Cursor} (lexical : Lexical c.rest) :
    (property c).Takes c Property.WrittenBy := by
  rw [property]
  split
  next c₁ _ dotted =>
    have before : c.Passes _ c₁ := passes_of_mark? dotted
    apply Reading.Ensures.past
    apply (expression_takes (before.lexical lexical)).mapAt
    rintro value c₂ ⟨ts, after, written⟩
    have passed := before.trans after
    refine ⟨_, passed, ?_⟩
    rw [passed.spanFrom_eq (by simp)]
    exact .spread rfl written
  · apply expectName_ensures.andMaybe
    intro name c₁ _ named
    split
    next c₂ _ coloned =>
      have before : c.Passes _ c₂ := named.trans (passes_of_mark? coloned)
      apply Reading.Ensures.pastOptional
      apply (expression_takes (before.lexical lexical)).mapAt
      rintro value c₃ ⟨ts, after, written⟩
      have passed := before.trans after
      refine ⟨_, passed, ?_⟩
      rw [passed.spanFrom_eq (by simp)]
      exact .assign rfl written
    · refine ⟨_, named, ?_⟩
      rw [named.spanFrom_eq (by simp)]
      exact .shorthand
termination_by 16 * c.size

theorem properties_takes {c : Cursor} (lexical : Lexical c.rest) :
    (properties c).Takes c fun list taken => ∃ ts closing,
      taken = ts ++ [.mk (.punctuation .rightBrace) closing] ∧
        Property.ListWrittenBy list ts := by
  rw [properties]
  split
  · apply expectMark_ensures.map
    intro closing c₁ closed
    exact ⟨_, closed, [], closing, rfl, .nil⟩
  · apply (property_takes lexical).andThen
    rintro first c₁ _ ⟨ts, before, written⟩
    split
    next span c₂ _ comma =>
      have before : c.Passes _ c₂ := before.trans (passes_of_mark? comma)
      apply Reading.Ensures.past
      apply (properties_takes (before.lexical lexical)).map
      rintro rest c₃ ⟨_, after, us, closing, rfl, others⟩
      exact ⟨_, before.trans after, ts ++ .mk (.punctuation .comma) span :: us, closing, by simp,
        .cons written others⟩
    · apply expectMark_ensures.map
      intro closing c₂ closed
      exact ⟨_, before.trans closed, ts, closing, rfl, .last written⟩
termination_by 16 * c.size + 1

/-- Every interpolation holds the tokens of its value and nothing more. -/
theorem interpolations_written {holes : List Hole} {list : List TemplateHole}
    (inside : ∀ hole ∈ holes, EndsOnce hole.tokens ∧ Lexical hole.tokens)
    (read : interpolations holes = .ok list) : TemplateHole.ListWrittenBy list holes := by
  match holes with
  | [] =>
    rw [interpolations] at read
    cases read
    exact .nil
  | .mk tokens span after :: rest =>
    obtain ⟨⟨ends, lexical⟩, others⟩ := List.forall_mem_cons.1 inside
    rw [interpolations] at read
    split at read
    · cases read
    next start opened =>
      have size := size_ofTokens? opened
      have all := rest_of_ofTokens? opened
      have good : (expression start).Takes start Expr.WrittenBy :=
        expression_takes (all.symm ▸ lexical)
      dsimp only at read
      split at read
      · cases read
      next value c _ parsed =>
        rw [parsed] at good
        obtain ⟨ts, passed, written⟩ := good
        split at read
        next atEnd =>
          split at read
          next list more =>
            cases read
            obtain ⟨stop, whole⟩ := tokens_of_atEnd passed atEnd (all.symm ▸ ends)
            rw [← all, whole]
            exact .cons written (interpolations_written others more)
          · cases read
        · cases read
termination_by 16 * holesWeight holes
decreasing_by all_goals simp only [holesWeight, Hole.weight] at *; omega

end

end Grammar

end ScriptToGo
