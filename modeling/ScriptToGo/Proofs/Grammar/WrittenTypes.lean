import ScriptToGo.Program.Expr
import ScriptToGo.Proofs.Grammar.Passage
import ScriptToGo.Token.Lexer
import ScriptToGo.Grammar.TypeExpr

/-! The tokens that write types and expressions, in source order. Those that reading a type takes are
those that write it. -/
namespace ScriptToGo

mutual

/-- A type is written by these tokens. Parentheses leave no trace in it but the wider range. -/
inductive TypeExpr.WrittenBy : TypeExpr → List Token → Prop
  | named {name s} :
      TypeExpr.WrittenBy (.named (spanOf [.mk (.ident name) s]) name []) [.mk (.ident name) s]
  | generic {name s less args ts greater tokens}
      (whole : tokens = .mk (.ident name) s :: .mk (.operator .less) less ::
        (ts ++ [.mk (.operator .greater) greater])) :
      TypeExpr.ArgsWrittenBy args ts → TypeExpr.WrittenBy (.named (spanOf tokens) name args) tokens
  | string {body s} :
      TypeExpr.WrittenBy (.string (spanOf [.mk (.string body) s]) body) [.mk (.string body) s]
  | number {text s} :
      TypeExpr.WrittenBy (.number (spanOf [.mk (.number text) s]) text) [.mk (.number text) s]
  | negative {text minus s tokens}
      (whole : tokens = [.mk (.operator .minus) minus, .mk (.number text) s]) :
      TypeExpr.WrittenBy (.number (spanOf tokens) s!"-{text}") tokens
  | trueWord {s tokens} (whole : tokens = [.mk (.keyword .trueWord) s]) :
      TypeExpr.WrittenBy (.boolean (spanOf tokens) true) tokens
  | falseWord {s tokens} (whole : tokens = [.mk (.keyword .falseWord) s]) :
      TypeExpr.WrittenBy (.boolean (spanOf tokens) false) tokens
  | null {s tokens} (whole : tokens = [.mk (.keyword .nullWord) s]) :
      TypeExpr.WrittenBy (.null (spanOf tokens)) tokens
  | object {opening members ts closing tokens}
      (whole : tokens = .mk (.punctuation .leftBrace) opening ::
        (ts ++ [.mk (.punctuation .rightBrace) closing])) :
      Member.ListWrittenBy members ts →
      TypeExpr.WrittenBy (.object (spanOf tokens) members) tokens
  | paren {opening type ts closing tokens}
      (whole : tokens = .mk (.punctuation .leftParen) opening ::
        (ts ++ [.mk (.punctuation .rightParen) closing])) :
      TypeExpr.WrittenBy type ts → TypeExpr.WrittenBy (type.withSpan (spanOf tokens)) tokens
  | array {element ts opening closing tokens}
      (whole : tokens = ts ++ [.mk (.punctuation .leftBracket) opening,
        .mk (.punctuation .rightBracket) closing]) :
      TypeExpr.WrittenBy element ts → TypeExpr.WrittenBy (.array (spanOf tokens) element) tokens

/-- Type arguments are written with commas between them. -/
inductive TypeExpr.ArgsWrittenBy : List TypeExpr → List Token → Prop
  | last {type ts} : TypeExpr.WrittenBy type ts → TypeExpr.ArgsWrittenBy [type] ts
  | cons {type ts comma rest us} :
      TypeExpr.WrittenBy type ts → TypeExpr.ArgsWrittenBy rest us →
      TypeExpr.ArgsWrittenBy (type :: rest) (ts ++ .mk (.punctuation .comma) comma :: us)

inductive Member.WrittenBy : Member → List Token → Prop
  | required {name s colon type ts tokens}
      (whole : tokens = .mk (.ident name) s :: .mk (.punctuation .colon) colon :: ts) :
      TypeExpr.WrittenBy type ts → Member.WrittenBy (.mk (spanOf tokens) name false type) tokens
  | optional {name s mark colon type ts tokens}
      (whole : tokens = .mk (.ident name) s :: .mk (.punctuation .question) mark ::
        .mk (.punctuation .colon) colon :: ts) :
      TypeExpr.WrittenBy type ts → Member.WrittenBy (.mk (spanOf tokens) name true type) tokens

/-- A semicolon or a comma stands between members and may follow the last. -/
inductive Member.ListWrittenBy : List Member → List Token → Prop
  | nil : Member.ListWrittenBy [] []
  | last {member ts} : Member.WrittenBy member ts → Member.ListWrittenBy [member] ts
  | cons {member ts mark s rest us} (separates : mark = .semicolon ∨ mark = .comma) :
      Member.WrittenBy member ts → Member.ListWrittenBy rest us →
      Member.ListWrittenBy (member :: rest) (ts ++ .mk (.punctuation mark) s :: us)

end

mutual

/-- An expression is written by these tokens. The name of a property may be a reserved word. -/
inductive Expr.WrittenBy : Expr → List Token → Prop
  | array {opening elements ts closing tokens}
      (whole : tokens = .mk (.punctuation .leftBracket) opening ::
        (ts ++ [.mk (.punctuation .rightBracket) closing])) :
      Expr.ListWrittenBy elements ts → Expr.WrittenBy (.array (spanOf tokens) elements) tokens
  | cast {operand ts s type us} : Expr.WrittenBy operand ts → TypeExpr.WrittenBy type us →
      Expr.WrittenBy (.cast (operand.span.cover type.span) operand type)
        (ts ++ .mk (.keyword .asWord) s :: us)
  | binary {left ts op opSpan right us} : Expr.WrittenBy left ts → Expr.WrittenBy right us →
      Expr.WrittenBy (.binary (left.span.cover right.span) left op opSpan right)
        (ts ++ .mk (.operator op.token) opSpan :: us)
  | call {callee ts opening args us closing} : Expr.WrittenBy callee ts →
      Expr.ListWrittenBy args us →
      Expr.WrittenBy (.call (callee.span.cover closing) callee args)
        (ts ++ .mk (.punctuation .leftParen) opening ::
          (us ++ [.mk (.punctuation .rightParen) closing]))
  | conditional {condition ts mark whenTrue us colon whenFalse vs} :
      Expr.WrittenBy condition ts → Expr.WrittenBy whenTrue us → Expr.WrittenBy whenFalse vs →
      Expr.WrittenBy
        (.conditional (condition.span.cover whenFalse.span) condition whenTrue whenFalse)
        (ts ++ .mk (.punctuation .question) mark ::
          (us ++ .mk (.punctuation .colon) colon :: vs))
  | index {object ts opening index us closing} : Expr.WrittenBy object ts →
      Expr.WrittenBy index us →
      Expr.WrittenBy (.index (object.span.cover closing) object index)
        (ts ++ .mk (.punctuation .leftBracket) opening ::
          (us ++ [.mk (.punctuation .rightBracket) closing]))
  | ident {name s} :
      Expr.WrittenBy (.ident (spanOf [.mk (.ident name) s]) name) [.mk (.ident name) s]
  | number {text s} :
      Expr.WrittenBy (.number (spanOf [.mk (.number text) s]) text) [.mk (.number text) s]
  | object {opening properties ts closing tokens}
      (whole : tokens = .mk (.punctuation .leftBrace) opening ::
        (ts ++ [.mk (.punctuation .rightBrace) closing])) :
      Property.ListWrittenBy properties ts →
      Expr.WrittenBy (.object (spanOf tokens) properties) tokens
  | paren {opening inner ts closing tokens}
      (whole : tokens = .mk (.punctuation .leftParen) opening ::
        (ts ++ [.mk (.punctuation .rightParen) closing])) :
      Expr.WrittenBy inner ts → Expr.WrittenBy (.paren (spanOf tokens) inner) tokens
  | leading {op opSpan operand ts} : Expr.WrittenBy operand ts →
      Expr.WrittenBy (.leading (opSpan.cover operand.span) op opSpan operand)
        (.mk (.operator op.token) opSpan :: ts)
  | trailing {operand ts op opSpan} : Expr.WrittenBy operand ts →
      Expr.WrittenBy (.trailing (operand.span.cover opSpan) operand op opSpan)
        (ts ++ [.mk (.operator op.token) opSpan])
  | member {object ts dot property s} : Expr.WrittenBy object ts →
      Expr.WrittenBy (.member (object.span.cover s) object ⟨property, s⟩)
        (ts ++ [.mk (.punctuation .dot) dot, .mk (wordKind property) s])
  | string {body s} :
      Expr.WrittenBy (.string (spanOf [.mk (.string body) s]) body) [.mk (.string body) s]
  | template {head list holes s} : TemplateHole.ListWrittenBy list holes →
      Expr.WrittenBy (.template (spanOf [.mk (.template head holes) s]) head list)
        [.mk (.template head holes) s]
  | trueWord {s tokens} (whole : tokens = [.mk (.keyword .trueWord) s]) :
      Expr.WrittenBy (.boolean (spanOf tokens) true) tokens
  | falseWord {s tokens} (whole : tokens = [.mk (.keyword .falseWord) s]) :
      Expr.WrittenBy (.boolean (spanOf tokens) false) tokens
  | null {s tokens} (whole : tokens = [.mk (.keyword .nullWord) s]) :
      Expr.WrittenBy (.null (spanOf tokens)) tokens

/-- A comma stands between expressions and may follow the last. -/
inductive Expr.ListWrittenBy : List Expr → List Token → Prop
  | nil : Expr.ListWrittenBy [] []
  | last {e ts} : Expr.WrittenBy e ts → Expr.ListWrittenBy [e] ts
  | cons {e ts comma rest us} : Expr.WrittenBy e ts → Expr.ListWrittenBy rest us →
      Expr.ListWrittenBy (e :: rest) (ts ++ .mk (.punctuation .comma) comma :: us)

inductive Property.WrittenBy : Property → List Token → Prop
  | assign {name s colon value ts tokens}
      (whole : tokens = .mk (.ident name) s :: .mk (.punctuation .colon) colon :: ts) :
      Expr.WrittenBy value ts → Property.WrittenBy (.assign (spanOf tokens) ⟨name, s⟩ value) tokens
  | shorthand {name s} :
      Property.WrittenBy (.shorthand (spanOf [.mk (.ident name) s]) ⟨name, s⟩) [.mk (.ident name) s]
  | spread {dots value ts tokens} (whole : tokens = .mk (.punctuation .ellipsis) dots :: ts) :
      Expr.WrittenBy value ts → Property.WrittenBy (.spread (spanOf tokens) value) tokens

/-- A comma stands between properties and may follow the last. -/
inductive Property.ListWrittenBy : List Property → List Token → Prop
  | nil : Property.ListWrittenBy [] []
  | last {property ts} : Property.WrittenBy property ts → Property.ListWrittenBy [property] ts
  | cons {property ts comma rest us} :
      Property.WrittenBy property ts → Property.ListWrittenBy rest us →
      Property.ListWrittenBy (property :: rest) (ts ++ .mk (.punctuation .comma) comma :: us)

/-- Each interpolation of a template token holds the tokens of one value and the end of its text. -/
inductive TemplateHole.ListWrittenBy : List TemplateHole → List Hole → Prop
  | nil : TemplateHole.ListWrittenBy [] []
  | cons {value ts stop span after rest holes} : Expr.WrittenBy value ts →
      TemplateHole.ListWrittenBy rest holes →
      TemplateHole.ListWrittenBy (.mk value after :: rest)
        (.mk (ts ++ [.mk .eof stop]) span after :: holes)

end

theorem TypeExpr.WrittenBy.ne_nil {type : TypeExpr} {tokens : List Token}
    (h : type.WrittenBy tokens) : tokens ≠ [] := by
  cases h <;> simp_all

theorem Expr.WrittenBy.ne_nil {e : Expr} {tokens : List Token} (h : e.WrittenBy tokens) :
    tokens ≠ [] := by
  cases h <;> simp_all

theorem Property.WrittenBy.ne_nil {p : Property} {tokens : List Token} (h : p.WrittenBy tokens) :
    tokens ≠ [] := by
  cases h <;> simp_all

end ScriptToGo

namespace ScriptToGo.Grammar
open Cursor

theorem arraySuffixes_takes {first c : Cursor} {type : TypeExpr} {ts : List Token}
    (before : first.Passes ts c) (written : type.WrittenBy ts) :
    (arraySuffixes first.start type c).Takes first TypeExpr.WrittenBy := by
  rw [arraySuffixes]
  split
  · exact ⟨ts, before, written⟩
  next opened =>
    split
    · exact ⟨ts, before, written⟩
    next c₂ _ closed =>
      have passed := before.trans ((passes_of_mark? opened).trans (passes_of_mark? closed))
      apply Reading.Ensures.pastOptional
      apply Reading.Ensures.weaken
      rw [passed.spanFrom_eq (by simp)]
      exact arraySuffixes_takes passed (.array rfl written)
termination_by c.size

mutual

theorem typeExpr_takes (c : Cursor) : (typeExpr c).Takes c TypeExpr.WrittenBy := by
  rw [typeExpr]
  apply (primaryType_takes c).andMaybe
  rintro type c₁ _ ⟨ts, passed, written⟩
  exact arraySuffixes_takes passed written
termination_by 8 * c.size + 1

theorem primaryType_takes (c : Cursor) : (primaryType c).Takes c TypeExpr.WrittenBy := by
  rw [primaryType]
  split
  · trivial
  next name span c₁ _ _ found =>
    have named : c.Passes [.mk (.ident name) span] c₁ := passes_of_next? found
    split
    · refine ⟨_, named, ?_⟩
      rw [named.spanFrom_eq (by simp)]
      exact .named
    next less =>
      apply Reading.Ensures.past
      apply Reading.Ensures.past
      apply (typeArguments_takes _).mapAt
      rintro args c₃ ⟨_, passed, ts, greater, rfl, written⟩
      have passed := named.trans ((passes_of_operator? less).trans passed)
      refine ⟨_, passed, ?_⟩
      rw [passed.spanFrom_eq (by simp)]
      exact .generic rfl written
  next found =>
    have passed := passes_of_next? found
    exact ⟨_, passed, passed.spanFrom_eq (by simp) ▸ .string⟩
  next found =>
    have passed := passes_of_next? found
    exact ⟨_, passed, passed.spanFrom_eq (by simp) ▸ .number⟩
  next minus =>
    split
    next found =>
      have passed := (passes_of_next? minus).trans (passes_of_next? found)
      refine ⟨_, passed, ?_⟩
      rw [passed.spanFrom_eq (by simp)]
      exact .negative rfl
    · trivial
  next found =>
    have passed := passes_of_next? found
    exact ⟨_, passed, passed.spanFrom_eq (by simp) ▸ .trueWord rfl⟩
  next found =>
    have passed := passes_of_next? found
    exact ⟨_, passed, passed.spanFrom_eq (by simp) ▸ .falseWord rfl⟩
  next found =>
    have passed := passes_of_next? found
    exact ⟨_, passed, passed.spanFrom_eq (by simp) ▸ .null rfl⟩
  next opened =>
    apply Reading.Ensures.past
    apply (members_takes _).mapAt
    rintro list c₂ ⟨_, passed, ts, closing, rfl, written⟩
    have passed := (passes_of_next? opened).trans passed
    refine ⟨_, passed, ?_⟩
    rw [passed.spanFrom_eq (by simp)]
    exact .object rfl written
  next opened =>
    apply Reading.Ensures.past
    apply (typeExpr_takes _).andThen
    rintro inner c₂ _ ⟨ts, passed, written⟩
    apply expectMark_ensures.mapAt
    intro closing c₃ closed
    have passed := (passes_of_next? opened).trans (passed.trans closed)
    refine ⟨_, passed, ?_⟩
    rw [passed.spanFrom_eq (by simp)]
    exact .paren rfl written
  · trivial
termination_by 8 * c.size

theorem typeArguments_takes (c : Cursor) :
    (typeArguments c).Takes c fun args taken => ∃ ts greater,
      taken = ts ++ [.mk (.operator .greater) greater] ∧ TypeExpr.ArgsWrittenBy args ts := by
  rw [typeArguments]
  apply (typeExpr_takes c).andThen
  rintro first c₁ _ ⟨ts, passed, written⟩
  split
  next span _ _ comma =>
    apply Reading.Ensures.past
    apply (typeArguments_takes _).map
    rintro rest c₃ ⟨_, later, us, greater, rfl, others⟩
    exact ⟨_, passed.trans ((passes_of_mark? comma).trans later),
      ts ++ .mk (.punctuation .comma) span :: us, greater, by simp, .cons written others⟩
  · apply expectOperator_ensures.map
    intro greater c₂ closed
    exact ⟨_, passed.trans closed, ts, greater, rfl, .last written⟩
termination_by 8 * c.size + 2

theorem members_takes (c : Cursor) :
    (members c).Takes c fun list taken => ∃ ts closing,
      taken = ts ++ [.mk (.punctuation .rightBrace) closing] ∧ Member.ListWrittenBy list ts := by
  rw [members]
  split
  · apply expectMark_ensures.map
    intro closing c₁ closed
    exact ⟨_, closed, [], closing, rfl, .nil⟩
  · apply expectName_ensures.andThen
    intro name c₁ _ named
    have := c₁.skipMark_size .question
    apply Reading.Ensures.weaken
    apply expectMark_ensures.andThen
    intro colon c₃ _ coloned
    apply (typeExpr_takes c₃).andThen
    rintro type c₄ _ ⟨ts, typed, written⟩
    obtain ⟨taken, passed, some, member⟩ : ∃ taken, c.Passes taken c₄ ∧ taken ≠ [] ∧
        Member.WrittenBy (.mk (spanOf taken) name.text (c₁.atMark .question) type) taken := by
      rcases passes_skipMark c₁ .question with ⟨_, isOptional, marked⟩ | ⟨isRequired, unmarked⟩
      · rw [isOptional]
        exact ⟨_, named.trans (marked.trans (coloned.trans typed)), by simp, .optional rfl written⟩
      · rw [isRequired]
        exact ⟨_, named.trans (unmarked.trans (coloned.trans typed)), by simp, .required rfl written⟩
    rw [← passed.spanFrom_eq some, named.start_eq] at member
    dsimp only
    split
    next c₅ _ separator =>
      obtain ⟨mark, span, separates, marked⟩ : ∃ mark span,
          (mark = .semicolon ∨ mark = .comma) ∧ c₄.Passes [.mk (.punctuation mark) span] c₅ := by
        rcases Option.or_eq_some_iff.1 separator with found | ⟨-, found⟩
        · exact ⟨_, _, .inl rfl, passes_of_mark? found⟩
        · exact ⟨_, _, .inr rfl, passes_of_mark? found⟩
      apply Reading.Ensures.past
      apply (members_takes c₅).map
      rintro rest c₆ ⟨_, later, us, closing, rfl, others⟩
      exact ⟨_, passed.trans (marked.trans later), taken ++ .mk (.punctuation mark) span :: us,
        closing, by simp, .cons separates member others⟩
    · apply expectMark_ensures.map
      intro closing c₅ closed
      exact ⟨_, passed.trans closed, taken, closing, rfl, .last member⟩
termination_by 8 * c.size + 2

end

end ScriptToGo.Grammar
