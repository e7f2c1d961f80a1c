import ScriptToGo.Grammar.TypeExpr
import ScriptToGo.Proofs.Grammar.Places
import ScriptToGo.Grammar.Expr

/-! Reading a written type or an expression stays among the tokens, also inside of templates. -/
namespace ScriptToGo.Grammar
open Cursor

variable {tokens : List Token}

@[simp] theorem span_withSpan (type : TypeExpr) (s : Span) : (type.withSpan s).span = s := by
  cases type <;> rfl

theorem arraySuffixes_accounts {start : Nat} {type : TypeExpr} {c : Cursor} (h : c.In tokens)
    (starts : StartsAt tokens start) (good : StartsAt tokens type.span.start) :
    (arraySuffixes start type c).Accounts tokens fun t => StartsAt tokens t.span.start := by
  rw [arraySuffixes]
  split
  · exact ⟨good, h⟩
  next c₁ _ opened =>
    have inside : c₁.In tokens := (h.take opened).1
    split
    · exact ⟨good, h⟩
    next c₂ _ closed =>
      have array : StartsAt tokens (TypeExpr.array (c₂.spanFrom start) type).span.start := starts
      exact (arraySuffixes_accounts (inside.take closed).1 starts array).weaken.pastOptional
termination_by c.size

mutual

theorem typeExpr_accounts {c : Cursor} (h : c.In tokens) :
    (typeExpr c).Accounts tokens fun t => StartsAt tokens t.span.start := by
  rw [typeExpr]
  apply (primaryType_accounts h).andMaybe
  intro type c₁ _ good inside
  exact arraySuffixes_accounts inside h.start good
termination_by 8 * c.size + 1

theorem primaryType_accounts {c : Cursor} (h : c.In tokens) :
    (primaryType c).Accounts tokens fun t => StartsAt tokens t.span.start := by
  have starts := h.start
  rw [primaryType]
  split
  · exact unexpected_accounts h
  next found =>
    have inside := (h.next found).1
    split
    · exact ⟨starts, inside⟩
    next less =>
      refine ((typeArguments_accounts (inside.take less).1).mapAt ?_).past.past
      intro args c₃ _ _
      exact starts
  next found => exact ⟨starts, (h.next found).1⟩
  next found => exact ⟨starts, (h.next found).1⟩
  next found =>
    have inside := (h.next found).1
    split
    next second => exact ⟨starts, (inside.next second).1⟩
    · exact (unexpected_accounts inside).past
  next found => exact ⟨starts, (h.next found).1⟩
  next found => exact ⟨starts, (h.next found).1⟩
  next found => exact ⟨starts, (h.next found).1⟩
  next found =>
    apply Reading.Accounts.past
    apply (members_accounts (h.next found).1).mapAt
    intro list c₂ _ _
    exact starts
  next found =>
    apply Reading.Accounts.past
    apply (typeExpr_accounts (h.next found).1).andThen
    intro type c₂ _ _ inside
    apply (expectMark_accounts inside).mapAt
    intro _ c₃ _ _
    rw [span_withSpan]
    exact starts
  · exact unexpected_accounts h
termination_by 8 * c.size

theorem typeArguments_accounts {c : Cursor} (h : c.In tokens) :
    (typeArguments c).Accounts tokens fun _ => True := by
  rw [typeArguments]
  apply (typeExpr_accounts h).andThen
  intro first c₁ _ _ inside
  split
  next comma =>
    have others := typeArguments_accounts (inside.take comma).1
    exact (others.map fun _ _ => trivial).past
  · exact (expectOperator_accounts inside).map fun _ _ => trivial
termination_by 8 * c.size + 2

theorem members_accounts {c : Cursor} (h : c.In tokens) :
    (members c).Accounts tokens fun list => StartIn tokens (list.flatMap Member.spans) := by
  rw [members]
  split
  · exact (expectMark_accounts h).map fun _ _ => StartIn.nil
  · refine (expectName_accounts h).andThen fun name c₁ _ named inside => ?_
    have := c₁.skipMark_size .question
    apply Reading.Accounts.weaken
    apply (expectMark_accounts inside.skipMark).andThen
    intro _ c₃ _ _ inside
    apply (typeExpr_accounts inside).andThen
    intro type c₄ _ typed inside
    have both : StartIn tokens [c₄.spanFrom name.span.start, type.span] :=
      startIn_cons.2 ⟨named, startIn_cons.2 ⟨typed, .nil⟩⟩
    dsimp only
    split
    next c₅ _ separator =>
      have after : c₅.In tokens := by
        rcases Option.or_eq_some_iff.1 separator with found | ⟨-, found⟩
        · exact (inside.take found).1
        · exact (inside.take found).1
      apply Reading.Accounts.past
      apply (members_accounts after).map
      intro others good
      exact startIn_append.2 ⟨both, good⟩
    · exact (expectMark_accounts inside).map fun _ _ => startIn_append.2 ⟨both, .nil⟩
termination_by 8 * c.size + 2

end

theorem StartIn.first {e : Expr} (h : StartIn tokens e.spans) : StartsAt tokens e.span.start :=
  h _ e.span_mem

theorem startIn_binary {left right : Expr} {op : BinaryOp} {opSpan : Span}
    (first : StartIn tokens left.spans) (starts : StartsAt tokens opSpan.start)
    (second : StartIn tokens right.spans) :
    StartIn tokens (Expr.binary (left.span.cover right.span) left op opSpan right).spans := by
  rw [Expr.spans, startIn_cons, startIn_cons, startIn_append]
  exact ⟨(StartIn.first first).cover (StartIn.first second), starts, first, second⟩

theorem startIn_conditional {condition whenTrue whenFalse : Expr}
    (first : StartIn tokens condition.spans) (second : StartIn tokens whenTrue.spans)
    (third : StartIn tokens whenFalse.spans) :
    StartIn tokens (Expr.conditional (condition.span.cover whenFalse.span) condition whenTrue
      whenFalse).spans := by
  rw [Expr.spans, startIn_cons, startIn_append, startIn_append]
  exact ⟨(StartIn.first first).cover (StartIn.first third), first, second, third⟩

theorem startIn_leading {operand : Expr} {op : UnaryOp} {opSpan : Span}
    (starts : StartsAt tokens opSpan.start) (good : StartIn tokens operand.spans) :
    StartIn tokens (Expr.leading (opSpan.cover operand.span) op opSpan operand).spans := by
  rw [Expr.spans, startIn_cons, startIn_cons]
  exact ⟨starts.cover (StartIn.first good), starts, good⟩

theorem startIn_property {p : Property} {rest : List Property} :
    StartIn tokens (Property.allSpans (p :: rest)) ↔
      StartIn tokens (Property.allSpans [p]) ∧ StartIn tokens (Property.allSpans rest) := by
  cases p <;> simp [Property.allSpans, startIn_cons, startIn_append, StartIn.nil, and_assoc]

theorem trailingOperators_accounts {operand : Expr} {c : Cursor} (h : c.In tokens)
    (good : StartIn tokens operand.spans) :
    (trailingOperators operand c).Accounts tokens fun e => StartIn tokens e.spans := by
  rw [trailingOperators]
  split
  · exact ⟨good, h⟩
  next op opSpan c₁ shorter taken =>
    obtain ⟨inside, starts⟩ := h.take taken
    have longer : StartIn tokens
        (Expr.trailing (operand.span.cover opSpan) operand op opSpan).spans := by
      rw [Expr.spans, startIn_cons, startIn_cons]
      exact ⟨(StartIn.first good).cover starts, starts, good⟩
    exact (trailingOperators_accounts inside longer).weaken.loosen
termination_by c.size

mutual

theorem expression_accounts {tokens : List Token} {c : Cursor} (h : c.In tokens) :
    (expression c).Accounts tokens fun e => StartIn tokens e.spans := by
  rw [expression]
  apply (conditional_accounts h).andMaybe
  intro target c₁ _ good inside
  split
  · exact ⟨good, inside⟩
  next op opSpan c₂ shorter taken =>
    obtain ⟨second, starts⟩ := inside.take taken
    apply Reading.Accounts.pastOptional
    apply (expression_accounts second).map
    intro value valued
    exact startIn_binary good starts valued
termination_by 16 * c.size + 6

theorem conditional_accounts {tokens : List Token} {c : Cursor} (h : c.In tokens) :
    (conditional c).Accounts tokens fun e => StartIn tokens e.spans := by
  rw [conditional]
  apply (binary_accounts h).andMaybe
  intro condition c₁ _ good inside
  split
  · exact ⟨good, inside⟩
  next c₂ shorter taken =>
    have inside : c₂.In tokens := (inside.take taken).1
    apply Reading.Accounts.pastOptional
    apply (expression_accounts inside).andThen
    intro whenTrue c₃ _ first inside
    apply (expectMark_accounts inside).andThen
    intro _ c₄ _ _ inside
    apply (expression_accounts inside).map
    intro whenFalse second
    exact startIn_conditional good first second
termination_by 16 * c.size + 5

theorem binary_accounts {tokens : List Token} {least : Nat} {c : Cursor} (h : c.In tokens) :
    (binary least c).Accounts tokens fun e => StartIn tokens e.spans := by
  rw [binary]
  apply (unary_accounts h).andMaybe
  intro left c₁ _ good inside
  exact operators_accounts inside good
termination_by 16 * c.size + 4

theorem operators_accounts {tokens : List Token} {least : Nat} {left : Expr} {c : Cursor} (h : c.In tokens)
    (good : StartIn tokens left.spans) :
    (operators least left c).Accounts tokens fun e => StartIn tokens e.spans := by
  rw [operators]
  split
  next c₁ shorter cast =>
    have inside : c₁.In tokens := by
      split at cast
      · exact (h.take cast).1
      · cases cast
    apply Reading.Accounts.pastOptional
    apply (typeExpr_accounts inside).andMaybe
    intro type c₂ _ typed after
    have longer : StartIn tokens (Expr.cast (left.span.cover type.span) left type).spans := by
      rw [Expr.spans, startIn_cons, startIn_cons]
      exact ⟨(StartIn.first good).cover typed, typed, good⟩
    exact operators_accounts after longer
  · split
    · exact ⟨good, h⟩
    next op opSpan c₁ shorter taken =>
      obtain ⟨inside, starts⟩ : c₁.In tokens ∧ StartsAt tokens opSpan.start := h.take taken
      apply Reading.Accounts.pastOptional
      apply (binary_accounts inside).andMaybe
      intro right c₂ _ second after
      exact operators_accounts after (startIn_binary good starts second)
termination_by 16 * c.size + 4

theorem unary_accounts {tokens : List Token} {c : Cursor} (h : c.In tokens) :
    (unary c).Accounts tokens fun e => StartIn tokens e.spans := by
  rw [unary]
  split
  · refine (access_accounts h).andMaybe fun operand c₁ _ good inside => ?_
    exact trailingOperators_accounts inside good
  next op opSpan c₁ shorter taken =>
    obtain ⟨inside, starts⟩ := h.take taken
    apply Reading.Accounts.past
    apply (unary_accounts inside).map
    intro operand good
    exact startIn_leading starts good
termination_by 16 * c.size + 3

theorem access_accounts {tokens : List Token} {c : Cursor} (h : c.In tokens) :
    (access c).Accounts tokens fun e => StartIn tokens e.spans := by
  rw [access]
  apply (primary_accounts h).andMaybe
  intro first c₁ _ good inside
  exact accesses_accounts inside good
termination_by 16 * c.size + 1

theorem accesses_accounts {tokens : List Token} {target : Expr} {c : Cursor} (h : c.In tokens)
    (good : StartIn tokens target.spans) :
    (accesses target c).Accounts tokens fun e => StartIn tokens e.spans := by
  rw [accesses]
  split
  next c₁ shorter taken =>
    have inside : c₁.In tokens := (h.take taken).1
    apply Reading.Accounts.pastOptional
    apply (expressionList_accounts inside).andMaybe
    intro args c₂ _ listed after
    have longer : StartIn tokens (Expr.call (target.span.cover c₂.last) target args).spans := by
      rw [Expr.spans, startIn_cons, startIn_append]
      exact ⟨(StartIn.first good).cover after.lastStart, good, listed⟩
    exact accesses_accounts after longer
  split
  next c₁ shorter taken =>
    have inside : c₁.In tokens := (h.take taken).1
    apply Reading.Accounts.pastOptional
    apply (expect_accounts inside).andMaybe
    intro (text, span) c₂ _ starts after
    have longer : StartIn tokens
        (Expr.member (target.span.cover span) target ⟨text, span⟩).spans := by
      rw [Expr.spans, startIn_cons, startIn_cons]
      exact ⟨(StartIn.first good).cover starts, starts, good⟩
    exact accesses_accounts after longer
  split
  next c₁ shorter taken =>
    have inside : c₁.In tokens := (h.take taken).1
    apply Reading.Accounts.pastOptional
    apply (expression_accounts inside).andThen
    intro index c₂ _ second inside
    apply (expectMark_accounts inside).andMaybe
    intro _ c₃ _ _ after
    have longer : StartIn tokens (Expr.index (target.span.cover c₃.last) target index).spans := by
      rw [Expr.spans, startIn_cons, startIn_append]
      exact ⟨(StartIn.first good).cover after.lastStart, good, second⟩
    exact accesses_accounts after longer
  · exact ⟨good, h⟩
termination_by 16 * c.size + 1

theorem expressionList_accounts {tokens : List Token} {close : Punctuation} {wanted : String} {c : Cursor}
    (h : c.In tokens) :
    (expressionList close wanted c).Accounts tokens fun list =>
      StartIn tokens (Expr.allSpans list) := by
  rw [expressionList]
  split
  next taken => exact ⟨.nil, (h.take taken).1⟩
  · refine (expression_accounts h).andThen fun first c₁ _ good inside => ?_
    split
    next c₂ shorter comma =>
      apply Reading.Accounts.past
      apply (expressionList_accounts (inside.take comma).1).map
      intro others rest
      exact startIn_append.2 ⟨good, rest⟩
    · exact (expectMark_accounts inside).map fun _ _ => startIn_append.2 ⟨good, .nil⟩
termination_by 16 * c.size + 7

theorem primary_accounts {tokens : List Token} {c : Cursor} (h : c.In tokens) :
    (primary c).Accounts tokens fun e => StartIn tokens e.spans := by
  have starts := h.start
  have alone : ∀ stop, StartIn tokens [⟨c.start, stop⟩] := fun stop =>
    startIn_cons.2 ⟨starts, .nil⟩
  rw [primary]
  split
  · exact unexpected_accounts h
  next found => exact ⟨alone _, (h.next found).1⟩
  next found => exact ⟨alone _, (h.next found).1⟩
  next found => exact ⟨alone _, (h.next found).1⟩
  next found => exact ⟨alone _, (h.next found).1⟩
  next found => exact ⟨alone _, (h.next found).1⟩
  next found => exact ⟨alone _, (h.next found).1⟩
  next head holes span c₁ size shorter found =>
    obtain ⟨after, mem⟩ := h.next found
    have fewer : holesWeight holes < c.size := by
      simp only [TokenKind.weight] at size
      omega
    have inner : innerTokens holes ⊆ allTokens tokens :=
      List.Subset.trans (List.subset_cons_of_subset _ (List.Subset.refl _)) (allTokens_subset mem)
    split
    next list read =>
      have good := interpolations_starts inner read
      exact ⟨startIn_cons.2 ⟨starts, good⟩, after⟩
    next failed =>
      exact ⟨after, .template (h.next_suffix found).1 (interpolations_faulty failed)⟩
  next found =>
    apply Reading.Accounts.past
    apply (expression_accounts (h.next found).1).andThen
    intro value c₂ _ good inside
    apply (expectMark_accounts inside).mapAt
    intro _ c₃ _ _
    exact startIn_cons.2 ⟨starts, good⟩
  next found =>
    apply Reading.Accounts.past
    apply (expressionList_accounts (h.next found).1).mapAt
    intro elements c₂ good _
    exact startIn_cons.2 ⟨starts, good⟩
  next found =>
    apply Reading.Accounts.past
    apply (properties_accounts (h.next found).1).mapAt
    intro list c₂ good _
    exact startIn_cons.2 ⟨starts, good⟩
  · exact unexpected_accounts h
termination_by 16 * c.size

theorem property_accounts {tokens : List Token} {c : Cursor} (h : c.In tokens) :
    (property c).Accounts tokens fun p => StartIn tokens (Property.allSpans [p]) := by
  have starts := h.start
  rw [property]
  split
  next c₁ shorter taken =>
    apply Reading.Accounts.past
    apply (expression_accounts (h.take taken).1).mapAt
    intro value c₂ good _
    exact startIn_cons.2 ⟨starts, startIn_append.2 ⟨good, .nil⟩⟩
  · refine (expectName_accounts h).andMaybe fun name c₁ _ named inside => ?_
    split
    next c₂ shorter colon =>
      apply Reading.Accounts.pastOptional
      apply (expression_accounts (inside.take colon).1).mapAt
      intro value c₃ good _
      exact startIn_cons.2 ⟨starts, startIn_cons.2 ⟨named, startIn_append.2 ⟨good, .nil⟩⟩⟩
    · exact ⟨startIn_cons.2 ⟨starts, startIn_cons.2 ⟨named, .nil⟩⟩, inside⟩
termination_by 16 * c.size

theorem properties_accounts {tokens : List Token} {c : Cursor} (h : c.In tokens) :
    (properties c).Accounts tokens fun list => StartIn tokens (Property.allSpans list) := by
  rw [properties]
  split
  · exact (expectMark_accounts h).map fun _ _ => StartIn.nil
  · refine (property_accounts h).andThen fun first c₁ _ good inside => ?_
    split
    next c₂ shorter comma =>
      apply Reading.Accounts.past
      apply (properties_accounts (inside.take comma).1).map
      intro others rest
      exact startIn_property.2 ⟨good, rest⟩
    · exact (expectMark_accounts inside).map fun _ _ => good
termination_by 16 * c.size + 1

/-- The tokens of an interpolation belong to the template around it. -/
theorem interpolations_starts {tokens : List Token} {holes : List Hole} {list : List TemplateHole}
    (inner : innerTokens holes ⊆ allTokens tokens) (read : interpolations holes = .ok list) :
    StartIn tokens (TemplateHole.allSpans list) := by
  match holes with
  | [] =>
    rw [interpolations] at read
    cases read
    exact .nil
  | .mk inside span after :: rest =>
    have subset : allTokens inside ⊆ allTokens tokens :=
      List.Subset.trans (List.subset_append_left _ _) inner
    have others : innerTokens rest ⊆ allTokens tokens :=
      List.Subset.trans (List.subset_append_right _ _) inner
    rw [interpolations] at read
    split at read
    · cases read
    next start opened =>
      have size := size_ofTokens? opened
      have good : (expression start).Accounts inside fun e => StartIn inside e.spans :=
        expression_accounts (in_ofTokens? opened)
      dsimp only at read
      split at read
      · cases read
      next value c _ parsed =>
        rw [parsed] at good
        split at read
        · split at read
          next list more =>
            cases read
            exact startIn_append.2 ⟨good.1.mono subset, interpolations_starts others more⟩
          · cases read
        · cases read
termination_by 16 * holesWeight holes
decreasing_by all_goals simp only [holesWeight, Hole.weight] at *; omega

/-- What is wrong with the interpolations of a template is wrong with one of them. -/
theorem interpolations_faulty {holes : List Hole} {error : SyntaxError}
    (read : interpolations holes = .error error) : ∃ hole ∈ holes, hole.Faulty error := by
  match holes with
  | [] =>
    rw [interpolations] at read
    cases read
  | .mk inside span after :: rest =>
    rw [interpolations] at read
    split at read
    · cases read
      exact ⟨_, List.mem_cons_self, .inl rfl⟩
    next start opened =>
      have size := size_ofTokens? opened
      have good : (expression start).Accounts inside fun e => StartIn inside e.spans :=
        expression_accounts (in_ofTokens? opened)
      dsimp only at read
      split at read
      next failed =>
        cases read
        rw [failed] at good
        exact ⟨_, List.mem_cons_self, .inr ⟨_, good.2⟩⟩
      next value c _ parsed =>
        rw [parsed] at good
        split at read
        · split at read
          · cases read
          next failed =>
            cases read
            obtain ⟨hole, mem, faulty⟩ := interpolations_faulty failed
            exact ⟨hole, List.mem_cons_of_mem _ mem, faulty⟩
        · cases read
          exact ⟨_, List.mem_cons_self, .inr ⟨c, .here good.2.rest rfl⟩⟩
termination_by 16 * holesWeight holes
decreasing_by all_goals simp only [holesWeight, Hole.weight] at *; omega

end

end ScriptToGo.Grammar
