import ScriptToGo.Proofs.Emission.Pieces
import ScriptToGo.Proofs.Grammar.ReadBack

/-! The tokens that write a simple expression are those among its pieces, but for commas behind the
last argument of a call. -/
namespace ScriptToGo

namespace TokenKind

/-- Kinds of tokens without the commas right before a closing parenthesis. -/
def withoutLastCommas : List TokenKind → List TokenKind
  | [] => []
  | punctuation .comma :: punctuation .rightParen :: rest =>
    punctuation .rightParen :: withoutLastCommas rest
  | kind :: rest => kind :: withoutLastCommas rest

variable {kind : TokenKind} {front rest : List TokenKind}

theorem withoutLastCommas_cons (noComma : kind ≠ punctuation .comma) :
    withoutLastCommas (kind :: rest) = kind :: withoutLastCommas rest := by
  rw [withoutLastCommas]
  exact fun _ is => absurd is noComma

theorem withoutLastCommas_comma (goesOn : rest.head? ≠ some (punctuation .rightParen)) :
    withoutLastCommas (punctuation .comma :: rest) =
      punctuation .comma :: withoutLastCommas rest := by
  rw [withoutLastCommas]
  rintro more - rfl
  exact goesOn rfl

/-- A token that is neither a comma nor a closing parenthesis divides the others. -/
theorem withoutLastCommas_append (noComma : kind ≠ punctuation .comma)
    (noParen : kind ≠ punctuation .rightParen) : withoutLastCommas (front ++ kind :: rest) =
      withoutLastCommas front ++ kind :: withoutLastCommas rest := by
  fun_induction withoutLastCommas front with
  | case1 => exact withoutLastCommas_cons noComma
  | case2 front ih =>
    rw [List.cons_append, List.cons_append, withoutLastCommas, ih, List.cons_append]
  | case3 first front other ih =>
    rw [List.cons_append, List.cons_append, ← ih, withoutLastCommas]
    rintro more rfl is
    cases front with
    | nil => exact noParen (List.cons.inj is).1
    | cons second front =>
      obtain ⟨rfl, -⟩ := List.cons.inj is
      exact other front rfl rfl

theorem subset_of_withoutLastCommas (kinds : List TokenKind) : withoutLastCommas kinds ⊆ kinds := by
  fun_induction withoutLastCommas kinds with
  | case1 => exact List.Subset.refl _
  | case2 rest ih => exact List.subset_cons_of_subset _ (List.cons_subset_cons _ ih)
  | case3 kind rest _ ih => exact List.cons_subset_cons kind ih

end TokenKind

open TokenKind (withoutLastCommas withoutLastCommas_cons withoutLastCommas_comma)

mutual

/-- The pieces of a simple expression are the same wherever it stands. -/
theorem Expr.pieces_bare (e : Expr) : e.bare.pieces = e.pieces := by
  match e with
  | .binary _ left _ _ right => rw [bare, pieces, pieces, left.pieces_bare, right.pieces_bare]
  | .call _ callee args => rw [bare, pieces, pieces, callee.pieces_bare, Expr.listPieces_bare args]
  | .index _ target place => rw [bare, pieces, pieces, target.pieces_bare, place.pieces_bare]
  | .paren _ inner => rw [bare, pieces, pieces, inner.pieces_bare]
  | .leading _ _ _ operand | .trailing _ operand _ _ =>
    rw [bare, pieces, pieces, operand.pieces_bare]
  | .ident .. | .number .. | .boolean _ true | .boolean _ false | .array .. | .cast ..
  | .conditional .. | .object .. | .member .. | .string .. | .template .. | .null .. => rfl

theorem Expr.listPieces_bare (list : List Expr) : listPieces (allBare list) = listPieces list := by
  match list with
  | [] => rfl
  | [e] => exact e.pieces_bare
  | e :: next :: rest =>
    have others := Expr.listPieces_bare (next :: rest)
    rw [allBare] at others
    rw [allBare, allBare, listPieces, listPieces, e.pieces_bare, others]

end

mutual

theorem Expr.simple_bare (e : Expr) : e.bare.Simple ↔ e.Simple := by
  match e with
  | .binary _ left _ _ right =>
    exact and_congr_right' (and_congr left.simple_bare right.simple_bare)
  | .call _ callee args => exact and_congr callee.simple_bare (Expr.allSimple_bare args)
  | .index _ target place => exact and_congr target.simple_bare place.simple_bare
  | .paren _ inner => exact inner.simple_bare
  | .leading _ _ _ operand | .trailing _ operand _ _ => exact and_congr_right' operand.simple_bare
  | .ident .. | .number .. | .boolean .. | .array .. | .cast .. | .conditional .. | .object ..
  | .member .. | .string .. | .template .. | .null .. => exact Iff.rfl

theorem Expr.allSimple_bare (list : List Expr) : AllSimple (allBare list) ↔ AllSimple list := by
  match list with
  | [] => exact Iff.rfl
  | e :: rest => exact and_congr e.simple_bare (Expr.allSimple_bare rest)

end

mutual

/-- Simple expressions give no type to a value. -/
theorem Expr.Simple.castFree {e : Expr} (simple : e.Simple) : e.CastFree := by
  match e with
  | .binary .. => exact ⟨Expr.Simple.castFree simple.2.1, Expr.Simple.castFree simple.2.2⟩
  | .call .. => exact ⟨Expr.Simple.castFree simple.1, Expr.AllSimple.allCastFree simple.2⟩
  | .index .. => exact ⟨Expr.Simple.castFree simple.1, Expr.Simple.castFree simple.2⟩
  | .paren _ inner => exact Expr.Simple.castFree (e := inner) simple
  | .leading _ _ _ operand | .trailing _ operand _ _ =>
    exact Expr.Simple.castFree (e := operand) simple.2
  | .ident .. | .number .. | .boolean .. => trivial
  | .array .. | .cast .. | .conditional .. | .object .. | .member .. | .string .. | .template ..
  | .null .. => exact simple.elim

theorem Expr.AllSimple.allCastFree {list : List Expr} (simple : Expr.AllSimple list) :
    Expr.AllCastFree list := by
  match list with
  | [] => trivial
  | e :: rest => exact ⟨Expr.Simple.castFree simple.1, Expr.AllSimple.allCastFree simple.2⟩

end

theorem exists_before {ts : List Token} {kind : TokenKind} {back : List TokenKind}
    (same : ts.map Token.kind = kind :: back) :
    ∃ s vs, ts = .mk kind s :: vs ∧ vs.map Token.kind = back := by
  obtain ⟨⟨found, s⟩, vs, rfl, is, others⟩ := List.map_eq_cons_iff.1 same
  obtain rfl : found = kind := is
  exact ⟨s, vs, rfl, others⟩

/-- Tokens in which one of this kind stands. -/
theorem exists_around {ts : List Token} {front back : List TokenKind} {kind : TokenKind}
    (same : ts.map Token.kind = front ++ kind :: back) : ∃ us s vs, ts = us ++ .mk kind s :: vs ∧
      us.map Token.kind = front ∧ vs.map Token.kind = back := by
  obtain ⟨us, _, rfl, first, others⟩ := List.map_eq_append_iff.1 same
  obtain ⟨s, vs, rfl, second⟩ := exists_before others
  exact ⟨us, s, vs, rfl, first, second⟩

mutual

/-- Tokens of the kinds among its pieces write a simple expression. -/
theorem Expr.writtenAs_of_kinds (e : Expr) (simple : e.Simple) {ts : List Token}
    (same : ts.map Token.kind = CodePiece.kinds e.pieces) : e.WrittenAs ts := by
  match e with
  | .binary _ left op _ right =>
    rw [pieces, CodePiece.kinds_append] at same
    obtain ⟨us, s, vs, rfl, first, second⟩ := exists_around same
    obtain ⟨placedLeft, sameLeft, writtenLeft⟩ := left.writtenAs_of_kinds simple.2.1 first
    obtain ⟨placedRight, sameRight, writtenRight⟩ := right.writtenAs_of_kinds simple.2.2 second
    refine ⟨_, ?_, .binary writtenLeft writtenRight⟩
    rw [bare, bare, sameLeft, sameRight]
  | .call _ callee args =>
    rw [pieces, CodePiece.kinds_append] at same
    obtain ⟨us, s, _, rfl, first, inside⟩ := exists_around same
    obtain ⟨vs, t, _, rfl, second, none⟩ :=
      exists_around (inside.trans (CodePiece.kinds_append _ _))
    obtain rfl := List.map_eq_nil_iff.1 none
    obtain ⟨placed, samePlaced, written⟩ := callee.writtenAs_of_kinds simple.1 first
    obtain ⟨list, sameList, listed⟩ := Expr.exists_listWrittenBy_of_kinds args simple.2 second
    refine ⟨_, ?_, .call written listed⟩
    rw [bare, bare, samePlaced, sameList]
  | .index _ target place =>
    rw [pieces, CodePiece.kinds_append] at same
    obtain ⟨us, s, _, rfl, first, inside⟩ := exists_around same
    obtain ⟨vs, t, _, rfl, second, none⟩ :=
      exists_around (inside.trans (CodePiece.kinds_append _ _))
    obtain rfl := List.map_eq_nil_iff.1 none
    obtain ⟨placedTarget, sameTarget, writtenTarget⟩ := target.writtenAs_of_kinds simple.1 first
    obtain ⟨placedPlace, samePlace, writtenPlace⟩ := place.writtenAs_of_kinds simple.2 second
    refine ⟨_, ?_, .index writtenTarget writtenPlace⟩
    rw [bare, bare, sameTarget, samePlace]
  | .ident _ name =>
    obtain ⟨s, _, rfl, none⟩ := exists_before same
    obtain rfl := List.map_eq_nil_iff.1 none
    refine ⟨_, ?_, .ident⟩
    rfl
  | .number _ text =>
    obtain ⟨s, _, rfl, none⟩ := exists_before same
    obtain rfl := List.map_eq_nil_iff.1 none
    refine ⟨_, ?_, .number⟩
    rfl
  | .boolean _ true =>
    obtain ⟨s, _, rfl, none⟩ := exists_before same
    obtain rfl := List.map_eq_nil_iff.1 none
    refine ⟨_, ?_, .trueWord rfl⟩
    rfl
  | .boolean _ false =>
    obtain ⟨s, _, rfl, none⟩ := exists_before same
    obtain rfl := List.map_eq_nil_iff.1 none
    refine ⟨_, ?_, .falseWord rfl⟩
    rfl
  | .paren _ inner =>
    obtain ⟨s, _, rfl, inside⟩ := exists_before same
    obtain ⟨us, t, _, rfl, first, none⟩ := exists_around (inside.trans (CodePiece.kinds_append _ _))
    obtain rfl := List.map_eq_nil_iff.1 none
    obtain ⟨placed, samePlaced, written⟩ := inner.writtenAs_of_kinds simple first
    refine ⟨_, ?_, .paren rfl written⟩
    rw [bare, bare, samePlaced]
  | .leading _ op _ operand =>
    obtain ⟨s, us, rfl, others⟩ := exists_before same
    obtain ⟨placed, samePlaced, written⟩ := operand.writtenAs_of_kinds simple.2 others
    refine ⟨_, ?_, .leading written⟩
    rw [bare, bare, samePlaced]
  | .trailing _ operand op _ =>
    rw [pieces, CodePiece.kinds_append] at same
    obtain ⟨us, s, _, rfl, first, none⟩ := exists_around same
    obtain rfl := List.map_eq_nil_iff.1 none
    obtain ⟨placed, samePlaced, written⟩ := operand.writtenAs_of_kinds simple.2 first
    refine ⟨_, ?_, .trailing written⟩
    rw [bare, bare, samePlaced]
  | .array .. | .cast .. | .conditional .. | .object .. | .member .. | .string .. | .template ..
  | .null .. => exact simple.elim

theorem Expr.exists_listWrittenBy_of_kinds (list : List Expr) (simple : AllSimple list)
    {ts : List Token} (same : ts.map Token.kind = CodePiece.kinds (listPieces list)) :
    ∃ placed, allBare placed = allBare list ∧ ListWrittenBy placed ts := by
  match list with
  | [] =>
    obtain rfl := List.map_eq_nil_iff.1 same
    exact ⟨[], rfl, .nil⟩
  | [e] =>
    obtain ⟨placed, samePlaced, written⟩ := e.writtenAs_of_kinds simple.1 same
    refine ⟨[placed], ?_, .last written⟩
    rw [allBare, allBare, samePlaced]
    rfl
  | e :: next :: rest =>
    rw [listPieces, CodePiece.kinds_append] at same
    obtain ⟨us, s, vs, rfl, first, others⟩ := exists_around same
    obtain ⟨placed, samePlaced, written⟩ := e.writtenAs_of_kinds simple.1 first
    obtain ⟨list, sameList, listed⟩ :=
      Expr.exists_listWrittenBy_of_kinds (next :: rest) simple.2 others
    refine ⟨placed :: list, ?_, .cons written listed⟩
    rw [allBare, samePlaced, sameList]
    rfl

end

/-- The tokens are those among the pieces, but for last commas, whatever comes after them. -/
def Condenses (ts : List Token) (pieces : List CodePiece) : Prop :=
  ∀ more, withoutLastCommas (ts.map Token.kind ++ more) =
    CodePiece.kinds pieces ++ withoutLastCommas more

namespace Condenses

variable {ts us : List Token} {front back : List CodePiece}

theorem nil : Condenses [] [] := fun _ => rfl

theorem append (h : Condenses ts front) (next : Condenses us back) :
    Condenses (ts ++ us) (front ++ back) := by
  intro more
  rw [List.map_append, List.append_assoc, h, next, CodePiece.kinds_append, List.append_assoc]

theorem cons {kind : TokenKind} {s : Span} (h : Condenses ts front)
    (noComma : kind ≠ .punctuation .comma) :
    Condenses (.mk kind s :: ts) (.token kind :: front) := by
  intro more
  have rest := h more
  rw [List.map_cons, List.cons_append, Token.kind, withoutLastCommas_cons noComma, rest]
  rfl

theorem concat {kind : TokenKind} {s : Span} (h : Condenses ts front)
    (noComma : kind ≠ .punctuation .comma) :
    Condenses (ts ++ [.mk kind s]) (front ++ [.token kind]) :=
  h.append (Condenses.nil.cons noComma)

/-- A comma in front of something else than a closing parenthesis stays. -/
theorem comma {s : Span} (h : Condenses ts front)
    (goesOn : ∀ more, (ts.map Token.kind ++ more).head? ≠ some (.punctuation .rightParen)) :
    Condenses (.mk (.punctuation .comma) s :: ts)
      (.token (.punctuation .comma) :: .blank :: front) := by
  intro more
  have rest := h more
  rw [List.map_cons, List.cons_append, Token.kind, withoutLastCommas_comma (goesOn more), rest]
  rfl

theorem lastComma {s t : Span} :
    Condenses [.mk (.punctuation .comma) s, .mk (.punctuation .rightParen) t]
      [.token (.punctuation .rightParen)] := by
  intro more
  rw [List.map_cons, List.map_cons, List.cons_append, List.cons_append, Token.kind, Token.kind,
    withoutLastCommas]
  rfl

end Condenses

/-- The tokens of a list of expressions start with no closing parenthesis. -/
theorem Expr.ListWrittenBy.head?_ne {e : Expr} {rest : List Expr} {ts : List Token}
    (h : ListWrittenBy (e :: rest) ts) (more : List TokenKind) :
    (ts.map Token.kind ++ more).head? ≠ some (.punctuation .rightParen) := by
  have first {us : List Token} (vs : List Token) (written : e.WrittenBy us) :
      ((us ++ vs).map Token.kind ++ more).head? ≠ some (.punctuation .rightParen) := by
    obtain ⟨⟨kind, s⟩, others, rfl, opens⟩ := written.opens
    intro is
    obtain rfl : kind = .punctuation .rightParen := Option.some.inj is
    cases opens
  cases h with
  | last written =>
    have here := first [] written
    rwa [List.append_nil] at here
  | cons written others => exact first _ written

mutual

/-- The tokens that write a simple expression are those among its pieces, but for last commas. -/
theorem Expr.condenses (e : Expr) (simple : e.Simple) {ts : List Token} (written : e.WrittenBy ts) :
    Condenses ts e.pieces := by
  match e with
  | .binary _ left op _ right =>
    obtain ⟨us, vs, rfl, first, second, -⟩ := written.operands
    exact (left.condenses simple.2.1 first).append
      ((right.condenses simple.2.2 second).cons TokenKind.noConfusion)
  | .call _ callee args =>
    cases written with
    | call first listed =>
      exact (callee.condenses simple.1 first).append
        ((Expr.list_condenses args simple.2 listed).cons (by simp))
  | .index _ target place =>
    cases written with
    | index first second =>
      exact (target.condenses simple.1 first).append
        (((place.condenses simple.2 second).concat (by simp)).cons (by simp))
  | .ident .. | .number .. =>
    cases written
    exact Condenses.nil.cons TokenKind.noConfusion
  | .boolean _ true =>
    cases written with
    | trueWord whole => exact whole ▸ Condenses.nil.cons TokenKind.noConfusion
  | .boolean _ false =>
    cases written with
    | falseWord whole => exact whole ▸ Condenses.nil.cons TokenKind.noConfusion
  | .paren _ inner =>
    cases written with
    | paren whole inside =>
      rw [whole]
      exact ((inner.condenses simple inside).concat (by simp)).cons (by simp)
  | .leading _ op _ operand =>
    cases written with
    | leading others => exact (operand.condenses simple.2 others).cons TokenKind.noConfusion
  | .trailing _ operand op _ =>
    cases written with
    | trailing first =>
      exact (operand.condenses simple.2 first).concat TokenKind.noConfusion
  | .array .. | .cast .. | .conditional .. | .object .. | .member .. | .string .. | .template ..
  | .null .. => exact simple.elim

theorem Expr.list_condenses (list : List Expr) (simple : AllSimple list) {ts : List Token}
    (written : ListWrittenBy list ts) {s : Span} :
    Condenses (ts ++ [.mk (.punctuation .rightParen) s])
      (listPieces list ++ [.token (.punctuation .rightParen)]) := by
  match list with
  | [] =>
    cases written
    exact Condenses.nil.concat (by simp)
  | [e] =>
    cases written with
    | last first => exact (e.condenses simple.1 first).concat (by simp)
    | cons first others =>
      cases others
      rw [List.append_assoc]
      exact (e.condenses simple.1 first).append .lastComma
  | e :: next :: rest =>
    cases written with
    | cons first others =>
      rw [listPieces, List.append_assoc, List.append_assoc]
      refine (e.condenses simple.1 first).append ?_
      have later := Expr.list_condenses (next :: rest) simple.2 others (s := s)
      refine later.comma fun more => ?_
      rw [List.map_append, List.append_assoc]
      exact others.head?_ne _

end

/-- The tokens that write a simple expression, wherever they stand. -/
theorem Expr.WrittenAs.condenses {e : Expr} {ts : List Token} (h : e.WrittenAs ts)
    (simple : e.Simple) : Condenses ts e.pieces := by
  obtain ⟨placed, same, written⟩ := h
  rw [← e.pieces_bare, ← same, placed.pieces_bare]
  refine placed.condenses ?_ written
  rwa [← placed.simple_bare, same, e.simple_bare]

/-- There are no last commas among the pieces of a simple expression. -/
theorem Expr.withoutLastCommas_kinds {e : Expr} (simple : e.Simple) :
    withoutLastCommas (CodePiece.kinds e.pieces) = CodePiece.kinds e.pieces := by
  have kinds : ((CodePiece.kinds e.pieces).map (Token.mk · .zero)).map Token.kind =
      CodePiece.kinds e.pieces := by
    rw [List.map_map]
    exact List.map_id _
  have condensed := (e.writtenAs_of_kinds simple kinds).condenses simple []
  rwa [kinds, withoutLastCommas, List.append_nil] at condensed

end ScriptToGo
