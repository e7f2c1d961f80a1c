import ScriptToGo.Proofs.Emission.Pieces

/-! Where the pieces of an expression meet. -/
namespace ScriptToGo

namespace TokenKind

/-- Whether a simple expression may start with the token. -/
def opensSimple : TokenKind → Bool
  | ident _ | number _ | keyword .trueWord | keyword .falseWord | punctuation .leftParen
  | operator .bang | operator .minus | operator .increment | operator .decrement => true
  | _ => false

/-- Whether a simple expression may end with the token. -/
def closesSimple : TokenKind → Bool
  | ident _ | number _ | keyword .trueWord | keyword .falseWord | punctuation .rightParen
  | punctuation .rightBracket | operator .increment | operator .decrement => true
  | _ => false

/-- The token is written with a minus sign first. -/
def IsSign (kind : TokenKind) : Prop := kind = operator .minus ∨ kind = operator .decrement

variable {c : Char} {kind : TokenKind}

theorem stopsBefore_mark {mark : Punctuation} (noDot : mark ≠ .dot) :
    (punctuation mark).StopsBefore c := by
  have none : continuations mark.spelling.toList = [] := by
    revert noDot
    cases mark <;> decide
  refine ⟨endsBefore_of_not_mem ?_, fun is => absurd is noDot⟩
  rw [none]
  exact List.not_mem_nil

theorem stopsBefore_update (op : UnaryOp) (updates : op.isUpdate = true) :
    (operator op.token).StopsBefore c := by
  have none : continuations op.token.spelling.toList = [] := by
    revert updates
    cases op <;> decide
  refine ⟨endsBefore_of_not_mem ?_, fun is => ?_⟩
  · rw [none]
    exact List.not_mem_nil
  · cases op <;> cases is

theorem stopsBefore_bang (other : c ≠ '=') : (operator .bang).StopsBefore c := by
  have goesOn : continuations Operator.bang.spelling.toList = ['=', '='] := by decide
  refine ⟨endsBefore_of_not_mem ?_, by simp⟩
  rw [goesOn]
  simp [other]

theorem stopsBefore_minus (noEquals : c ≠ '=') (noMinus : c ≠ '-') :
    (operator .minus).StopsBefore c := by
  have goesOn : continuations Operator.minus.spelling.toList = ['=', '-'] := by decide
  refine ⟨endsBefore_of_not_mem ?_, by simp⟩
  rw [goesOn]
  simp [noEquals, noMinus]

theorem stopsBefore_blank (op : Operator) : (operator op).StopsBefore ' ' := by
  refine ⟨endsBefore_of_not_mem ?_, fun _ => by decide⟩
  cases op <;> decide

/-- What does not go on with a word or a number does not go on with the end of an expression. -/
theorem stopsBefore_of_closesSimple (closes : kind.closesSimple = true)
    (noWord : isWordPart c = false) (noDot : c ≠ '.') : kind.StopsBefore c := by
  cases kind with
  | ident | number | keyword => exact ⟨noWord, noDot⟩
  | punctuation mark => exact stopsBefore_mark (by rintro rfl; cases closes)
  | operator op =>
    cases op with
    | increment => exact stopsBefore_update .increment rfl
    | decrement => exact stopsBefore_update .decrement rfl
    | _ => cases closes
  | string | template | eof => cases closes

/-- A simple expression starts with no equals sign, and with a minus sign just where it is an
operator. -/
theorem first_of_opensSimple (opens : kind.opensSimple = true) (readable : kind.IsReadable) :
    ∃ first tail, kind.written = first :: tail ∧ first ≠ '=' ∧ (first = '-' → kind.IsSign) := by
  cases kind with
  | ident name =>
    obtain ⟨⟨first, tail, spelled, begins, -⟩, -⟩ := readable
    refine ⟨first, tail, spelled, ?_, ?_⟩ <;> rintro rfl <;> exact absurd begins (by decide)
  | number text =>
    obtain ⟨first, tail, spelled, begins, -⟩ := readable
    have other {d : Char} (noDigit : Text.isDigit d = false) (noPoint : d ≠ '.') : first ≠ d := by
      rintro rfl
      rcases begins with digit | ⟨point, -⟩
      · exact Bool.false_ne_true (noDigit.symm.trans digit)
      · exact noPoint point
    exact ⟨first, tail, spelled, other (by decide) (by decide),
      fun is => absurd is (other (by decide) (by decide))⟩
  | keyword word =>
    obtain rfl | rfl : word = .trueWord ∨ word = .falseWord := by
      revert opens
      cases word <;> decide
    all_goals exact ⟨_, _, rfl, by decide, fun is => absurd is (by decide)⟩
  | punctuation mark =>
    obtain rfl : mark = .leftParen := by
      revert opens
      cases mark <;> decide
    exact ⟨_, _, rfl, by decide, fun is => absurd is (by decide)⟩
  | operator op =>
    cases op with
    | bang | increment => exact ⟨_, _, rfl, by decide, fun is => absurd is (by decide)⟩
    | minus => exact ⟨_, _, rfl, by decide, fun _ => .inl rfl⟩
    | decrement => exact ⟨_, _, rfl, by decide, fun _ => .inr rfl⟩
    | _ => cases opens
  | string | template | eof => cases opens

end TokenKind

/-- The code of a simple expression starts with a minus sign. -/
def Expr.StartsWithMinus : Expr → Prop
  | .leading _ op _ _ => op = .negate ∨ op = .decrement
  | .binary _ first _ _ _ | .call _ first _ | .index _ first _ | .trailing _ first _ _ =>
    first.StartsWithMinus
  | _ => False

mutual

/-- Somewhere in a simple expression what is negated starts with a minus sign. -/
def Expr.DoublesMinus : Expr → Prop
  | .leading _ op _ operand => (op = .negate ∧ operand.StartsWithMinus) ∨ operand.DoublesMinus
  | .binary _ left _ _ right => left.DoublesMinus ∨ right.DoublesMinus
  | .call _ callee args => callee.DoublesMinus ∨ Expr.AnyDoublesMinus args
  | .index _ target place => target.DoublesMinus ∨ place.DoublesMinus
  | .paren _ inner => inner.DoublesMinus
  | .trailing _ operand _ _ => operand.DoublesMinus
  | _ => False

def Expr.AnyDoublesMinus : List Expr → Prop
  | [] => False
  | e :: rest => e.DoublesMinus ∨ Expr.AnyDoublesMinus rest

end

theorem UnaryOp.isSign_token {op : UnaryOp} :
    (TokenKind.operator op.token).IsSign ↔ op = .negate ∨ op = .decrement := by
  cases op <;> simp [TokenKind.IsSign, token]

theorem Expr.exists_first (e : Expr) (simple : e.Simple) : ∃ kind rest,
    e.pieces = .token kind :: rest ∧ kind.opensSimple = true ∧
      (kind.IsSign ↔ e.StartsWithMinus) := by
  have front {first : Expr} {rest : List CodePiece} (h : ∃ kind rest,
      first.pieces = .token kind :: rest ∧ kind.opensSimple = true ∧
        (kind.IsSign ↔ first.StartsWithMinus)) : ∃ kind more,
      first.pieces ++ rest = .token kind :: more ∧ kind.opensSimple = true ∧
        (kind.IsSign ↔ first.StartsWithMinus) := by
    obtain ⟨kind, more, starts, opens, sign⟩ := h
    exact ⟨kind, more ++ rest, by rw [starts, List.cons_append], opens, sign⟩
  match e with
  | .binary _ left _ _ _ => exact front (left.exists_first simple.2.1)
  | .call _ callee _ => exact front (callee.exists_first simple.1)
  | .index _ target _ => exact front (target.exists_first simple.1)
  | .trailing _ operand _ _ => exact front (operand.exists_first simple.2)
  | .leading _ op _ operand =>
    refine ⟨_, _, rfl, ?_, UnaryOp.isSign_token⟩
    have noPlus := simple.1
    revert noPlus
    cases op <;> decide
  | .ident .. | .number .. | .boolean _ true | .boolean _ false | .paren .. =>
    refine ⟨_, _, rfl, rfl, ?_⟩
    simp [TokenKind.IsSign, StartsWithMinus]
  | .array .. | .cast .. | .conditional .. | .object .. | .member .. | .string .. | .template ..
  | .null .. => exact simple.elim

theorem Expr.exists_last (e : Expr) (simple : e.Simple) : ∃ front kind,
    e.pieces = front ++ [.token kind] ∧ kind.closesSimple = true := by
  match e with
  | .binary _ left op _ right =>
    obtain ⟨front, kind, ends, closes⟩ := right.exists_last simple.2.2
    refine ⟨left.pieces ++ .blank :: .token (.operator op.token) :: .blank :: front, kind, ?_,
      closes⟩
    rw [pieces, ends, List.append_assoc]
    rfl
  | .leading _ op _ operand =>
    obtain ⟨front, kind, ends, closes⟩ := operand.exists_last simple.2
    refine ⟨.token (.operator op.token) :: front, kind, ?_, closes⟩
    rw [pieces, ends, List.cons_append]
  | .call _ callee args =>
    refine ⟨callee.pieces ++ .token (.punctuation .leftParen) :: Expr.listPieces args,
      .punctuation .rightParen, ?_, rfl⟩
    rw [pieces, List.append_assoc, List.cons_append]
  | .index _ target place =>
    refine ⟨target.pieces ++ .token (.punctuation .leftBracket) :: place.pieces,
      .punctuation .rightBracket, ?_, rfl⟩
    rw [pieces, List.append_assoc, List.cons_append]
  | .paren _ inner => exact ⟨.token (.punctuation .leftParen) :: inner.pieces, _, rfl, rfl⟩
  | .trailing _ operand op _ =>
    refine ⟨operand.pieces, _, rfl, ?_⟩
    have updates := simple.1
    revert updates
    cases op <;> decide
  | .ident .. | .number .. | .boolean _ true | .boolean _ false => exact ⟨[], _, rfl, rfl⟩
  | .array .. | .cast .. | .conditional .. | .object .. | .member .. | .string .. | .template ..
  | .null .. => exact simple.elim

namespace CodePiece

/-- A minus sign is followed by another. -/
def Clash (p q : CodePiece) : Prop :=
  p = token (.operator .minus) ∧ ∃ kind, q = token kind ∧ kind.IsSign

/-- What is written next does not go on with a piece, but for a minus sign after another where that
may be. -/
def Meets (doubled : Prop) (p q : CodePiece) : Prop := Joins p q ∨ (Clash p q ∧ doubled)

/-- What the piece starts with goes on with no word and no number. -/
def StandsApart (q : CodePiece) : Prop := ∀ c ∈ q.chars.head?, isWordPart c = false ∧ c ≠ '.'

variable {p q : CodePiece} {doubled : Prop} {inner : List CodePiece}

theorem meets_blank : Meets doubled blank q := .inl fun _ _ => trivial

theorem meets_mark {mark : Punctuation} (noDot : mark ≠ .dot) :
    Meets doubled (token (.punctuation mark)) q := .inl fun _ _ => TokenKind.stopsBefore_mark noDot

theorem operator_meets_blank (op : Operator) : Meets doubled (token (.operator op)) blank := by
  refine .inl fun c first => ?_
  obtain rfl := Option.mem_some.1 first
  exact TokenKind.stopsBefore_blank op

theorem meets_of_standsApart {kind : TokenKind} (closes : kind.closesSimple = true)
    (apart : q.StandsApart) : Meets doubled (token kind) q :=
  .inl fun c first =>
    TokenKind.stopsBefore_of_closesSimple closes (apart c first).1 (apart c first).2

theorem blank_standsApart : blank.StandsApart := by
  intro c first
  obtain rfl := Option.mem_some.1 first
  decide

theorem update_standsApart {op : UnaryOp} (updates : op.isUpdate = true) :
    (token (.operator op.token)).StandsApart := by
  intro c first
  cases op <;> cases updates <;> cases first <;> decide

theorem mark_standsApart (mark : Punctuation) (noDot : mark ≠ .dot) (noDots : mark ≠ .ellipsis) :
    (token (.punctuation mark)).StandsApart := by
  intro c first
  cases mark <;> first | contradiction | (cases first; decide)

/-- Pieces in brackets meet as they do without. -/
theorem isChain_bracketed {opening closing : Punctuation} (noDot : opening ≠ .dot)
    (h : inner.IsChain (Meets doubled))
    (closes : ∀ p ∈ inner.getLast?, Meets doubled p (token (.punctuation closing))) :
    (token (.punctuation opening) :: (inner ++ [token (.punctuation closing)])).IsChain
      (Meets doubled) := by
  refine List.isChain_cons.2 ⟨fun q _ => meets_mark noDot, ?_⟩
  refine List.isChain_append.2 ⟨h, List.isChain_singleton _, fun p last q first => ?_⟩
  obtain rfl := Option.mem_some.1 first
  exact closes p last

end CodePiece

section
open CodePiece

/-- The last piece of a simple expression is not gone on with where no word does. -/
theorem Expr.last_meets {e : Expr} (simple : e.Simple) {q : CodePiece} (apart : q.StandsApart)
    {doubled : Prop} : ∀ p ∈ e.pieces.getLast?, Meets doubled p q := by
  obtain ⟨front, kind, ends, closes⟩ := e.exists_last simple
  intro p last
  rw [ends, List.getLast?_concat, Option.mem_some] at last
  subst last
  exact meets_of_standsApart closes apart

theorem Expr.last_list_meets {list : List Expr} (simple : AllSimple list) {q : CodePiece}
    (apart : q.StandsApart) {doubled : Prop} :
    ∀ p ∈ (listPieces list).getLast?, Meets doubled p q := by
  match list with
  | [] => exact fun p last => absurd last (by simp [listPieces])
  | [e] => exact Expr.last_meets simple.1 apart
  | e :: next :: rest =>
    intro p last
    have others : ∀ p ∈ (listPieces (next :: rest)).getLast?, Meets doubled p q :=
      Expr.last_list_meets simple.2 apart
    rw [listPieces, List.getLast?_append, List.getLast?_cons, List.getLast?_cons] at last
    cases ends : (listPieces (next :: rest)).getLast? with
    | none =>
      rw [ends] at last
      obtain rfl := Option.mem_some.1 last
      exact meets_blank
    | some piece =>
      rw [ends] at last others
      exact others p last

/-- A prefix operator and its operand do not go on with each other, but for two minus signs. -/
theorem Expr.leading_meets {op : UnaryOp} {operand : Expr} {doubled : Prop} (noPlus : op ≠ .plus)
    (simple : operand.Simple) (readable : ∀ p ∈ operand.pieces, p.IsReadable)
    (doubles : op = .negate → operand.StartsWithMinus → doubled) :
    ∀ q ∈ operand.pieces.head?, Meets doubled (token (.operator op.token)) q := by
  obtain ⟨kind, rest, starts, opens, sign⟩ := operand.exists_first simple
  rw [starts] at readable ⊢
  intro q first
  obtain rfl := Option.mem_some.1 first
  obtain ⟨begin, tail, written, noEquals, minus⟩ :=
    TokenKind.first_of_opensSimple opens (readable _ List.mem_cons_self).1
  have begins : ∀ c ∈ (token kind).chars.head?, c = begin := by
    intro c here
    rw [chars, written] at here
    exact (Option.mem_some.1 here).symm
  cases op with
  | plus => exact absurd rfl noPlus
  | increment | decrement => exact .inl fun c _ => TokenKind.stopsBefore_update _ rfl
  | not =>
    refine .inl fun c here => TokenKind.stopsBefore_bang ?_
    rwa [begins c here]
  | negate =>
    by_cases signed : kind.IsSign
    · exact .inr ⟨⟨rfl, kind, rfl, signed⟩, doubles rfl (sign.1 signed)⟩
    · refine .inl fun c here => TokenKind.stopsBefore_minus ?_ ?_
      · rwa [begins c here]
      · rw [begins c here]
        exact mt minus signed

/-- A simple expression and what follows it meet as they do apart, where no word follows. -/
theorem Expr.isChain_followed {e : Expr} {doubled : Prop} {rest : List CodePiece}
    (simple : e.Simple) (h : e.pieces.IsChain (Meets doubled))
    (others : rest.IsChain (Meets doubled)) (apart : ∀ q ∈ rest.head?, q.StandsApart) :
    (e.pieces ++ rest).IsChain (Meets doubled) :=
  List.isChain_append.2
    ⟨h, others, fun p last q first => Expr.last_meets simple (apart q first) p last⟩

mutual

/-- Nowhere in a simple expression does a piece go on with the one before, unless both start with a
minus sign. -/
theorem Expr.pieces_meet {doubled : Prop} (e : Expr) (simple : e.Simple)
    (readable : ∀ p ∈ e.pieces, p.IsReadable) (doubles : e.DoublesMinus → doubled) :
    e.pieces.IsChain (Meets doubled) := by
  match e with
  | .binary _ left op _ right =>
    obtain ⟨first, others⟩ := List.forall_mem_append.1 readable
    have signed := (List.forall_mem_cons.1 others).2
    have second := (List.forall_mem_cons.1 (List.forall_mem_cons.1 signed).2).2
    refine Expr.isChain_followed simple.2.1
      (left.pieces_meet simple.2.1 first fun d => doubles (.inl d)) ?_ ?_
    · refine List.isChain_cons_cons.2 ⟨meets_blank, List.isChain_cons_cons.2
        ⟨operator_meets_blank op.token, List.isChain_cons.2 ⟨fun q _ => meets_blank, ?_⟩⟩⟩
      exact right.pieces_meet simple.2.2 second fun d => doubles (.inr d)
    · exact fun q is => Option.mem_some.1 is ▸ blank_standsApart
  | .call _ callee args =>
    obtain ⟨first, others⟩ := List.forall_mem_append.1 readable
    have inside := (List.forall_mem_append.1 (List.forall_mem_cons.1 others).2).1
    refine Expr.isChain_followed simple.1
      (callee.pieces_meet simple.1 first fun d => doubles (.inl d)) ?_ ?_
    · exact isChain_bracketed (by decide)
        (Expr.listPieces_meet args simple.2 inside fun d => doubles (.inr d))
        (Expr.last_list_meets simple.2 (mark_standsApart _ (by decide) (by decide)))
    · exact fun q is => Option.mem_some.1 is ▸ mark_standsApart _ (by decide) (by decide)
  | .index _ target place =>
    obtain ⟨first, others⟩ := List.forall_mem_append.1 readable
    have inside := (List.forall_mem_append.1 (List.forall_mem_cons.1 others).2).1
    refine Expr.isChain_followed simple.1
      (target.pieces_meet simple.1 first fun d => doubles (.inl d)) ?_ ?_
    · exact isChain_bracketed (by decide)
        (place.pieces_meet simple.2 inside fun d => doubles (.inr d))
        (Expr.last_meets simple.2 (mark_standsApart _ (by decide) (by decide)))
    · exact fun q is => Option.mem_some.1 is ▸ mark_standsApart _ (by decide) (by decide)
  | .ident .. | .number .. | .boolean _ true | .boolean _ false => exact List.isChain_singleton _
  | .paren _ inner =>
    have inside := (List.forall_mem_append.1 (List.forall_mem_cons.1 readable).2).1
    exact isChain_bracketed (by decide) (inner.pieces_meet simple inside doubles)
      (Expr.last_meets (e := inner) simple (mark_standsApart _ (by decide) (by decide)))
  | .leading _ op _ operand =>
    have others := (List.forall_mem_cons.1 readable).2
    refine List.isChain_cons.2 ⟨?_, operand.pieces_meet simple.2 others fun d => doubles (.inr d)⟩
    exact Expr.leading_meets simple.1 simple.2 others fun is signed => doubles (.inl ⟨is, signed⟩)
  | .trailing _ operand op _ =>
    have first := (List.forall_mem_append.1 readable).1
    refine Expr.isChain_followed simple.2 (operand.pieces_meet simple.2 first doubles)
      (List.isChain_singleton _) ?_
    exact fun q is => Option.mem_some.1 is ▸ update_standsApart simple.1
  | .array .. | .cast .. | .conditional .. | .object .. | .member .. | .string .. | .template ..
  | .null .. => exact simple.elim

theorem Expr.listPieces_meet {doubled : Prop} (list : List Expr) (simple : AllSimple list)
    (readable : ∀ p ∈ listPieces list, p.IsReadable) (doubles : AnyDoublesMinus list → doubled) :
    (listPieces list).IsChain (Meets doubled) := by
  match list with
  | [] => exact List.isChain_nil
  | [e] => exact e.pieces_meet simple.1 readable fun d => doubles (.inl d)
  | e :: next :: rest =>
    rw [listPieces] at readable ⊢
    obtain ⟨first, others⟩ := List.forall_mem_append.1 readable
    have later := (List.forall_mem_cons.1 (List.forall_mem_cons.1 others).2).2
    refine Expr.isChain_followed simple.1
      (e.pieces_meet simple.1 first fun d => doubles (.inl d)) ?_ ?_
    · refine List.isChain_cons_cons.2 ⟨meets_mark (by decide),
        List.isChain_cons.2 ⟨fun q _ => meets_blank, ?_⟩⟩
      exact Expr.listPieces_meet (next :: rest) simple.2 later fun d => doubles (.inr d)
    · exact fun q is => Option.mem_some.1 is ▸ mark_standsApart _ (by decide) (by decide)

end

/-- One minus sign goes on with another. -/
theorem CodePiece.not_joins_minus {kind : TokenKind} (sign : kind.IsSign) :
    ¬ Joins (token (.operator .minus)) (token kind) := by
  intro joins
  have first : '-' ∈ (token kind).chars.head? := by
    rcases sign with rfl | rfl <;> rfl
  exact (joins '-' first).1 _ (.inl ⟨.decrement, rfl⟩) (List.prefix_refl _)

mutual

/-- Where no piece goes on with the one before, no minus sign stands before another. -/
theorem Expr.not_doublesMinus {e : Expr} (simple : e.Simple) (joined : e.pieces.IsChain Joins) :
    ¬ e.DoublesMinus := by
  match e with
  | .binary _ left op _ right =>
    obtain ⟨first, others, -⟩ := List.isChain_append.1 joined
    have second := (List.isChain_cons.1 (List.isChain_cons.1 (List.isChain_cons.1 others).2).2).2
    exact not_or.2 ⟨Expr.not_doublesMinus simple.2.1 first, Expr.not_doublesMinus simple.2.2 second⟩
  | .call _ callee args =>
    obtain ⟨first, others, -⟩ := List.isChain_append.1 joined
    have second := (List.isChain_append.1 (List.isChain_cons.1 others).2).1
    exact not_or.2 ⟨Expr.not_doublesMinus simple.1 first, Expr.not_anyDoublesMinus simple.2 second⟩
  | .index _ target place =>
    obtain ⟨first, others, -⟩ := List.isChain_append.1 joined
    have second := (List.isChain_append.1 (List.isChain_cons.1 others).2).1
    exact not_or.2 ⟨Expr.not_doublesMinus simple.1 first, Expr.not_doublesMinus simple.2 second⟩
  | .paren _ inner =>
    have inside := (List.isChain_append.1 (List.isChain_cons.1 joined).2).1
    exact Expr.not_doublesMinus (e := inner) simple inside
  | .leading _ op _ operand =>
    obtain ⟨here, others⟩ := List.isChain_cons.1 joined
    refine not_or.2 ⟨?_, Expr.not_doublesMinus simple.2 others⟩
    rintro ⟨rfl, signed⟩
    obtain ⟨kind, rest, starts, -, sign⟩ := operand.exists_first simple.2
    rw [starts] at here
    exact not_joins_minus (sign.2 signed) (here _ rfl)
  | .trailing _ operand _ _ =>
    exact Expr.not_doublesMinus (e := operand) simple.2 (List.isChain_append.1 joined).1
  | .ident .. | .number .. | .boolean .. | .array .. | .cast .. | .conditional .. | .object ..
  | .member .. | .string .. | .template .. | .null .. => exact id

theorem Expr.not_anyDoublesMinus {list : List Expr} (simple : AllSimple list)
    (joined : (listPieces list).IsChain Joins) : ¬ AnyDoublesMinus list := by
  match list with
  | [] => exact id
  | [e] => exact not_or.2 ⟨Expr.not_doublesMinus simple.1 joined, id⟩
  | e :: next :: rest =>
    rw [listPieces] at joined
    obtain ⟨first, others, -⟩ := List.isChain_append.1 joined
    have second := (List.isChain_cons.1 (List.isChain_cons.1 others).2).2
    exact not_or.2 ⟨Expr.not_doublesMinus simple.1 first, Expr.not_anyDoublesMinus simple.2 second⟩

end

/-- Where no piece goes on with the one before, and only there, no minus sign stands before
another. -/
theorem Expr.isChain_joins_iff {e : Expr} (simple : e.Simple)
    (readable : ∀ p ∈ e.pieces, p.IsReadable) : e.pieces.IsChain Joins ↔ ¬ e.DoublesMinus :=
  ⟨Expr.not_doublesMinus simple, fun single =>
    (e.pieces_meet simple readable single).imp fun _ _ meets => meets.resolve_right And.right⟩

/-- Where pieces go on with each other, there are two minus signs before which none do. -/
theorem CodePiece.exists_first_clash {pieces : List CodePiece} (meets : pieces.IsChain (Meets True))
    (doubled : ¬ pieces.IsChain Joins) : ∃ front kind back,
      pieces = front ++ token (.operator .minus) :: token kind :: back ∧ kind.IsSign ∧
        (front ++ [token (.operator .minus)]).IsChain Joins := by
  match pieces with
  | [] => exact absurd List.isChain_nil doubled
  | [p] => exact absurd (List.isChain_singleton p) doubled
  | p :: q :: rest =>
    obtain ⟨here, others⟩ := List.isChain_cons_cons.1 meets
    by_cases joins : Joins p q
    · have later : ¬ (q :: rest).IsChain Joins :=
        fun chain => doubled (List.isChain_cons_cons.2 ⟨joins, chain⟩)
      obtain ⟨front, kind, back, whole, sign, before⟩ := CodePiece.exists_first_clash others later
      refine ⟨p :: front, kind, back, by rw [whole, List.cons_append], sign, ?_⟩
      refine List.isChain_cons.2 ⟨fun next first => ?_, before⟩
      have same : (q :: rest).head? = (front ++ [token (.operator .minus)]).head? := by
        rw [whole]
        cases front <;> rfl
      obtain rfl := Option.some.inj (same.trans first)
      exact joins
    · obtain ⟨rfl, kind, rfl, sign⟩ := (here.resolve_left joins).1
      exact ⟨[], kind, rest, rfl, sign, List.isChain_singleton _⟩

end

end ScriptToGo
