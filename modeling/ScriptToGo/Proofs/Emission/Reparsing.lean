import ScriptToGo.Proofs.Emission.Boundaries
import ScriptToGo.Proofs.Emission.PieceTokens
import ScriptToGo.Proofs.Grammar.NodePlaces

/-! When the Go code of an expression is read as the expression. -/
namespace ScriptToGo
open TokenKind (withoutLastCommas)

namespace Grammar
open Cursor

variable {c next : Cursor}

theorem atEnd_of_opensSimple (opens : c.peek.kind.opensSimple = true) : c.atEnd = false := by
  rw [atEnd]
  cases is : c.peek.kind with
  | eof =>
    rw [is] at opens
    cases opens
  | _ => rfl

/-- A statement that starts like a simple expression is one. -/
theorem statement_of_opensSimple (opens : c.peek.kind.opensSimple = true) : statement c =
    (expression c).thenSemicolon.mapAt fun e next => .expression (next.spanFrom c.start) e := by
  have noVariable : c.take? variableKeyword? = none := by
    apply take?_eq_none
    cases is : c.peek.kind with
    | keyword word =>
      rw [is] at opens
      cases word <;> first | rfl | exact absurd opens (by decide)
    | _ => rfl
  obtain ⟨⟨kind, span, following, size, shorter⟩, found⟩ :=
    exists_next? (atEnd_of_opensSimple opens)
  have passed := passes_of_next? found
  rw [passed.peek] at opens
  dsimp only [Token.kind] at opens
  rw [statement]
  cases kind with
  | ident | number | operator => simp only [found, noVariable]
  | keyword word =>
    cases word <;> first | exact absurd opens (by decide) | simp only [found, noVariable]
  | punctuation mark =>
    cases mark <;> first | exact absurd opens (by decide) | simp only [found, noVariable]
  | string | template | eof => cases opens

/-- What reading such a statement takes first are the tokens of its expression. -/
theorem statement_expression_takes {span : Span} {e : Expr} (lexical : Lexical c.rest)
    (opens : c.peek.kind.opensSimple = true)
    (read : (statement c).Gives (.expression span e) next) :
    ∃ taken mid, c.Passes taken mid ∧ e.WrittenBy taken := by
  have takes := expression_takes lexical
  obtain ⟨shorter, given⟩ := read
  rw [statement_of_opensSimple opens] at given
  cases found : expression c with
  | fail =>
    rw [found] at given
    cases given
  | ok value mid =>
    rw [found] at given takes
    cases given
    obtain ⟨taken, passed, written⟩ := takes
    exact ⟨taken, mid, passed, written⟩

end Grammar

namespace Program

variable {e : Expr} {span eof : Span} {ts tokens : List Token} {first : Token}

/-- The tokens of an expression that starts like a simple one, and the end of the text, are read as
the expression. -/
theorem ofTokens_expression (written : e.WrittenBy ts) (free : e.CastFree) (leveled : e.Leveled)
    (begins : ts.head? = some first) (opens : first.kind.opensSimple = true) :
    ∃ span, ofTokens (ts ++ [.mk .eof eof]) = .ok [.expression span e] := by
  have closed : endsInEof (ts ++ [.mk .eof eof]) = true := by
    rw [endsInEof, List.getLast?_concat]
    rfl
  obtain ⟨c, opened⟩ := Cursor.exists_ofTokens? closed
  obtain ⟨last, passed, left⟩ :=
    Cursor.exists_passes (Cursor.rest_of_ofTokens? opened) (List.cons_ne_nil _ _)
  obtain ⟨rest, rfl⟩ := List.head?_eq_some_iff.1 begins
  have opens : c.peek.kind.opensSimple = true := by rwa [passed.peek]
  have peeked : last.peek = .mk .eof eof := by simp only [Cursor.peek, left, List.head_cons]
  have ends : last.atEnd = true := by rw [Cursor.atEnd, peeked]; rfl
  have loose : last.grip < Operator.assign.precedence := by
    rw [Cursor.grip, peeked]
    exact (by decide : 0 < Operator.assign.precedence)
  have noSemicolon : last.skipMark .semicolon = last := by
    have none : last.mark? .semicolon = none := Cursor.take?_eq_none (by rw [peeked]; rfl)
    rw [Cursor.skipMark, none]
  obtain ⟨_, value⟩ := Grammar.expression_gives written free leveled passed loose
  have read : (Grammar.statement c).Gives (.expression (last.spanFrom c.start) e) last := by
    rw [Grammar.statement_of_opensSimple opens, value]
    simp only [Reading.thenSemicolon, Reading.mapAt, noSemicolon]
    exact ⟨_, rfl⟩
  have some := Grammar.atEnd_of_opensSimple opens
  exact ⟨_, ofTokens_eq_ok_iff.2 ⟨c, opened, Grammar.program_one some read ends⟩⟩

/-- Where tokens are read as an expression and start like a simple one, they start with those that
write it. -/
theorem exists_writtenBy_of_ofTokens (lexical : Lexical tokens)
    (begins : tokens.head? = some first) (opens : first.kind.opensSimple = true)
    (read : ofTokens tokens = .ok [.expression span e]) :
    ∃ taken more, tokens = taken ++ more ∧ e.WrittenBy taken := by
  obtain ⟨c, opened, whole⟩ := ofTokens_eq_ok_iff.1 read
  obtain rfl := Cursor.rest_of_ofTokens? opened
  have opens : c.peek.kind.opensSimple = true := by
    obtain ⟨rest, left⟩ := List.head?_eq_some_iff.1 begins
    simpa only [Cursor.peek, left, List.head_cons] using opens
  rw [Grammar.program, Grammar.atEnd_of_opensSimple opens, if_neg Bool.false_ne_true] at whole
  cases found : Grammar.statement c with
  | ok s next shorter =>
    simp only [found, Grammar.Parsed.mk.injEq, List.cons.injEq] at whole
    obtain ⟨⟨rfl, -⟩, -⟩ := whole
    obtain ⟨taken, mid, passed, written⟩ :=
      Grammar.statement_expression_takes lexical opens ⟨shorter, found⟩
    exact ⟨taken, mid.rest, passed.rest, written⟩
  | fail error place within =>
    simp only [found] at whole
    split at whole <;> exact absurd (Grammar.Parsed.mk.inj whole).2 (List.cons_ne_nil _ _)

end Program

section
open CodePiece (Joins allChars kinds)

variable {text : String} {pieces : List CodePiece}

/-- A text of pieces that do not go on with each other is cut into their tokens. -/
theorem tokenize_pieces (made : text.toList = allChars pieces)
    (readable : ∀ p ∈ pieces, p.IsReadable) (joined : pieces.IsChain Joins) :
    ∃ ts eof, tokenize text 0 = .ok (ts ++ [.mk .eof eof]) ∧ ts.map Token.kind = kinds pieces := by
  have ends : ∀ p ∈ pieces.getLast?, ∀ c ∈ ([] : List Char).head?, p.StopsBefore c :=
    fun p _ c none => by cases none
  obtain ⟨ts, place, same, cut⟩ := CodePiece.lexFrom_allChars readable joined ends 0
  rw [List.append_nil, ← made, lexFrom_nil] at cut
  refine ⟨ts, ⟨place, place⟩, tokenize_eq_ok_iff.2 ?_, same⟩
  rw [cut]
  exact ⟨rfl, rfl⟩

/-- The first two minus signs among pieces that go on with each other are cut as one token. -/
theorem lexFrom_clash (readable : ∀ p ∈ pieces, p.IsReadable)
    (meets : pieces.IsChain (CodePiece.Meets True)) (doubled : ¬ pieces.IsChain Joins) (pos : Nat) :
    ∃ front back more, kinds pieces = front ++ .operator .minus :: back ∧
      (lexFrom pos (allChars pieces)).tokens.map Token.kind =
        front ++ .operator .decrement :: more := by
  obtain ⟨front, kind, back, rfl, sign, single⟩ := CodePiece.exists_first_clash meets doubled
  obtain ⟨tail, written⟩ : ∃ tail, kind.written = '-' :: tail := by
    rcases sign with rfl | rfl <;> exact ⟨_, rfl⟩
  have whole : allChars (front ++ .token (.operator .minus) :: .token kind :: back) =
      allChars (front ++ [CodePiece.token (.operator .decrement)]) ++ (tail ++ allChars back) := by
    have second : (CodePiece.token kind).chars = '-' :: tail := written
    simp only [CodePiece.allChars_append, CodePiece.allChars_cons, second, List.append_assoc]
    rfl
  have merged : ∀ p ∈ front ++ [CodePiece.token (.operator .decrement)], p.IsReadable :=
    List.forall_mem_append.2 ⟨(List.forall_mem_append.1 readable).1,
      List.forall_mem_singleton.2 ⟨trivial, rfl⟩⟩
  -- Both signs start alike, so that what joins the one joins the other.
  have joined : (front ++ [CodePiece.token (.operator .decrement)]).IsChain Joins := by
    obtain ⟨before, -, here⟩ := List.isChain_append.1 single
    refine List.isChain_append.2 ⟨before, List.isChain_singleton _, fun p last q is c first => ?_⟩
    obtain rfl := Option.mem_some.1 is
    exact here p last _ rfl c first
  have stops : ∀ p ∈ (front ++ [CodePiece.token (.operator .decrement)]).getLast?,
      ∀ c ∈ (tail ++ allChars back).head?, p.StopsBefore c := by
    intro p last c _
    rw [List.getLast?_concat, Option.mem_some] at last
    subst last
    exact TokenKind.stopsBefore_update .decrement rfl
  obtain ⟨ts, place, same, cut⟩ := CodePiece.lexFrom_allChars merged joined stops pos
  refine ⟨kinds front, kinds (.token kind :: back),
    (lexFrom place (tail ++ allChars back)).tokens.map Token.kind, CodePiece.kinds_append _ _, ?_⟩
  rw [whole, cut, List.map_append, same, CodePiece.kinds_append, List.append_assoc]
  rfl

end

namespace Expr

variable {e : Expr} {front back more : List TokenKind}

/-- Tokens that differ from those of a simple expression first where a minus sign is start as it
does. -/
theorem opensSimple_of_clash (simple : e.Simple) {tokens : List Token}
    (whole : CodePiece.kinds e.pieces = front ++ .operator .minus :: back)
    (cut : tokens.map Token.kind = front ++ .operator .decrement :: more) :
    ∃ first, tokens.head? = some first ∧ first.kind.opensSimple = true := by
  obtain ⟨kind, rest, starts, opens, -⟩ := e.exists_first simple
  cases front with
  | nil =>
    obtain ⟨s, us, rfl, -⟩ := exists_before cut
    exact ⟨_, rfl, rfl⟩
  | cons first front =>
    rw [starts] at whole
    obtain ⟨rfl, -⟩ := List.cons.inj whole
    obtain ⟨s, us, rfl, -⟩ := exists_before cut
    exact ⟨_, rfl, opens⟩

/-- Tokens that write a simple expression have no decrement where it has a minus sign. -/
theorem not_writtenAs_of_clash (simple : e.Simple) {taken left : List Token}
    (whole : CodePiece.kinds e.pieces = front ++ .operator .minus :: back)
    (cut : (taken ++ left).map Token.kind = front ++ .operator .decrement :: more) :
    ¬ e.WrittenAs taken := by
  intro writtenAs
  have kept : CodePiece.kinds e.pieces =
      withoutLastCommas front ++ .operator .minus :: withoutLastCommas back := by
    rw [← withoutLastCommas_kinds simple, whole]
    exact TokenKind.withoutLastCommas_append TokenKind.noConfusion TokenKind.noConfusion
  have condensed := writtenAs.condenses simple (left.map Token.kind)
  rw [← List.map_append, cut, kept, List.append_assoc,
    TokenKind.withoutLastCommas_append TokenKind.noConfusion TokenKind.noConfusion] at condensed
  have signs := (List.cons.inj (List.append_cancel_left condensed)).1
  cases signs

end Expr

namespace Program

variable {source : String} {program : Program} {e : Expr}

/-- A simple expression of a program keeps to the table of operators, and its pieces can be read
again. -/
theorem leveled_and_pieces_readable (parsed : ofSource source = .ok program)
    (mem : .expression e ∈ program.nodes) (simple : e.Simple) :
    e.Leveled ∧ ∀ p ∈ e.pieces, p.IsReadable := by
  obtain ⟨tokens, lexed, read⟩ := ofSource_eq_ok_iff.1 parsed
  obtain ⟨own, within, -, written⟩ := node_writtenBy lexed read mem
  cases written with
  | expression written leveled =>
    refine ⟨leveled, fun p among => ?_⟩
    have spelled := e.pieces_spelled p among
    cases p with
    | blank => trivial
    | token kind =>
      refine ⟨?_, spelled⟩
      have condensed := e.condenses simple written []
      rw [List.append_nil, withoutLastCommas, List.append_nil] at condensed
      have kept : kind ∈ CodePiece.kinds e.pieces := List.mem_filterMap.2 ⟨_, among, rfl⟩
      rw [← condensed] at kept
      obtain ⟨token, isOwn, rfl⟩ := List.mem_map.1 (TokenKind.subset_of_withoutLastCommas _ kept)
      exact isReadable_of_tokenize lexed token (within.mem isOwn)

/-- The Go code of a simple expression, in which no left operand is a string, is read as the
expression just where no minus sign in it stands right before another. -/
theorem code_reads_back_iff {v : View} {code : Snippet} (parsed : ofSource source = .ok program)
    (mem : .expression e ∈ program.nodes) (simple : e.Simple) (noString : e.NoStringLeft v)
    (written : e.toGo v = .ok code) :
    (∃ span again, ofSource code.text = .ok [.expression span again] ∧ again.bare = e.bare) ↔
      ¬ e.DoublesMinus := by
  obtain ⟨leveled, readable⟩ := leveled_and_pieces_readable parsed mem simple
  have made : code.text.toList = CodePiece.allChars e.pieces :=
    (e.toGo_isMadeOf simple noString).of_ok written
  rw [← Expr.isChain_joins_iff simple readable]
  constructor
  · rintro ⟨span, again, reread, same⟩
    by_contra doubled
    -- The first two minus signs are cut as one token, and no such tokens write the expression.
    have meets := e.pieces_meet simple readable fun _ => trivial
    obtain ⟨front, back, more, whole, cut⟩ := lexFrom_clash readable meets doubled 0
    obtain ⟨tokens, lexed, read⟩ := ofSource_eq_ok_iff.1 reread
    obtain ⟨-, rfl⟩ := tokenize_eq_ok_iff.1 lexed
    rw [← made] at cut
    obtain ⟨first, begins, opens⟩ := Expr.opensSimple_of_clash simple whole cut
    obtain ⟨taken, left, split, written⟩ :=
      exists_writtenBy_of_ofTokens (lexical_of_tokenize lexed).1 begins opens read
    rw [split] at cut
    exact Expr.not_writtenAs_of_clash simple whole cut ⟨again, same, written⟩
  · intro joined
    obtain ⟨ts, eof, lexed, kinds⟩ := tokenize_pieces made readable joined
    obtain ⟨placed, same, written, free, leveled⟩ :=
      (e.writtenAs_of_kinds simple kinds).exists_placed simple.castFree leveled
    obtain ⟨kind, rest, starts, opens, -⟩ := e.exists_first simple
    rw [starts] at kinds
    obtain ⟨s, us, rfl, -⟩ := exists_before kinds
    obtain ⟨span, read⟩ := ofTokens_expression written free leveled rfl opens
    exact ⟨span, placed, ofSource_eq_ok_iff.2 ⟨_, lexed, read⟩, same⟩

/-- The negation of an element is taken from what a call gives. -/
def negatedElement : Expr :=
  .binary ⟨0, 13⟩
    (.call ⟨0, 5⟩ (.ident ⟨0, 1⟩ "f") [.leading ⟨2, 4⟩ .not ⟨2, 3⟩ (.ident ⟨3, 4⟩ "x")])
    .sub ⟨6, 7⟩
    (.leading ⟨8, 13⟩ .negate ⟨8, 9⟩
      (.index ⟨9, 13⟩ (.ident ⟨9, 10⟩ "y") (.number ⟨11, 12⟩ "0")))

/-- A program that is nothing but an expression, of which no types are known. -/
def bareView (source : String) (program : Program) : View :=
  ⟨⟨0, ⟨"main.ts"⟩, source, program, []⟩, .empty⟩

theorem mem_nodes_expression (span : Span) (e : Expr) :
    .expression e ∈ nodes [.expression span e] := by
  refine List.mem_flatMap.2 ⟨.expression e, List.mem_singleton_self _, ?_⟩
  rw [Node.all_eq]
  exact List.mem_cons_self

theorem negatedElement_reads_back :
    ∃ program v code, ofSource "f(!x) - -y[0]" = .ok program ∧
      .expression negatedElement ∈ program.nodes ∧ negatedElement.Simple ∧
      negatedElement.NoStringLeft v ∧ negatedElement.toGo v = .ok code ∧
      ¬ negatedElement.DoublesMinus ∧ ∃ span again,
        ofSource code.text = .ok [.expression span again] ∧ again.bare = negatedElement.bare := by
  let program : Program := [.expression ⟨0, 13⟩ negatedElement]
  let v := bareView "f(!x) - -y[0]" program
  have parsed : ofSource "f(!x) - -y[0]" = .ok program := by cbv
  have mem : .expression negatedElement ∈ program.nodes := mem_nodes_expression _ _
  have simple : negatedElement.Simple := by
    simp [negatedElement, Expr.Simple, Expr.AllSimple, IsPlain, BinaryOp.isWritten]
  have noString : negatedElement.NoStringLeft v := by
    have untyped : v.isString ⟨0, 5⟩ = false := by cbv
    simp [negatedElement, Expr.NoStringLeft, Expr.AllNoStringLeft, Expr.span, untyped]
  have written : negatedElement.toGo v = .ok ⟨"f(!x) - -y[0]", []⟩ := by cbv
  have single : ¬ negatedElement.DoublesMinus := by
    simp [negatedElement, Expr.DoublesMinus, Expr.AnyDoublesMinus, Expr.StartsWithMinus]
  exact ⟨program, v, _, parsed, mem, simple, noString, written, single,
    (code_reads_back_iff parsed mem simple noString written).2 single⟩

/-- A negation of a negation. -/
def negatedTwice : Expr :=
  .leading ⟨0, 4⟩ .negate ⟨0, 1⟩ (.leading ⟨2, 4⟩ .negate ⟨2, 3⟩ (.ident ⟨3, 4⟩ "x"))

/-- The Go code of a negation of a negation is read as a decrement. -/
theorem negatedTwice_misread :
    ∃ program v code, ofSource "- -x" = .ok program ∧ .expression negatedTwice ∈ program.nodes ∧
      negatedTwice.Simple ∧ negatedTwice.NoStringLeft v ∧ negatedTwice.toGo v = .ok code ∧
      code.text = "--x" ∧ ¬ ∃ span again,
        ofSource code.text = .ok [.expression span again] ∧ again.bare = negatedTwice.bare := by
  let program : Program := [.expression ⟨0, 4⟩ negatedTwice]
  have parsed : ofSource "- -x" = .ok program := by cbv
  have mem : .expression negatedTwice ∈ program.nodes := mem_nodes_expression _ _
  have written : negatedTwice.toGo (bareView "- -x" program) = .ok ⟨"--x", []⟩ := by cbv
  have reread : ofSource "--x" = .ok [.expression ⟨0, 3⟩
      (.leading ⟨0, 3⟩ .decrement ⟨0, 2⟩ (.ident ⟨2, 3⟩ "x"))] := by cbv
  refine ⟨program, bareView "- -x" program, _, parsed, mem, ?_, trivial, written, rfl, ?_⟩
  · simp [negatedTwice, Expr.Simple, IsPlain]
  · rintro ⟨span, again, read, same⟩
    obtain ⟨rfl, rfl⟩ : ⟨0, 3⟩ = span ∧ _ = again := by simpa using reread.symm.trans read
    simp [negatedTwice, Expr.bare] at same

end Program

end ScriptToGo
