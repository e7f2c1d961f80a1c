import ScriptToGo.Proofs.Grammar.ContinuedProgram
import ScriptToGo.Proofs.Grammar.Rules
import ScriptToGo.Proofs.Token.Coverage

/-! A semicolon ends a statement, whatever is read after it: programs can be written one after the
other. -/
namespace ScriptToGo

/-- The end of the text is the last token wherever reading has come to. -/
theorem EndsOnce.of_append {taken rest : List Token} (h : EndsOnce (taken ++ rest))
    (some : rest ≠ []) : EndsOnce rest := by
  obtain ⟨front, stop, whole, others⟩ := h
  rcases List.eq_nil_or_concat rest with none | ⟨more, last, rfl⟩
  · exact absurd none some
  · rw [List.concat_eq_append, ← List.append_assoc] at whole
    obtain ⟨rfl, same⟩ := List.append_inj' whole rfl
    obtain rfl := List.singleton_inj.1 same
    exact ⟨more, stop, List.concat_eq_append, fun token mem =>
      others token (List.mem_append_right _ mem)⟩

namespace Grammar
open Continuation Reading

section

variable {c : Cursor}

/-- No expression starts with a token that does not open one. -/
theorem expression_of_not_opens (closed : c.peek.kind.opensExpression = false) :
    (expression c).Ensures fun _ _ => False := by
  have atPrimary : (primary c).Ensures fun _ _ => False := by
    rw [primary]
    split
    all_goals try trivial
    all_goals
      next found =>
        rw [(Cursor.passes_of_next? found).peek] at closed
        cases closed
  have atAccess : (access c).Ensures fun _ _ => False := by
    rw [access]
    exact atPrimary.andMaybe fun _ _ _ => False.elim
  have atUnary : (unary c).Ensures fun _ _ => False := by
    rw [unary, Cursor.take?_eq_none (TokenKind.leading?_of_not_opens closed)]
    exact atAccess.andMaybe fun _ _ _ => False.elim
  have atBinary : (binary 0 c).Ensures fun _ _ => False := by
    rw [binary]
    exact atUnary.andMaybe fun _ _ _ => False.elim
  have atConditional : (conditional c).Ensures fun _ _ => False := by
    rw [conditional]
    exact atBinary.andMaybe fun _ _ _ => False.elim
  rw [expression]
  exact atConditional.andMaybe fun _ _ _ => False.elim

variable (isElse : c.peek.kind = .keyword .elseWord)
include isElse

theorem statement_elseWord : (statement c).Ensures fun _ _ => False := by
  have notVariable : c.take? variableKeyword? = none := by
    refine Cursor.take?_eq_none ?_
    rw [isElse]
    rfl
  rw [statement]
  split
  case h_13 =>
    rw [notVariable]
    have none := expression_of_not_opens (c := c) (by rw [isElse]; rfl)
    cases read : expression c with
    | ok value next shorter =>
      rw [read] at none
      exact none.elim
    | fail error place within => trivial
  all_goals
    next found =>
      rw [(Cursor.passes_of_next? found).peek] at isElse
      cases isElse

/-- A program does not start with the word that goes on with a statement. -/
theorem program_elseWord : (program c).errors ≠ [] := by
  have notEnd : c.atEnd = false := by
    rw [Cursor.atEnd, isElse]
    rfl
  have none := statement_elseWord isElse
  rw [program, notEnd, if_neg Bool.false_ne_true]
  cases read : statement c with
  | ok first next shorter =>
    rw [read] at none
    exact none.elim
  | fail error place within =>
    dsimp only
    split <;> simp

end

/-- A program is read up to its end, and what follows it is read as a program of its own. -/
theorem program_goesOn {w : Continuation} {c c' : Cursor} (noElse : w.NoElse) (beside : w.Beside c c')
    (lexical : Lexical c.rest) (ends : EndsOnce c.rest) {list : List Statement}
    (clean : program c = ⟨list, []⟩) :
    ∃ e : Cursor, e.rest = w.first :: w.more ∧ program c' =
      ⟨Statement.shiftAll w.distance list ++ (program e).statements, (program e).errors⟩ := by
  rw [program] at clean
  split at clean
  next atEnd =>
    obtain ⟨tokens, ⟨rest, rest'⟩, -⟩ := beside
    obtain ⟨stop, whole⟩ := Cursor.tokens_of_atEnd (.nil c) atEnd ends
    obtain rfl : tokens = [] := (List.append_inj' (rest.symm.trans whole) rfl).1
    cases clean
    exact ⟨c', rest', rfl⟩
  next notEnd =>
    have alike := statement_alike noElse beside
    have lays := statement_lays lexical
    cases read : statement c with
    | fail error place within =>
      rw [read] at clean
      dsimp only at clean
      split at clean <;> cases clean
    | ok first next shorter =>
      rw [read] at clean alike lays
      obtain ⟨next', ⟨shorter', read'⟩, passed⟩ := alike
      obtain ⟨taken, past, -⟩ := lays
      have past : c.Passes taken next := past
      obtain ⟨rfl, none⟩ := Parsed.mk.inj clean
      obtain ⟨e, rest, others⟩ := program_goesOn noElse passed.beside (past.lexical lexical)
        ((past.rest ▸ ends).of_append next.rest_ne_nil) (congrArg (Parsed.mk _) none)
      refine ⟨e, rest, ?_⟩
      have notEnd' : c'.atEnd = false := by
        rcases beside.atEnd_or_ready with atEnd | ready
        · refine absurd ?_ notEnd
          simp only [Cursor.atEnd, Cursor.peek, atEnd, List.head_cons]
          rfl
        · rw [ready.atEnd, Bool.eq_false_iff.2 notEnd]
      rw [program, notEnd', if_neg Bool.false_ne_true, read']
      dsimp only
      rw [others]
      rfl
termination_by c.size

/-- A program that stands alone further on in its file is read as it is read at its place. -/
theorem program_moved {distance : Nat} {c c' : Cursor}
    (moved : c'.rest = c.rest.map (Token.shift distance)) (lexical : Lexical c.rest)
    (ends : EndsOnce c.rest) {list : List Statement} (clean : program c = ⟨list, []⟩) :
    program c' = ⟨list.map (Statement.shift distance), []⟩ := by
  obtain ⟨stop, beside⟩ := exists_alone moved
  obtain ⟨e, rest, read⟩ := program_goesOn (by nofun) beside lexical ends clean
  have atEnd : e.atEnd = true := by
    simp only [Cursor.atEnd, Cursor.peek, rest, List.head_cons]
    rfl
  rw [read, program, atEnd, if_pos rfl, List.append_nil, ← Statement.shiftAll_eq_map]
  rfl

end Grammar

open Grammar Continuation

/-- A semicolon is a boundary between statements: what ends with one and what is written after it
are read as they are read alone, wherever they stand. -/
theorem Program.ofTokens_append {first second : String} {base base' : Nat} {front ts : List Token}
    {semicolon stop : Span} {p q : Program}
    (lexed : tokenize first base =
      .ok (front ++ [.mk (.punctuation .semicolon) semicolon, .mk .eof stop]))
    (lexed' : tokenize second base' = .ok ts)
    (parsed : Program.ofTokens
      (front ++ [.mk (.punctuation .semicolon) semicolon, .mk .eof stop]) = .ok p)
    (parsed' : Program.ofTokens ts = .ok q) (distance : Nat) :
    Program.ofTokens (ts.map (Token.shift distance)) = .ok (q.map (Statement.shift distance)) ∧
      Program.ofTokens
          (front ++ .mk (.punctuation .semicolon) semicolon :: ts.map (Token.shift distance))
        = .ok (p ++ q.map (Statement.shift distance)) := by
  obtain ⟨c, opened, read⟩ := Program.ofTokens_eq_ok_iff.1 parsed
  obtain ⟨d, opened', read'⟩ := Program.ofTokens_eq_ok_iff.1 parsed'
  obtain ⟨lexical, ends⟩ := lexical_of_tokenize lexed
  obtain ⟨lexical', ends'⟩ := lexical_of_tokenize lexed'
  obtain ⟨d', moved, left⟩ := exists_moved opened' distance
  obtain rfl := Cursor.rest_of_ofTokens? opened'
  have rest := Cursor.rest_of_ofTokens? opened
  rw [← rest] at lexical ends
  refine ⟨Program.ofTokens_eq_ok_iff.2 ⟨d', moved, program_moved left lexical' ends' read'⟩, ?_⟩
  obtain ⟨next, more, follows⟩ := List.exists_cons_of_ne_nil d'.rest_ne_nil
  have closed : endsInEof (front ++ .mk (.punctuation .semicolon) semicolon ::
      d.rest.map (Token.shift distance)) = true := by
    have closed := d'.closed
    rw [endsInEof, left] at closed
    rw [endsInEof, List.append_cons, List.getLast?_append,
      List.getLast?_eq_some_getLast (left ▸ d'.rest_ne_nil)]
    rwa [List.getLast?_eq_some_getLast (left ▸ d'.rest_ne_nil)] at closed
  obtain ⟨c', opened''⟩ := Cursor.exists_ofTokens? closed
  have rest' := Cursor.rest_of_ofTokens? opened''
  rw [← left, follows] at rest'
  -- The tokens before the boundary stay where they are.
  have beside : (Continuation.mk stop 0 next more).Beside c c' := by
    refine ⟨front ++ [.mk (.punctuation .semicolon) semicolon], ⟨?_, ?_⟩, .inr (.inr ⟨_, _, rfl⟩)⟩
    · rw [rest, List.append_assoc]
      rfl
    · rw [rest', List.map_congr_left fun token _ => token.shift_zero, List.map_id', List.append_assoc]
      rfl
  have noElse : (Continuation.mk stop 0 next more).NoElse := by
    intro isElse
    refine program_elseWord (c := d') ?_ (by rw [program_moved left lexical' ends' read'])
    simp only [Cursor.peek, follows, List.head_cons]
    exact isElse
  obtain ⟨e, after, whole⟩ := program_goesOn noElse beside lexical ends read
  have same : program e = ⟨q.map (Statement.shift distance), []⟩ :=
    program_moved (after.trans (follows.symm.trans left)) lexical' ends' read'
  rw [same, Statement.shiftAll_zero] at whole
  exact Program.ofTokens_eq_ok_iff.2 ⟨c', opened'', whole⟩

/-- A function without a block before a block, which is not taken for its own. -/
theorem Program.overload_before_block : ∃ front semicolon stop ts p q,
    tokenize "function f();" 0 =
        .ok (front ++ [.mk (.punctuation .semicolon) semicolon, .mk .eof stop]) ∧
      tokenize "\x7b\x7d" 0 = .ok ts ∧
      p = [.overload ⟨0, 13⟩ ⟨false, false, some ⟨"f", ⟨9, 10⟩⟩, [], none⟩] ∧
      q = [.block ⟨0, 2⟩ []] ∧
      Program.ofTokens (ts.map (Token.shift 13)) = .ok (q.map (Statement.shift 13)) ∧
      Program.ofTokens
          (front ++ .mk (.punctuation .semicolon) semicolon :: ts.map (Token.shift 13))
        = .ok (p ++ q.map (Statement.shift 13)) := by
  have lexed : tokenize "function f();" 0 = .ok
      ([.mk (.keyword .functionWord) ⟨0, 8⟩, .mk (.ident "f") ⟨9, 10⟩,
          .mk (.punctuation .leftParen) ⟨10, 11⟩, .mk (.punctuation .rightParen) ⟨11, 12⟩]
        ++ [.mk (.punctuation .semicolon) ⟨12, 13⟩, .mk .eof ⟨13, 13⟩]) := by cbv
  have lexed' : tokenize "\x7b\x7d" 0 = .ok
      [.mk (.punctuation .leftBrace) ⟨0, 1⟩, .mk (.punctuation .rightBrace) ⟨1, 2⟩,
        .mk .eof ⟨2, 2⟩] := by cbv
  exact ⟨_, _, _, _, _, _, lexed, lexed', rfl, rfl,
    Program.ofTokens_append lexed lexed' (by cbv) (by cbv) 13⟩

end ScriptToGo
