import ScriptToGo.Proofs.Grammar.Places
import ScriptToGo.Proofs.Grammar.WrittenProgram
import ScriptToGo.Proofs.Token.Spacing

/-! Where in the tokens of a source text the nodes of its program are written. -/
namespace ScriptToGo

theorem TypeExpr.span_withSpan (type : TypeExpr) (s : Span) : (type.withSpan s).span = s := by
  cases type <;> rfl

theorem TypeExpr.WrittenBy.span_eq {type : TypeExpr} {ts : List Token} (h : type.WrittenBy ts) :
    type.span = spanOf ts := by
  cases h with
  | paren => exact span_withSpan _ _
  | _ => rfl

/-- An expression takes the range of the tokens that write it. -/
theorem Expr.WrittenBy.span_eq {e : Expr} {ts : List Token} :
    e.WrittenBy ts → Ordered ts → e.span = spanOf ts
  | .array .., _ | .ident, _ | .number, _ | .object .., _ | .paren .., _ | .string, _
  | .template _, _ | .trueWord _, _ | .falseWord _, _ | .null _, _ => rfl
  | .cast operand type, ordered => by
    rw [span, operand.span_eq ordered.left, type.span_eq]
    exact cover_spanOf [_] ordered operand.ne_nil type.ne_nil
  | .binary left right, ordered => by
    rw [span, left.span_eq ordered.left, right.span_eq ordered.right.tail]
    exact cover_spanOf [_] ordered left.ne_nil right.ne_nil
  | @conditional _ _ _ _ us _ _ vs condition _ whenFalse, ordered => by
    rw [span, condition.span_eq ordered.left, whenFalse.span_eq ordered.right.tail.right.tail]
    rw [List.append_cons us _ vs] at ordered ⊢
    exact cover_spanOf (_ :: _) ordered condition.ne_nil whenFalse.ne_nil
  | .call callee _, ordered => by
    rw [span, callee.span_eq ordered.left]
    exact cover_last (_ :: _) ordered callee.ne_nil
  | .index target _, ordered => by
    rw [span, target.span_eq ordered.left]
    exact cover_last (_ :: _) ordered target.ne_nil
  | .member target, ordered => by
    rw [span, target.span_eq ordered.left]
    exact cover_last [_] ordered target.ne_nil
  | .trailing operand, ordered => by
    rw [span, operand.span_eq ordered.left]
    exact cover_last [] ordered operand.ne_nil
  | .leading operand, ordered => by
    have ordered : Ordered ([_] ++ ([] ++ _)) := ordered
    have covered := cover_spanOf [] ordered (List.cons_ne_nil _ _) operand.ne_nil
    rw [spanOf_one ordered.left] at covered
    rw [span, operand.span_eq ordered.right]
    exact covered
termination_by sizeOf e

/-- A node takes the range of the tokens that write it. -/
theorem Node.WrittenBy.span_eq {n : Node} {ts : List Token} (h : n.WrittenBy ts)
    (ordered : Ordered ts) : n.span = spanOf ts := by
  cases h with
  | expression written => exact written.span_eq ordered
  | writtenType written => exact written.span_eq
  | param | declarator => rfl
  | shorthand => exact (spanOf_one ordered).symm

/-- Tokens stand side by side in a list, or in an interpolation of one of its tokens. -/
inductive Consecutive (own : List Token) : List Token → Prop
  | here {tokens} : own <:+: tokens → Consecutive own tokens
  | inside {tokens head holes s hole} : .mk (.template head holes) s ∈ tokens → hole ∈ holes →
      Consecutive own hole.tokens → Consecutive own tokens

theorem Consecutive.trans {own block tokens : List Token} (h : Consecutive own block)
    (outer : Consecutive block tokens) : Consecutive own tokens := by
  induction outer with
  | here side =>
    cases h with
    | here among => exact .here (among.trans side)
    | inside mem isHole within => exact .inside (side.subset mem) isHole within
  | inside mem isHole _ ih => exact .inside mem isHole ih

/-- Tokens that stand side by side are tokens of the list, or inside of them. -/
theorem Consecutive.mem {own tokens : List Token} (h : Consecutive own tokens) {token : Token}
    (mem : token ∈ own) : token ∈ allTokens tokens := by
  induction h with
  | here side => exact allTokens_subset (side.subset mem) token.mem_all
  | inside isTemplate isHole _ ih =>
    exact allTokens_subset isTemplate (List.mem_cons_of_mem _ (mem_innerTokens.2 ⟨_, isHole, ih⟩))

theorem TemplateHole.ListWrittenBy.exists_of_mem {list : List TemplateHole} {holes : List Hole}
    (h : ListWrittenBy list holes) (leveled : AllLeveled list) {lo hi : Nat}
    (spaced : HolesSpaced lo hi holes) {hole : TemplateHole} (mem : hole ∈ list) :
    ∃ inner ∈ holes, ∃ own, own <:+: inner.tokens ∧ Ordered own ∧
      Node.WrittenBy (.expression hole.value) own := by
  match h, spaced with
  | @cons _ ts stop _ _ _ holes written rest, spaced =>
    generalize whole : ts ++ [Token.mk .eof stop] = tokens at spaced
    cases spaced with
    | cons front later =>
      obtain ⟨rfl, -⟩ := List.append_inj' whole rfl
      rcases List.mem_cons.1 mem with rfl | mem
      · exact ⟨_, List.mem_cons_self, ts, ⟨[], [_], whole⟩, ⟨_, _, front⟩,
          .expression written leveled.1⟩
      · obtain ⟨inner, among, found⟩ := rest.exists_of_mem leveled.2 later mem
        exact ⟨inner, List.mem_cons_of_mem _ among, found⟩

/-- A node right inside of another is written by some of its tokens, or in a template among them. -/
theorem Node.WrittenBy.exists_of_mem_inner {n child : Node} {ts : List Token}
    (h : n.WrittenBy ts) (ordered : Ordered ts) (mem : child ∈ n.inner) :
    ∃ own, Consecutive own ts ∧ Ordered own ∧ child.WrittenBy own := by
  rcases h.inner_laid with laid | ⟨_, _, list, holes, s, rfl, rfl, listed, leveled⟩
  · obtain ⟨own, side, written, -⟩ := laid.exists_of_mem mem
    exact ⟨own, .here side, ordered.among side, written⟩
  · obtain ⟨hole, isHole, rfl⟩ := List.mem_map.1 mem
    obtain ⟨lo, hi, spaced⟩ := ordered
    cases spaced with
    | cons _ _ holesSpaced _ =>
      obtain ⟨inner, among, own, side, ordered, written⟩ :=
        listed.exists_of_mem leveled (holesSpaced _ _ rfl) isHole
      exact ⟨own, .inside (List.mem_singleton_self _) among (.here side), ordered, written⟩

theorem Node.WrittenBy.exists_of_mem_all {n m : Node} {ts : List Token} (h : n.WrittenBy ts)
    (ordered : Ordered ts) (mem : m ∈ n.all) :
    ∃ own, Consecutive own ts ∧ Ordered own ∧ m.WrittenBy own := by
  rw [all_eq, List.mem_cons, List.mem_flatMap] at mem
  rcases mem with rfl | ⟨child, isChild, mem⟩
  · exact ⟨ts, .here (List.infix_refl ts), ordered, h⟩
  · obtain ⟨block, outer, blockOrdered, written⟩ := h.exists_of_mem_inner ordered isChild
    have := sizeOf_lt_of_mem_inner isChild
    obtain ⟨own, inner, found⟩ := written.exists_of_mem_all blockOrdered mem
    exact ⟨own, inner.trans outer, found⟩
termination_by sizeOf n

namespace Program

variable {source : String} {base : Nat} {tokens : List Token} {program : Program}

/-- Which tokens write the nodes of a program that was read from a source text. -/
theorem exists_front (lexed : tokenize source base = .ok tokens)
    (parsed : ofTokens tokens = .ok program) : ∃ front, front <:+: tokens ∧ Ordered front ∧
      Laid Node.WrittenBy program.outerNodes front := by
  obtain ⟨lexical, ends⟩ := lexical_of_tokenize lexed
  obtain ⟨front, stop, rfl, laid⟩ := laid_ofTokens lexical ends parsed
  obtain ⟨other, _, same, ordered⟩ := ordered_of_tokenize lexed
  obtain ⟨rfl, -⟩ := List.append_inj' same rfl
  exact ⟨front, ⟨[], [_], rfl⟩, ordered, laid⟩

theorem node_writtenBy (lexed : tokenize source base = .ok tokens)
    (parsed : ofTokens tokens = .ok program) {n : Node} (mem : n ∈ program.nodes) :
    ∃ own, Consecutive own tokens ∧ Ordered own ∧ n.WrittenBy own := by
  obtain ⟨front, among, ordered, laid⟩ := exists_front lexed parsed
  obtain ⟨outer, isOuter, mem⟩ := List.mem_flatMap.1 mem
  obtain ⟨block, side, written⟩ := laid.exists_of_mem isOuter
  obtain ⟨own, within, found⟩ := written.exists_of_mem_all (ordered.among side) mem
  exact ⟨own, within.trans (.here (side.trans among)), found⟩

/-- In a program that was read, a row of operators of one strength groups to the side on which they
associate. -/
theorem operators_associate (lexed : tokenize source base = .ok tokens)
    (parsed : ofTokens tokens = .ok program) {s opSpan : Span} {left right : Expr} {op : BinaryOp}
    (mem : .expression (.binary s left op opSpan right) ∈ program.nodes) :
    (∀ s' first op' opSpan' second, left = .binary s' first op' opSpan' second →
      op'.precedence = op.precedence → op.token.associativity = .left) ∧
    ∀ s' first op' opSpan' second, right = .binary s' first op' opSpan' second →
      op'.precedence = op.precedence → op.token.associativity = .right := by
  obtain ⟨own, -, -, written⟩ := node_writtenBy lexed parsed mem
  cases written with
  | expression written leveled => exact leveled.associates

/-- Each expression of a program, also inside of a template, keeps to the table of operators, and
nothing of the tokens between its start and its end is lost. -/
theorem expressions_faithful (lexed : tokenize source base = .ok tokens)
    (parsed : ofTokens tokens = .ok program) :
    ∀ e, .expression e ∈ program.nodes → e.Leveled ∧
      ∃ own, Consecutive own tokens ∧ e.WrittenBy own ∧ e.span = spanOf own := by
  intro e mem
  obtain ⟨own, within, ordered, written⟩ := node_writtenBy lexed parsed mem
  cases written with
  | expression written leveled =>
    exact ⟨leveled, own, within, written, written.span_eq ordered⟩

/-- Inside of a template, a type in parentheses is given to a sum. -/
theorem cast_in_template_faithful : ∃ tokens program,
    tokenize "\x60$\x7ba+1 as(T)\x7d\x60" 0 = .ok tokens ∧ ofTokens tokens = .ok program ∧
      program = [.expression ⟨0, 14⟩ (.template ⟨0, 14⟩ "" [.mk (.cast ⟨3, 12⟩
        (.binary ⟨3, 6⟩ (.ident ⟨3, 4⟩ "a") .add ⟨4, 5⟩ (.number ⟨5, 6⟩ "1"))
        (.named ⟨9, 12⟩ "T" [])) ""])] ∧
      ∀ e, .expression e ∈ program.nodes → e.Leveled ∧
        ∃ own, Consecutive own tokens ∧ e.WrittenBy own ∧ e.span = spanOf own := by
  have lexed : tokenize "\x60$\x7ba+1 as(T)\x7d\x60" 0 = .ok
      [.mk (.template "" [.mk [.mk (.ident "a") ⟨3, 4⟩, .mk (.operator .plus) ⟨4, 5⟩,
        .mk (.number "1") ⟨5, 6⟩, .mk (.keyword .asWord) ⟨7, 9⟩,
        .mk (.punctuation .leftParen) ⟨9, 10⟩, .mk (.ident "T") ⟨10, 11⟩,
        .mk (.punctuation .rightParen) ⟨11, 12⟩, .mk .eof ⟨12, 12⟩] ⟨3, 12⟩ ""]) ⟨0, 14⟩,
        .mk .eof ⟨14, 14⟩] := by cbv
  exact ⟨_, _, lexed, by cbv, rfl, expressions_faithful lexed (by cbv)⟩

end Program

end ScriptToGo
