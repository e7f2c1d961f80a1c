import ScriptToGo.Proofs.Grammar.NodePlaces
import ScriptToGo.Types.Table

/-! The ranges of the nodes of a program tell them apart. -/
namespace ScriptToGo

attribute [ext] Span

/-- Nodes stand one after the other between two offsets. Each takes some bytes, and the nodes inside
of it stand so in its range, of which none takes all. -/
inductive Nested : Nat → Nat → List Node → Prop
  | nil {lo hi} : lo ≤ hi → Nested lo hi []
  | cons {lo hi n rest} : lo ≤ n.span.start → n.span.start < n.span.stop →
      Nested n.span.start n.span.stop n.inner → (∀ child ∈ n.inner, child.span ≠ n.span) →
      Nested n.span.stop hi rest → Nested lo hi (n :: rest)

/-- What a node inside of another shows to be true of it. -/
structure Node.Sits (lo hi : Nat) (n : Node) : Prop where
  starts : lo ≤ n.span.start
  nonempty : n.span.start < n.span.stop
  stops : n.span.stop ≤ hi
  nested : Nested n.span.start n.span.stop n.inner
  proper : ∀ child ∈ n.inner, child.span ≠ n.span

theorem Node.Sits.widen {lo hi lower upper : Nat} {n : Node} (h : n.Sits lo hi) (below : lower ≤ lo)
    (above : hi ≤ upper) : n.Sits lower upper :=
  { h with starts := Nat.le_trans below h.starts, stops := Nat.le_trans h.stops above }

namespace Nested

variable {lo hi : Nat} {nodes : List Node}

theorem le (h : Nested lo hi nodes) : lo ≤ hi := by
  induction h with
  | nil le => exact le
  | cons => omega

theorem mono {lower upper : Nat} (h : Nested lo hi nodes) (below : lower ≤ lo)
    (above : hi ≤ upper) : Nested lower upper nodes := by
  induction h generalizing lower with
  | nil le => exact .nil (by omega)
  | cons starts some nested proper _ _ ih =>
    exact .cons (Nat.le_trans below starts) some nested proper (ih (Nat.le_refl _) above)

theorem of_sits {mid : Nat} {n : Node} (h : n.Sits lo mid) (later : Nested mid hi nodes) :
    Nested lo hi (n :: nodes) :=
  .cons h.starts h.nonempty h.nested h.proper (later.mono h.stops (Nat.le_refl _))

theorem sits (h : Nested lo hi nodes) : ∀ n ∈ nodes, n.Sits lo hi := by
  induction h with
  | nil => exact List.forall_mem_nil _
  | @cons lo hi n rest starts some nested proper later _ ih =>
    refine List.forall_mem_cons.2 ⟨⟨starts, some, later.le, nested, proper⟩, fun m mem => ?_⟩
    exact (ih m mem).widen (by omega) (Nat.le_refl _)

/-- Of nodes side by side each ends before the next one starts. -/
theorem pairwise (h : Nested lo hi nodes) :
    nodes.Pairwise fun first second => first.span.stop ≤ second.span.start := by
  induction h with
  | nil => exact .nil
  | cons _ _ _ _ later _ ih => exact .cons (fun m mem => (later.sits m mem).starts) ih

/-- Nodes inside of nodes stand where those do. -/
theorem all_sits (h : Nested lo hi nodes) : ∀ m ∈ nodes.flatMap Node.all, m.Sits lo hi := by
  induction h with
  | nil => exact List.forall_mem_nil _
  | @cons lo hi n rest starts some nested proper later inner ih =>
    have here : n.Sits lo hi := ⟨starts, some, later.le, nested, proper⟩
    rw [List.flatMap_cons, Node.all_eq, List.cons_append, List.forall_mem_cons,
      List.forall_mem_append]
    refine ⟨here, fun m mem => ?_, fun m mem => ?_⟩
    · exact (inner m mem).widen starts later.le
    · exact (ih m mem).widen (by omega) (Nat.le_refl _)

/-- No node inside of another takes all of its range. -/
theorem span_ne {n m : Node} (h : n.Sits lo hi) (mem : m ∈ n.inner.flatMap Node.all) :
    m.span ≠ n.span := by
  obtain ⟨child, isChild, mem⟩ := List.mem_flatMap.1 mem
  rw [Node.all_eq, List.mem_cons] at mem
  rcases mem with rfl | mem
  · exact h.proper m isChild
  · intro same
    have outer := h.nested.sits child isChild
    have inner := outer.nested.all_sits m mem
    -- The node in between would take all of the range, too.
    apply h.proper child isChild
    have starts := outer.starts
    have stops := outer.stops
    have innerStarts := inner.starts
    have innerStops := inner.stops
    rw [same] at innerStarts innerStops
    exact Span.ext (by omega) (by omega)

/-- No two nodes have the same range. -/
theorem nodup (h : Nested lo hi nodes) : ((nodes.flatMap Node.all).map Node.span).Nodup := by
  induction h with
  | nil => exact List.nodup_nil
  | @cons lo hi n rest starts some nested proper later inner ih =>
    have here : n.Sits lo hi := ⟨starts, some, later.le, nested, proper⟩
    rw [List.flatMap_cons, Node.all_eq, List.cons_append, List.map_cons, List.map_append,
      List.nodup_cons, List.nodup_append, List.mem_append]
    refine ⟨?_, inner, ih, ?_⟩
    · rintro (mem | mem)
      · obtain ⟨m, within, same⟩ := List.mem_map.1 mem
        exact span_ne here within same
      · obtain ⟨m, after, same⟩ := List.mem_map.1 mem
        have := (later.all_sits m after).starts
        rw [same] at this
        omega
    · intro s first t second same
      obtain ⟨m, within, rfl⟩ := List.mem_map.1 first
      obtain ⟨other, after, rfl⟩ := List.mem_map.1 second
      have inside := nested.all_sits m within
      have outside := later.all_sits other after
      have := inside.nonempty
      have := inside.stops
      have := outside.starts
      rw [← same] at this
      omega

end Nested

theorem Laid.nested {Own : Node → List Token → Prop} {nodes : List Node} {ts : List Token}
    {lo hi : Nat} (h : Laid Own nodes ts) (spaced : Spaced lo hi ts)
    (each : ∀ n ∈ nodes, ∀ own, Own n own → Ordered own →
      own ≠ [] ∧ n.Sits (spanOf own).start (spanOf own).stop) : Nested lo hi nodes := by
  induction h generalizing lo with
  | nil => exact .nil spaced.le
  | @cons n rest before own after here _ ih =>
    obtain ⟨first, outside, spaced⟩ := spaced.split
    obtain ⟨second, inside, spaced⟩ := spaced.split
    obtain ⟨here, others⟩ := List.forall_mem_cons.1 each
    obtain ⟨some, sits⟩ := here own ‹_› ⟨first, second, inside⟩
    have range := inside.range some
    have sits := sits.widen (Nat.le_trans outside.le range.1) range.2.2.1
    exact .of_sits sits (ih spaced others)

theorem TemplateHole.ListWrittenBy.nested {list : List TemplateHole} {holes : List Hole}
    (h : ListWrittenBy list holes) (leveled : AllLeveled list) {lo hi : Nat}
    (spaced : HolesSpaced lo hi holes)
    (each : ∀ hole ∈ list, ∀ own, Node.WrittenBy (.expression hole.value) own → Ordered own →
      own ≠ [] ∧ (Node.expression hole.value).Sits (spanOf own).start (spanOf own).stop) :
    Nested lo hi (list.map fun hole => .expression hole.value) := by
  match h, spaced with
  | .nil, .nil le => exact .nil le
  | @cons _ ts stop _ _ _ holes written rest, spaced =>
    generalize whole : ts ++ [Token.mk .eof stop] = tokens at spaced
    cases spaced with
    | cons front later =>
      obtain ⟨rfl, -⟩ := List.append_inj' whole rfl
      obtain ⟨here, others⟩ := List.forall_mem_cons.1 each
      obtain ⟨some, sits⟩ := here ts (.expression written leveled.1) ⟨_, _, front⟩
      have range := front.range some
      exact .of_sits (sits.widen range.1 range.2.2.1) (rest.nested leveled.2 later others)

/-- Where the nodes inside of a node are. -/
theorem Node.WrittenBy.sits {n : Node} {ts : List Token} (h : n.WrittenBy ts)
    (ordered : Ordered ts) : n.Sits (spanOf ts).start (spanOf ts).stop := by
  have same := h.span_eq ordered
  obtain ⟨lo, hi, spaced⟩ := ordered
  obtain ⟨-, some, -, spaced⟩ := spaced.range h.ne_nil
  suffices inside : Nested (spanOf ts).start (spanOf ts).stop n.inner ∧
      ∀ child ∈ n.inner, child.span ≠ spanOf ts by
    obtain ⟨nested, proper⟩ := inside
    rw [← same] at some nested proper ⊢
    exact ⟨Nat.le_refl _, some, Nat.le_refl _, nested, proper⟩
  have each : ∀ child ∈ n.inner, ∀ own, child.WrittenBy own → Ordered own →
      own ≠ [] ∧ child.Sits (spanOf own).start (spanOf own).stop := by
    intro child mem own written ordered
    have := sizeOf_lt_of_mem_inner mem
    exact ⟨written.ne_nil, written.sits ordered⟩
  rcases h.inner_laid with laid | ⟨span, head, list, holes, s, rfl, rfl, listed, leveled⟩
  · refine ⟨laid.nested spaced fun child mem own written => each child mem own written.1, ?_⟩
    intro child mem same
    obtain ⟨own, side, written, fewer⟩ := laid.exists_of_mem mem
    have ordered : Ordered ts := ⟨_, _, spaced⟩
    rw [written.span_eq (ordered.among side)] at same
    exact spanOf_ne ordered side fewer written.ne_nil same
  · rw [spanOf_one ⟨_, _, spaced⟩] at some ⊢
    cases spaced with
    | cons _ _ holesSpaced _ =>
      -- The marks around the interpolations of a template belong to none of them.
      have nested : Nested (s.start + 1) (s.stop - 1) (Expr.template span head list).inner :=
        listed.nested leveled (holesSpaced _ _ rfl) fun hole mem =>
          each _ (List.mem_map.2 ⟨hole, mem, rfl⟩)
      refine ⟨nested.mono (Nat.le_succ _) (Nat.sub_le _ _), fun child mem same => ?_⟩
      have starts := (nested.sits child mem).starts
      rw [same] at starts
      omega
termination_by sizeOf n

/-- To record a type for one place leaves those of all others as they are. -/
theorem TypeTable.typeAt_record_of_ne {table : TypeTable} {file other : Nat} {span place : Span}
    {type : Ty} (ne : span ≠ place ∨ file ≠ other) :
    (table.record file span type).typeAt other place = table.typeAt other place := by
  have differ : ((other, place) == (file, span)) = false := by
    rw [beq_eq_false_iff_ne]
    rintro same
    obtain ⟨rfl, rfl⟩ := Prod.mk.inj same
    exact ne.elim (absurd rfl) (absurd rfl)
  rw [typeAt, record, List.lookup_cons, differ]
  rfl

namespace Program

/-- The outermost nodes of a program that was read from a source text do not overlap. -/
theorem exists_nested {source : String} {base : Nat} {tokens : List Token} {program : Program}
    (lexed : tokenize source base = .ok tokens) (parsed : ofTokens tokens = .ok program) :
    ∃ lo hi, Nested lo hi program.outerNodes := by
  obtain ⟨front, -, ⟨lo, hi, spaced⟩, laid⟩ := exists_front lexed parsed
  refine ⟨lo, hi, laid.nested spaced fun _ _ _ written ordered => ?_⟩
  exact ⟨written.ne_nil, written.sits ordered⟩

/-- The nodes of a program are told apart by their ranges. -/
structure ToldApart (tokens : List Token) (program : Program) : Prop where
  nonempty : ∀ n ∈ program.nodes, n.span.start < n.span.stop
  starts : ∀ n ∈ program.nodes, ∃ token ∈ allTokens tokens, token.span.start = n.span.start
  stops : ∀ n ∈ program.nodes, ∃ token ∈ allTokens tokens, token.span.stop = n.span.stop
  contains : ∀ n ∈ program.nodes, ∀ m ∈ n.all,
    n.span.start ≤ m.span.start ∧ m.span.stop ≤ n.span.stop
  /-- Nodes next to each other do not overlap, neither inside of a node nor outside of all. -/
  apart : ∀ n ∈ program.nodes,
    n.inner.Pairwise fun first second => first.span.stop ≤ second.span.start
  outerApart : program.outerNodes.Pairwise fun first second => first.span.stop ≤ second.span.start
  distinct : (program.nodes.map Node.span).Nodup
  /-- To record a type for one node leaves the types of all others as they are. -/
  kept : ∀ (table : TypeTable) (file : Nat) (type : Ty),
    program.nodes.Pairwise fun first second =>
      (table.record file first.span type).typeAt file second.span = table.typeAt file second.span ∧
      (table.record file second.span type).typeAt file first.span = table.typeAt file first.span

/-- Each node of a program that was read from a source text has a range of its own. -/
theorem nodes_toldApart {source : String} {base : Nat} {tokens : List Token} {program : Program}
    (lexed : tokenize source base = .ok tokens) (parsed : ofTokens tokens = .ok program) :
    program.ToldApart tokens := by
  obtain ⟨front, -, ⟨lo, hi, spaced⟩, laid⟩ := exists_front lexed parsed
  have nested : Nested lo hi program.outerNodes :=
    laid.nested spaced fun _ _ _ written ordered => ⟨written.ne_nil, written.sits ordered⟩
  have sits := nested.all_sits
  have distinct := nested.nodup
  have ends {n : Node} (mem : n ∈ program.nodes) :
      (∃ token ∈ allTokens tokens, token.span.start = n.span.start) ∧
        ∃ token ∈ allTokens tokens, token.span.stop = n.span.stop := by
    obtain ⟨own, within, ordered, written⟩ := node_writtenBy lexed parsed mem
    obtain ⟨⟨first, isFirst, starts⟩, last, isLast, stops⟩ := spanOf_ends ordered written.ne_nil
    rw [written.span_eq ordered]
    exact ⟨⟨first, within.mem isFirst, starts⟩, last, within.mem isLast, stops⟩
  exact {
    nonempty := fun n mem => (sits n mem).nonempty
    starts := fun n mem => (ends mem).1
    stops := fun n mem => (ends mem).2
    contains := fun n mem m inside => by
      rw [Node.all_eq, List.mem_cons] at inside
      rcases inside with rfl | inside
      · exact ⟨Nat.le_refl _, Nat.le_refl _⟩
      · have within := (sits n mem).nested.all_sits m inside
        exact ⟨within.starts, within.stops⟩
    apart := fun n mem => (sits n mem).nested.pairwise
    outerApart := nested.pairwise
    distinct := distinct
    kept := fun table file type => (List.pairwise_map.1 distinct).imp fun ne =>
      ⟨TypeTable.typeAt_record_of_ne (.inl ne), TypeTable.typeAt_record_of_ne (.inl ne.symm)⟩ }

/-- A variable, its type in parentheses, a template, an object inside of it, and a shorthand name. -/
theorem shorthand_in_template_toldApart : ∃ tokens program,
    tokenize "let x:(T)=\x60$\x7b\x7ba\x7d\x7d\x60" 0 = .ok tokens ∧
      ofTokens tokens = .ok program ∧
      program.nodes.map Node.span = [⟨4, 18⟩, ⟨6, 9⟩, ⟨10, 18⟩, ⟨13, 16⟩, ⟨14, 15⟩] ∧
      program.ToldApart tokens := by
  have lexed : tokenize "let x:(T)=\x60$\x7b\x7ba\x7d\x7d\x60" 0 = .ok
      [.mk (.keyword .letWord) ⟨0, 3⟩, .mk (.ident "x") ⟨4, 5⟩, .mk (.punctuation .colon) ⟨5, 6⟩,
        .mk (.punctuation .leftParen) ⟨6, 7⟩, .mk (.ident "T") ⟨7, 8⟩,
        .mk (.punctuation .rightParen) ⟨8, 9⟩, .mk (.operator .assign) ⟨9, 10⟩,
        .mk (.template "" [.mk [.mk (.punctuation .leftBrace) ⟨13, 14⟩, .mk (.ident "a") ⟨14, 15⟩,
          .mk (.punctuation .rightBrace) ⟨15, 16⟩, .mk .eof ⟨16, 16⟩] ⟨13, 16⟩ ""]) ⟨10, 18⟩,
        .mk .eof ⟨18, 18⟩] := by cbv
  refine ⟨_, [.«variables» ⟨0, 18⟩ ⟨.letWord, [⟨⟨4, 18⟩, ⟨"x", ⟨4, 5⟩⟩, some (.named ⟨6, 9⟩ "T" []),
    some (.template ⟨10, 18⟩ "" [.mk (.object ⟨13, 16⟩ [.shorthand ⟨14, 15⟩ ⟨"a", ⟨14, 15⟩⟩]) ""])⟩]⟩],
    lexed, by cbv, by cbv, ?_⟩
  exact nodes_toldApart lexed (by cbv)

end Program

end ScriptToGo
