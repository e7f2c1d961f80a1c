import ScriptToGo.Proofs.Grammar.Passage
import ScriptToGo.Proofs.Token.Coverage

/-! Where tokens stand among each other, and the ranges of those that stand side by side. -/
namespace ScriptToGo
open Text (byteLength byteLength_append)

mutual

/-- Tokens stand one after the other between two offsets. Each takes some bytes, and what it holds
stands inside of it. -/
inductive Spaced : Nat → Nat → List Token → Prop
  | nil {lo hi} : lo ≤ hi → Spaced lo hi []
  | cons {lo hi kind s rest} : lo ≤ s.start → s.start < s.stop →
      (∀ head holes, kind = .template head holes → HolesSpaced (s.start + 1) (s.stop - 1) holes) →
      Spaced s.stop hi rest → Spaced lo hi (.mk kind s :: rest)

/-- The tokens of interpolations, but for the end of the text of each. -/
inductive HolesSpaced : Nat → Nat → List Hole → Prop
  | nil {lo hi} : lo ≤ hi → HolesSpaced lo hi []
  | cons {lo mid hi tokens stop span after holes} : Spaced lo mid tokens →
      HolesSpaced mid hi holes →
      HolesSpaced lo hi (.mk (tokens ++ [.mk .eof stop]) span after :: holes)

end

namespace Spaced

variable {lo hi : Nat} {tokens first second : List Token}

theorem le (h : Spaced lo hi tokens) : lo ≤ hi := by
  induction tokens generalizing lo with
  | nil => cases h with | nil le => exact le
  | cons token rest ih =>
    cases h with
    | cons starts some _ later =>
      have := ih later
      omega

theorem mono {lower upper : Nat} (h : Spaced lo hi tokens) (below : lower ≤ lo)
    (above : hi ≤ upper) : Spaced lower upper tokens := by
  induction tokens generalizing lo lower with
  | nil => cases h with | nil le => exact .nil (by omega)
  | cons token rest ih =>
    cases h with
    | cons starts some holes later =>
      exact .cons (Nat.le_trans below starts) some holes (ih later (Nat.le_refl _))

theorem split (h : Spaced lo hi (first ++ second)) :
    ∃ mid, Spaced lo mid first ∧ Spaced mid hi second := by
  induction first generalizing lo with
  | nil => exact ⟨lo, .nil (Nat.le_refl _), h⟩
  | cons token rest ih =>
    cases h with
    | cons starts some holes others =>
      obtain ⟨mid, before, after⟩ := ih others
      exact ⟨mid, .cons starts some holes before, after⟩

end Spaced

/-- Tokens stand in order, wherever that is. -/
def Ordered (tokens : List Token) : Prop := ∃ lo hi, Spaced lo hi tokens

namespace Ordered

variable {first second tokens own : List Token}

theorem left (h : Ordered (first ++ second)) : Ordered first := by
  obtain ⟨lo, hi, spaced⟩ := h
  obtain ⟨mid, before, -⟩ := spaced.split
  exact ⟨lo, mid, before⟩

theorem right (h : Ordered (first ++ second)) : Ordered second := by
  obtain ⟨lo, hi, spaced⟩ := h
  obtain ⟨mid, -, after⟩ := spaced.split
  exact ⟨mid, hi, after⟩

theorem tail {token : Token} (h : Ordered (token :: tokens)) : Ordered tokens := by
  have split : Ordered ([token] ++ tokens) := h
  exact split.right

theorem among (h : Ordered tokens) (side : own <:+: tokens) : Ordered own := by
  obtain ⟨before, after, rfl⟩ := side
  exact h.left.right

end Ordered

section

variable {lo hi : Nat} {tokens first second : List Token}

theorem spanOf_one {kind : TokenKind} {s : Span} (h : Ordered [.mk kind s]) :
    spanOf [.mk kind s] = s := by
  obtain ⟨lo, hi, spaced⟩ := h
  cases spaced with
  | cons starts some _ _ =>
    rw [spanOf, lastSpan_nil]
    simp only [Token.span]
    rw [Nat.max_eq_left (Nat.le_of_lt some)]

/-- Tokens in order fill their range from its start to its end. -/
theorem Spaced.range (h : Spaced lo hi tokens) (some : tokens ≠ []) :
    lo ≤ (spanOf tokens).start ∧ (spanOf tokens).start < (spanOf tokens).stop ∧
      (spanOf tokens).stop ≤ hi ∧ Spaced (spanOf tokens).start (spanOf tokens).stop tokens := by
  induction tokens generalizing lo with
  | nil => exact absurd rfl some
  | cons token rest ih =>
    obtain ⟨kind, s⟩ := token
    cases rest with
    | nil =>
      rw [spanOf_one ⟨lo, hi, h⟩]
      cases h with
      | cons starts some holes later =>
        exact ⟨starts, some, later.le, .cons (Nat.le_refl _) some holes (.nil (Nat.le_refl _))⟩
    | cons next rest =>
      cases h with
      | cons starts some holes later =>
        obtain ⟨before, more, within, spaced⟩ := ih later (List.cons_ne_nil _ _)
        have stop : (spanOf (.mk kind s :: next :: rest)).stop = (spanOf (next :: rest)).stop := by
          simp only [spanOf, lastSpan_cons, Token.span] at before more ⊢
          omega
        have start : (spanOf (.mk kind s :: next :: rest)).start = s.start := rfl
        rw [start, stop]
        refine ⟨starts, by omega, within, .cons (Nat.le_refl _) some holes ?_⟩
        exact spaced.mono before (Nat.le_refl _)

/-- The range of tokens in order goes from the start of those in front to the end of the last. -/
theorem spanOf_append (h : Ordered (first ++ second)) (some : first ≠ []) (more : second ≠ []) :
    spanOf (first ++ second) = ⟨(spanOf first).start, (spanOf second).stop⟩ := by
  obtain ⟨lo, hi, spaced⟩ := h
  obtain ⟨token, rest, rfl⟩ := List.exists_cons_of_ne_nil some
  obtain ⟨next, others, rfl⟩ := List.exists_cons_of_ne_nil more
  obtain ⟨mid, before, after⟩ := spaced.split
  have first := before.range some
  have second := after.range more
  have whole := spaced.range (List.cons_ne_nil _ _)
  simp only [List.cons_append, spanOf, lastSpan_append, lastSpan_cons] at first second whole ⊢
  congr 1
  omega

theorem stop_append (h : Ordered (first ++ second)) (some : second ≠ []) :
    (spanOf (first ++ second)).stop = (spanOf second).stop := by
  cases first with
  | nil => rfl
  | cons token rest => rw [spanOf_append h (List.cons_ne_nil _ _) some]

/-- Tokens in order start where one of them starts, and end where one of them ends. -/
theorem spanOf_ends (h : Ordered tokens) (some : tokens ≠ []) :
    (∃ token ∈ tokens, token.span.start = (spanOf tokens).start) ∧
      ∃ token ∈ tokens, token.span.stop = (spanOf tokens).stop := by
  constructor
  · obtain ⟨token, rest, rfl⟩ := List.exists_cons_of_ne_nil some
    exact ⟨token, List.mem_cons_self, rfl⟩
  · obtain ⟨rest, ⟨kind, s⟩, rfl⟩ := (List.eq_nil_or_concat tokens).resolve_left some
    rw [List.concat_eq_append] at h ⊢
    refine ⟨.mk kind s, by simp, ?_⟩
    rw [stop_append h (List.cons_ne_nil _ _), spanOf_one h.right]
    rfl

/-- Ranges on either side of what is in order cover all of it. -/
theorem cover_spanOf (mid : List Token) (h : Ordered (first ++ (mid ++ second)))
    (some : first ≠ []) (more : second ≠ []) :
    (spanOf first).cover (spanOf second) = spanOf (first ++ (mid ++ second)) := by
  have later : mid ++ second ≠ [] := by simp [more]
  rw [spanOf_append h some later, stop_append h.right more]
  obtain ⟨lo, hi, spaced⟩ := h
  obtain ⟨_, before, after⟩ := spaced.split
  obtain ⟨_, between, after⟩ := after.split
  have first := before.range some
  have second := after.range more
  have between := between.le
  rw [Span.cover, Nat.min_eq_left (by omega), Nat.max_eq_right (by omega)]

theorem cover_last (mid : List Token) {kind : TokenKind} {s : Span}
    (h : Ordered (first ++ (mid ++ [.mk kind s]))) (some : first ≠ []) :
    (spanOf first).cover s = spanOf (first ++ (mid ++ [.mk kind s])) := by
  have covered := cover_spanOf mid h some (List.cons_ne_nil _ _)
  rwa [spanOf_one h.right.right] at covered

/-- Fewer tokens have another range. -/
theorem spanOf_ne {own : List Token} (h : Ordered tokens) (side : own <:+: tokens)
    (fewer : own.length < tokens.length) (some : own ≠ []) : spanOf own ≠ spanOf tokens := by
  obtain ⟨before, after, rfl⟩ := side
  obtain ⟨lo, hi, spaced⟩ := h
  obtain ⟨_, front, later⟩ := spaced.split
  obtain ⟨_, first, here⟩ := front.split
  have own := here.range some
  intro same
  by_cases last : after = []
  · subst last
    rw [List.append_nil] at same
    have others : before ≠ [] := by
      rintro rfl
      simp at fewer
    rw [spanOf_append ⟨lo, _, front⟩ others some] at same
    have first := first.range others
    have starts := congrArg Span.start same
    dsimp only at starts
    omega
  · have stops := congrArg Span.stop same
    rw [stop_append ⟨lo, hi, spaced⟩ last] at stops
    have later := later.range last
    omega

end

/-- The interpolations of a template are in order if the tokens of each are. -/
theorem Interleaved.holesSpaced {pos : Nat} {cs head : List Char} {parts : List (List Char × Hole)}
    (h : Interleaved pos cs head parts)
    (inside : ∀ part ∈ parts, ∃ front stop, part.2.tokens = front ++ [.mk .eof stop] ∧
      Spaced part.2.span.start (part.2.span.start + byteLength part.1) front) :
    HolesSpaced pos (pos + byteLength cs - 1) (parts.map Prod.snd) := by
  induction h with
  | @close pos raw head same =>
    have backtick : byteLength ['\x60'] = 1 := by decide
    rw [byteLength_append, backtick]
    exact .nil (by omega)
  | @hole pos raw head chars tokens after text parts same later ih =>
    obtain ⟨⟨front, stop, whole, spaced⟩, others⟩ := List.forall_mem_cons.1 inside
    have size := byteLength_opening raw chars text
    have whole : tokens = front ++ [.mk .eof stop] := whole
    subst whole
    simp only [Hole.span] at spaced
    have rest := ih others
    rw [size]
    refine .cons (spaced.mono (by omega) (Nat.le_succ _)) ?_
    rwa [show pos + (byteLength raw + 2 + byteLength chars + 1 + byteLength text) - 1
      = pos + byteLength raw + 2 + byteLength chars + 1 + byteLength text - 1 by omega]

theorem Tiles.spaced {pos : Nat} {cs : List Char} {tokens : List Token} (h : Tiles pos cs tokens) :
    ∃ front stop, tokens = front ++ [.mk .eof stop] ∧ Spaced pos (pos + byteLength cs) front := by
  induction h with
  | eof => exact ⟨[], _, rfl, .nil (Nat.le_add_right _ _)⟩
  | @token pos gap lexeme after kind parts tokens blank some written _ _ insides others =>
    obtain ⟨front, stop, rfl, spaced⟩ := others
    refine ⟨.mk kind _ :: front, stop, rfl, .cons (Nat.le_add_right _ _) ?_ ?_ ?_⟩
    · exact Nat.lt_add_of_pos_right (byteLength_pos some)
    · rintro head holes rfl
      cases written with
      | spelled spelled => cases spelled.spelling
      | @template head text parts whole interleaved =>
        have backtick : ('\x60').utf8Size = 1 := by decide
        have holes := interleaved.holesSpaced insides
        subst whole
        dsimp only
        rw [byteLength, backtick]
        rwa [show pos + byteLength gap + (1 + byteLength text) - 1
          = pos + byteLength gap + 1 + byteLength text - 1 by omega]
    · rw [byteLength_append, byteLength_append, ← Nat.add_assoc, ← Nat.add_assoc]
      exact spaced

theorem ordered_of_tokenize {source : String} {base : Nat} {tokens : List Token}
    (h : tokenize source base = .ok tokens) :
    ∃ front stop, tokens = front ++ [.mk .eof stop] ∧ Ordered front := by
  obtain ⟨front, stop, whole, spaced⟩ := (tiles_of_tokenize h).1.spaced
  exact ⟨front, stop, whole, _, _, spaced⟩

end ScriptToGo
