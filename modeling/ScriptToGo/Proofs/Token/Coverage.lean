import Mathlib
import ScriptToGo.Proofs.Token.Shift
import ScriptToGo.Proofs.Token.Tiling

/-! What a tiling of a source text says about each of its tokens. -/

-- All of Mathlib, here and in what builds on this: `cbv` finds the equations of the library's
-- functions there, and states none of them anew.

namespace ScriptToGo
open Text (IsBoundary StandsAt byteLength byteLength_append)

variable {base pos : Nat} {text cs lexeme after : List Char} {kind : TokenKind} {tokens : List Token}
  {parts : List (List Char × Hole)}

theorem Writes.kind_ne_eof (h : Writes pos lexeme after kind parts) : kind ≠ .eof := by
  cases h with
  | spelled spelled =>
    rintro rfl
    cases spelled.spelling
  | string => exact TokenKind.noConfusion
  | template => exact TokenKind.noConfusion

/-- The tokens inside of a token are those of its interpolations. -/
theorem Writes.mem_inner (h : Writes pos lexeme after kind parts) {token : Token}
    (mem : token ∈ kind.inner) : ∃ part ∈ parts, token ∈ allTokens part.2.tokens := by
  cases h with
  | spelled spelled =>
    have plain : kind.inner = [] := by
      apply TokenKind.inner_of_plain
      rintro head holes rfl
      cases spelled.spelling
    rw [plain] at mem
    cases mem
  | string => cases mem
  | template =>
    obtain ⟨hole, among, inside⟩ := mem_innerTokens.1 mem
    obtain ⟨part, isPart, rfl⟩ := List.mem_map.1 among
    exact ⟨part, isPart, inside⟩

theorem byteLength_opening (raw chars rest : List Char) :
    byteLength (raw ++ '$' :: '\x7b' :: chars ++ '\x7d' :: rest)
      = byteLength raw + 2 + byteLength chars + 1 + byteLength rest := by
  have marks : ('$').utf8Size = 1 ∧ ('\x7b').utf8Size = 1 ∧ ('\x7d').utf8Size = 1 := by decide
  rw [byteLength_append, byteLength_append, byteLength, byteLength, byteLength]
  omega

namespace Interleaved

variable {head : List Char}

/-- The characters between the braces of an interpolation stand where its span says. -/
theorem stands {place : Nat} (h : Interleaved pos cs head parts) (offset : pos = base + place)
    (stands : StandsAt text place cs) :
    ∀ part ∈ parts, ∃ inner, part.2.span.start = base + inner ∧ StandsAt text inner part.1 := by
  induction h generalizing place with
  | close => exact List.forall_mem_nil _
  | @hole pos raw head chars tokens next rest parts same later ih =>
    have opened : StandsAt text (place + byteLength raw + 2) (chars ++ '\x7d' :: rest) := by
      rw [List.append_assoc] at stands
      exact (stands.skip.tail_ascii (by decide)).tail_ascii (by decide)
    have closed := opened.skip.tail_ascii (by decide)
    refine List.forall_mem_cons.2 ⟨⟨_, ?_, opened.front⟩, ih ?_ closed⟩
    · simp only [Hole.span, offset, Nat.add_assoc]
    · simp only [offset, Nat.add_assoc]

/-- Interpolations are inside of their template. -/
theorem inside (h : Interleaved pos cs head parts) :
    ∀ part ∈ parts, pos < part.2.span.start ∧ part.2.span.start ≤ part.2.span.stop ∧
      part.2.span.stop < pos + byteLength cs := by
  induction h with
  | close => exact List.forall_mem_nil _
  | @hole pos raw head chars tokens next rest parts same later ih =>
    have size := byteLength_opening raw chars rest
    rw [List.forall_mem_cons]
    refine ⟨?_, fun part mem => ?_⟩
    · simp only [Hole.span]
      omega
    · have := ih part mem
      omega

end Interleaved

theorem Writes.stands {place : Nat} (h : Writes (base + place) lexeme after kind parts)
    (stands : StandsAt text place lexeme) :
    ∀ part ∈ parts, ∃ inner, part.2.span.start = base + inner ∧ StandsAt text inner part.1 := by
  cases h with
  | spelled => exact List.forall_mem_nil _
  | string => exact List.forall_mem_nil _
  | template whole interleaved =>
    subst whole
    exact interleaved.stands (Nat.add_assoc ..) (stands.tail_ascii (by decide))

/-- A token stands in a text, whose offsets are counted from `base`, as it is written. -/
def Token.Stands (text : List Char) (base : Nat) (token : Token) : Prop :=
  ∃ place lexeme after, StandsAt text place (lexeme ++ after) ∧
    token.span = ⟨base + place, base + place + byteLength lexeme⟩ ∧
    (token.kind = .eof ∧ lexeme = [] ∨
      lexeme ≠ [] ∧ ∃ parts, Writes (base + place) lexeme after token.kind parts)

namespace Tiles

/-- The tokens of a tiling, and those inside of them, stand where their spans say. -/
theorem stands {place : Nat} (h : Tiles pos cs tokens) (offset : pos = base + place)
    (stands : StandsAt text place cs) : ∀ token ∈ allTokens tokens, token.Stands text base := by
  induction h generalizing place with
  | @eof pos gap blank =>
    intro token mem
    obtain rfl := List.mem_singleton.1 mem
    rw [← List.append_nil gap] at stands
    refine ⟨place + byteLength gap, [], [], stands.skip, ?_, .inl ⟨rfl, rfl⟩⟩
    rw [offset, Nat.add_assoc]
    rfl
  | @token pos gap lexeme after kind parts tokens blank some written inside tail later others =>
    have here := stands.skip
    rw [allTokens, Token.all, List.cons_append, List.forall_mem_cons, List.forall_mem_append]
    rw [offset, Nat.add_assoc base] at written others ⊢
    refine ⟨⟨_, lexeme, after, here, rfl, .inr ⟨some, parts, written⟩⟩, ?_, ?_⟩
    · intro token mem
      obtain ⟨part, isPart, inPart⟩ := written.mem_inner mem
      obtain ⟨inner, starts, standsInner⟩ := written.stands here.front part isPart
      exact later part isPart starts standsInner token inPart
    · exact others (Nat.add_assoc ..) here.skip

theorem exists_eof (h : Tiles pos cs tokens) :
    ∃ front, tokens = front ++ [.mk .eof ⟨pos + byteLength cs, pos + byteLength cs⟩] ∧
      ∀ token ∈ front, token.kind ≠ .eof := by
  induction h with
  | eof => exact ⟨[], rfl, List.forall_mem_nil _⟩
  | @token pos gap lexeme after kind parts tokens blank some written inside later insides others =>
    obtain ⟨front, rfl, kinds⟩ := others
    rw [byteLength_append, byteLength_append, ← Nat.add_assoc, ← Nat.add_assoc]
    exact ⟨_, (List.cons_append ..).symm, List.forall_mem_cons.2 ⟨written.kind_ne_eof, kinds⟩⟩

/-- Each token ends before the next one starts. -/
theorem ordered (h : Tiles pos cs tokens) :
    (∀ token ∈ tokens, pos ≤ token.span.start) ∧
      tokens.Pairwise fun first second => first.span.stop ≤ second.span.start := by
  induction h with
  | eof => exact ⟨by simp [Token.span], List.pairwise_singleton _ _⟩
  | @token pos gap lexeme after kind parts tokens blank some written inside later insides others =>
    obtain ⟨above, pairs⟩ := others
    refine ⟨List.forall_mem_cons.2 ⟨?_, fun token mem => ?_⟩, List.pairwise_cons.2 ⟨above, pairs⟩⟩
    · simp only [Token.span]
      omega
    · have := above token mem
      omega

end Tiles

/-- Where a token, counted from `base` on, stands in a source file. -/
structure Token.Placed (source : String) (base : Nat) (token : Token) : Prop where
  within : base ≤ token.span.start
  starts : IsBoundary source (token.span.start - base)
  stops : IsBoundary source (token.span.stop - base)
  nonempty : token.kind ≠ .eof → token.span.start < token.span.stop
  encloses : ∀ head holes, token.kind = .template head holes → ∀ hole ∈ holes,
    token.span.start < hole.span.start ∧ hole.span.start ≤ hole.span.stop ∧
      hole.span.stop < token.span.stop

/-- How a template encloses its interpolations, from the way in which it is written. -/
theorem Writes.encloses (h : Writes pos lexeme after kind parts) {head : String} {holes : List Hole}
    (is : kind = .template head holes) : ∀ hole ∈ holes, pos < hole.span.start ∧
      hole.span.start ≤ hole.span.stop ∧ hole.span.stop < pos + byteLength lexeme := by
  cases h with
  | spelled spelled =>
    subst is
    cases spelled.spelling
  | string => cases is
  | template whole interleaved =>
    obtain ⟨rfl, rfl⟩ := TokenKind.template.inj is
    subst whole
    intro hole mem
    obtain ⟨part, isPart, rfl⟩ := List.mem_map.1 mem
    have inside := interleaved.inside part isPart
    have backtick : ('\x60').utf8Size = 1 := by decide
    rw [byteLength]
    omega

theorem byteLength_pos (some : lexeme ≠ []) : 0 < byteLength lexeme := by
  cases lexeme with
  | nil => exact absurd rfl some
  | cons c rest =>
    have := c.utf8Size_pos
    rw [byteLength]
    omega

theorem Token.Stands.placed {source : String} {token : Token} (h : token.Stands source.toList base) :
    token.Placed source base := by
  obtain ⟨place, lexeme, after, stands, span, written⟩ := h
  have starts : token.span.start = base + place := by rw [span]
  have stops : token.span.stop = base + place + byteLength lexeme := by rw [span]
  refine ⟨?_, ?_, ?_, fun notEof => ?_, fun head holes is hole mem => ?_⟩
  · omega
  · rw [starts, Nat.add_sub_cancel_left]
    exact stands.isBoundary
  · rw [stops, Nat.add_assoc, Nat.add_sub_cancel_left]
    exact stands.skip.isBoundary
  · rcases written with ⟨eof, -⟩ | ⟨some, -⟩
    · exact absurd eof notEof
    · have := byteLength_pos some
      omega
  · rcases written with ⟨eof, -⟩ | ⟨-, parts, written⟩
    · rw [is] at eof
      cases eof
    · rw [starts, stops]
      exact written.encloses is hole mem

theorem tokenize_eq_ok_iff {source : String} {base : Nat} {tokens : List Token} :
    tokenize source base = .ok tokens ↔
      (lexFrom base source.toList).errors = [] ∧ (lexFrom base source.toList).tokens = tokens := by
  rw [tokenize]
  split
  next clean => simp [List.isEmpty_iff.1 clean]
  next errors =>
    rw [List.isEmpty_iff] at errors
    simp [errors]

/-- A source text is cut in the same way wherever its offsets begin. -/
theorem tokenize_shift (source : String) (base : Nat) :
    tokenize source base = match tokenize source 0 with
      | .ok tokens => .ok (tokens.map (Token.shift base))
      | .error errors => .error (errors.map (SyntaxError.shift base)) := by
  have moved := lexFrom_shift base 0 source.toList
  rw [Nat.zero_add] at moved
  rw [tokenize, tokenize, moved]
  cases is : (lexFrom 0 source.toList).errors with
  | nil => simp [Lexed.shift, is]
  | cons error errors => simp [Lexed.shift, is]

theorem tiles_of_tokenize {source : String} {base : Nat} {tokens : List Token}
    (h : tokenize source base = .ok tokens) :
    Tiles base source.toList tokens ∧ ∀ token ∈ allTokens tokens, token.Stands source.toList base := by
  obtain ⟨clean, rfl⟩ := tokenize_eq_ok_iff.1 h
  have tiles := lexFrom_tiles clean
  exact ⟨tiles, tiles.stands rfl (.start _)⟩

/-- The tokens of a source file, and the gaps between them, are the whole of it. -/
structure Covers (source : String) (base : Nat) (tokens : List Token) : Prop where
  tiles : Tiles base source.toList tokens
  eofLast : ∃ front,
    tokens = front ++ [.mk .eof ⟨base + source.utf8ByteSize, base + source.utf8ByteSize⟩] ∧
      ∀ token ∈ front, token.kind ≠ .eof
  ordered : tokens.Pairwise fun first second => first.span.stop ≤ second.span.start
  placed : ∀ token ∈ allTokens tokens, token.Placed source base

/-- A source text that has tokens is covered by them, wherever its offsets begin. -/
theorem tokens_cover {source : String} {plain : List Token} (h : tokenize source 0 = .ok plain)
    (base : Nat) : ∃ tokens, tokenize source base = .ok tokens ∧ Covers source base tokens := by
  have moved := tokenize_shift source base
  rw [h] at moved
  obtain ⟨tiles, stands⟩ := tiles_of_tokenize moved
  refine ⟨_, moved, tiles, ?_, tiles.ordered.2, fun token mem => (stands token mem).placed⟩
  rw [← Text.byteLength_toList]
  exact tiles.exists_eof

/-- A file with comments, symbols that touch, and a template with tokens inside of it. -/
theorem nested_template_covered :
    (∃ plain, tokenize "x/**/+=\x60é$\x7by>=.5\x7d\x60//z" 0 = .ok plain) ∧
      ∃ tokens, tokenize "x/**/+=\x60é$\x7by>=.5\x7d\x60//z" 40 = .ok tokens ∧
        Covers "x/**/+=\x60é$\x7by>=.5\x7d\x60//z" 40 tokens := by
  have h : tokenize "x/**/+=\x60é$\x7by>=.5\x7d\x60//z" 0 = .ok
      [.mk (.ident "x") ⟨0, 1⟩, .mk (.operator .plusAssign) ⟨5, 7⟩,
        .mk (.template "é" [.mk [.mk (.ident "y") ⟨12, 13⟩, .mk (.operator .greaterEq) ⟨13, 15⟩,
          .mk (.number ".5") ⟨15, 17⟩, .mk .eof ⟨17, 17⟩] ⟨12, 17⟩ ""]) ⟨7, 19⟩,
        .mk .eof ⟨22, 22⟩] := by cbv
  exact ⟨⟨_, h⟩, tokens_cover h 40⟩

end ScriptToGo
