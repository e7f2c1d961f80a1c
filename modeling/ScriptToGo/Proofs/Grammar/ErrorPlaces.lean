import ScriptToGo.Proofs.Grammar.Passage
import ScriptToGo.Proofs.Grammar.Program
import ScriptToGo.Proofs.Token.Coverage

/-! Where in a text its errors are, and how parsing goes on from them. -/
namespace ScriptToGo
open Text (byteLength byteLength_append)

/-- A range lies between two offsets. -/
structure Span.Within (span : Span) (first stop : Nat) : Prop where
  starts : first ≤ span.start
  ordered : span.start ≤ span.stop
  stops : span.stop ≤ stop

theorem Span.Within.widen {span : Span} {first stop first' stop' : Nat} (h : span.Within first stop)
    (starts : first' ≤ first) (stops : stop ≤ stop') : span.Within first' stop' :=
  ⟨Nat.le_trans starts h.starts, h.ordered, Nat.le_trans h.stops stops⟩

namespace Interleaved

variable {pos : Nat} {cs head : List Char} {parts : List (List Char × Hole)}

/-- An interpolation is as long as the text between its braces. -/
theorem stop_eq (h : Interleaved pos cs head parts) :
    ∀ part ∈ parts, part.2.span.stop = part.2.span.start + byteLength part.1 := by
  induction h with
  | close => exact List.forall_mem_nil _
  | hole _ _ ih => exact List.forall_mem_cons.2 ⟨rfl, ih⟩

end Interleaved

namespace Tiles

variable {pos : Nat} {cs : List Char} {tokens : List Token}

/-- Tokens lie in the text that they make up. -/
theorem within (h : Tiles pos cs tokens) :
    ∀ token ∈ tokens, token.span.Within pos (pos + byteLength cs) := by
  induction h with
  | eof => exact List.forall_mem_singleton.2 ⟨Nat.le_add_right .., Nat.le_refl _, Nat.le_refl _⟩
  | @token pos gap lexeme after kind parts tokens _ _ _ _ _ _ others =>
    rw [byteLength_append, byteLength_append]
    refine List.forall_mem_cons.2 ⟨⟨?_, ?_, ?_⟩, fun token mem => (others token mem).widen ?_ ?_⟩
    · exact Nat.le_add_right ..
    · exact Nat.le_add_right ..
    · simp only [Token.span]
      omega
    · omega
    · omega

/-- An interpolation lies in its template, and its tokens make up the text between its braces. -/
theorem hole (h : Tiles pos cs tokens) {head : String} {holes : List Hole} {span : Span}
    (template : .mk (.template head holes) span ∈ tokens) {hole : Hole} (mem : hole ∈ holes) :
    hole.span.Within span.start span.stop ∧ ∃ chars, Tiles hole.span.start chars hole.tokens ∧
      hole.span.start + byteLength chars = hole.span.stop := by
  induction h with
  | eof =>
    obtain ⟨⟨⟩, -⟩ := Token.mk.inj (List.mem_singleton.1 template)
  | token _ _ written inside _ _ others =>
    rcases List.mem_cons.1 template with same | later
    · obtain ⟨rfl, rfl⟩ := Token.mk.inj same
      obtain ⟨starts, ordered, stops⟩ := written.encloses rfl hole mem
      refine ⟨⟨Nat.le_of_lt starts, ordered, Nat.le_of_lt stops⟩, ?_⟩
      cases written with
      | spelled spelled => cases spelled.spelling
      | template _ interleaved =>
        obtain ⟨part, isPart, rfl⟩ := List.mem_map.1 mem
        exact ⟨part.1, inside part isPart, (interleaved.stop_eq part isPart).symm⟩
    · exact others later

/-- An interpolation of the template in front of a place lies in the text, and before the place. -/
theorem hole_ahead (h : Tiles pos cs tokens) {head : String} {holes : List Hole} {span : Span}
    {place : Cursor} (suffix : .mk (.template head holes) span :: place.rest <:+ tokens) {hole : Hole}
    (mem : hole ∈ holes) : hole.span.Within pos (pos + byteLength cs) ∧
      hole.span.stop ≤ place.start ∧ ∃ chars, Tiles hole.span.start chars hole.tokens ∧
        hole.span.start + byteLength chars = hole.span.stop := by
  have template : .mk (.template head holes) span ∈ tokens := suffix.subset List.mem_cons_self
  obtain ⟨inner, tiles⟩ := h.hole template mem
  have around := h.within _ template
  have pairs := h.ordered.2.sublist suffix.sublist
  have before : span.stop ≤ place.start := (List.pairwise_cons.1 pairs).1 _ place.peek_mem
  exact ⟨inner.widen around.starts around.stops, Nat.le_trans inner.stops before, tiles⟩

/-- What is left after some tokens makes up a text further on, which ends at the same offset. -/
theorem drop {front rest : List Token} (h : Tiles pos cs (front ++ rest)) (some : rest ≠ []) :
    ∃ next left, Tiles next left rest ∧ next + byteLength left = pos + byteLength cs ∧ pos ≤ next ∧
      ∀ token ∈ front, token.span.start < next := by
  induction front generalizing pos cs with
  | nil => exact ⟨pos, cs, h, rfl, Nat.le_refl _, List.forall_mem_nil _⟩
  | cons first front ih =>
    generalize whole : first :: front ++ rest = tokens at h
    cases h with
    | eof => exact absurd (List.append_eq_nil_iff.1 (List.cons.inj whole).2).2 some
    | @token _ gap lexeme after kind parts _ _ nonempty _ _ others =>
      obtain ⟨rfl, rfl⟩ := List.cons.inj whole
      obtain ⟨next, left, tiles, ends, later, before⟩ := ih others
      have longer := byteLength_pos nonempty
      rw [byteLength_append, byteLength_append]
      refine ⟨next, left, tiles, ?_, ?_, List.forall_mem_cons.2 ⟨?_, before⟩⟩
      · omega
      · omega
      · simp only [Token.span]
        omega

end Tiles

namespace ErrorIn

variable {tokens : List Token} {error : SyntaxError} {place : Cursor}

/-- An error lies in the text that the tokens make up, and does not start after the place where it
is noticed. -/
theorem within {pos : Nat} {cs : List Char} (h : ErrorIn tokens error place)
    (tiles : Tiles pos cs tokens) :
    error.span.Within pos (pos + byteLength cs) ∧ error.span.start ≤ place.start := by
  induction h generalizing pos cs with
  | here rest same =>
    rw [same]
    exact ⟨tiles.within _ (rest.subset (Cursor.peek_mem _)), Nat.le_refl _⟩
  | hole suffix mem same =>
    obtain ⟨here, before, -⟩ := tiles.hole_ahead suffix mem
    rw [same]
    exact ⟨here, Nat.le_trans here.ordered before⟩
  | inside suffix mem _ ih =>
    obtain ⟨here, before, chars, tilesInner, stop⟩ := tiles.hole_ahead suffix mem
    have inner := (ih tilesInner).1
    rw [stop] at inner
    exact ⟨inner.widen here.starts here.stops,
      Nat.le_trans inner.ordered (Nat.le_trans inner.stops before)⟩

end ErrorIn

section

variable {c place : Cursor} {tokens : List Token} {error : SyntaxError} {span : Span}

/-- A place is one of a list that ends with what is left there, behind a token for what was read last. -/
theorem Cursor.in_cons (c : Cursor) : c.In (.mk .eof c.last :: c.rest) :=
  ⟨List.suffix_cons _ _, _, List.mem_cons_self, rfl⟩

theorem Cursor.In.suffix (h : place.In (.mk .eof c.last :: c.rest)) (noLonger : place.size ≤ c.size) :
    place.rest <:+ c.rest := by
  rcases List.suffix_cons_iff.1 h.rest with same | suffix
  · rw [Cursor.size, same, tokensWeight, Token.weight] at noLonger
    exact absurd noLonger (Nat.not_le_of_lt (Nat.lt_add_of_pos_left (Nat.succ_pos _)))
  · exact suffix

theorem ErrorIn.tail (h : ErrorIn (.mk .eof span :: tokens) error place)
    (rest : place.rest <:+ tokens) : ErrorIn tokens error place := by
  have behind {head : String} {holes : List Hole} {span' : Span}
      (suffix : .mk (.template head holes) span' :: place.rest <:+ .mk .eof span :: tokens) :
      .mk (.template head holes) span' :: place.rest <:+ tokens := by
    rcases List.suffix_cons_iff.1 suffix with same | suffix
    · cases (List.cons.inj same).1
    · exact suffix
  cases h with
  | here _ same => exact .here rest same
  | hole suffix mem same => exact .hole (behind suffix) mem same
  | inside suffix mem inner => exact .inside (behind suffix) mem inner

end

namespace Grammar

variable {c place next : Cursor} {error : SyntaxError} {first : Statement}

theorem statement_error {within : place.size ≤ c.size} (read : statement c = .fail error place within) :
    place.rest <:+ c.rest ∧ ErrorIn c.rest error place := by
  have accounts := statement_accounts c.in_cons
  rw [read] at accounts
  obtain ⟨inside, error⟩ := accounts
  have rest := inside.suffix within
  exact ⟨rest, error.tail rest⟩

theorem resume_suffix (last : TokenKind) (c : Cursor) : (resume last c).rest <:+ c.rest := by
  fun_induction resume last c with
  | case1 => exact List.suffix_refl _
  | case2 => exact List.suffix_refl _
  | case3 _ _ _ _ _ _ _ _ found ih =>
    exact ih.trans ⟨_, (Cursor.passes_of_next? found).rest.symm⟩

theorem recover_suffix (c : Cursor) : (recover c).rest <:+ c.rest := by
  rw [recover]
  split
  · exact List.suffix_refl _
  next found => exact (resume_suffix ..).trans ⟨_, (Cursor.passes_of_next? found).rest.symm⟩

/-- The token at which an error was noticed is skipped. -/
theorem recover_skips (notEnd : c.atEnd = false) :
    ∃ skipped, c.peek ∈ skipped ∧ c.rest = skipped ++ (recover c).rest := by
  obtain ⟨⟨kind, span, next, _, _⟩, found⟩ := Cursor.exists_next? notEnd
  have passed : c.Passes [.mk kind span] next := Cursor.passes_of_next? found
  have resumed : recover c = resume kind next := by rw [recover, found]
  obtain ⟨more, rest⟩ := resume_suffix kind next
  refine ⟨.mk kind span :: more, ?_, ?_⟩
  · rw [passed.peek]
    exact List.mem_cons_self
  · rw [resumed, List.cons_append, rest]
    exact passed.rest

/-- A round of parsing from a place takes some token, be it that a statement is read or that what
follows an error is skipped. -/
structure Advances (c : Cursor) : Prop where
  statement : ∀ first next shorter, statement c = .ok first next shorter →
    ∃ taken, taken ≠ [] ∧ c.rest = taken ++ next.rest
  error : ∀ error place within, Grammar.statement c = .fail error place within →
    ∃ taken, taken ≠ [] ∧ c.rest = taken ++ (recover place).rest

theorem advances (notEnd : c.atEnd = false) : Advances c where
  statement first next shorter read := by
    have accounts := statement_accounts c.in_cons
    rw [read] at accounts
    obtain ⟨taken, whole⟩ := accounts.2.suffix (Nat.le_of_lt shorter)
    refine ⟨taken, ?_, whole.symm⟩
    rintro rfl
    rw [Cursor.size, Cursor.size, ← whole] at shorter
    exact Nat.lt_irrefl _ shorter
  error error place within read := by
    obtain ⟨rest, -⟩ := statement_error read
    obtain ⟨taken, whole⟩ := (recover_suffix place).trans rest
    refine ⟨taken, ?_, whole.symm⟩
    rintro rfl
    -- Nothing is skipped at the end of the text only, where the statement did not start.
    have same : place.rest = c.rest :=
      rest.eq_of_length_le (Nat.le_trans (by rw [← whole]; rfl) (recover_suffix place).length_le)
    have placeNotEnd : place.atEnd = false := by
      simp only [Cursor.atEnd, Cursor.peek, same]
      exact notEnd
    have skips := recover_size placeNotEnd
    rw [Cursor.size, Cursor.size, same, ← whole] at skips
    exact Nat.lt_irrefl _ skips

private theorem length_lt {rest left : List Token}
    (h : ∃ taken, taken ≠ [] ∧ rest = taken ++ left) : left.length < rest.length := by
  obtain ⟨taken, some, rfl⟩ := h
  rw [List.length_append]
  exact Nat.lt_add_of_pos_left (List.length_pos_iff.2 some)

/-- Parsing ends after fewer rounds than there are tokens. -/
theorem program_length (c : Cursor) :
    (program c).statements.length + (program c).errors.length < c.rest.length := by
  fun_induction program c with
  | case1 c => exact List.length_pos_iff.2 c.rest_ne_nil
  | case2 c notEnd first next shorter read others ih =>
    have fewer := length_lt ((advances (Bool.eq_false_iff.2 notEnd)).statement _ _ _ read)
    change others.statements.length + others.errors.length < next.rest.length at ih
    change others.statements.length + 1 + others.errors.length < c.rest.length
    omega
  | case3 c notEnd error place within read _ =>
    have fewer := length_lt ((advances (Bool.eq_false_iff.2 notEnd)).error _ _ _ read)
    have some := List.length_pos_iff.2 (recover place).rest_ne_nil
    rw [List.length_nil, List.length_singleton]
    omega
  | case4 c notEnd error place within read _ _ others ih =>
    have fewer := length_lt ((advances (Bool.eq_false_iff.2 notEnd)).error _ _ _ read)
    change others.statements.length + others.errors.length < (recover place).rest.length at ih
    change others.statements.length + (others.errors.length + 1) < c.rest.length
    omega

/-- Errors come in the order of the text, no two of them at one offset, and none outside of it. -/
theorem program_errors (c : Cursor) : ∀ pos cs, Tiles pos cs c.rest →
    (program c).errors.Pairwise (fun one later => one.span.start < later.span.start) ∧
      ∀ error ∈ (program c).errors, error.span.Within pos (pos + byteLength cs) := by
  fun_induction program c with
  | case1 =>
    intro pos cs _
    exact ⟨.nil, List.forall_mem_nil _⟩
  | case2 c notEnd first next shorter read others ih =>
    intro pos cs tiles
    obtain ⟨taken, -, whole⟩ := (advances (Bool.eq_false_iff.2 notEnd)).statement _ _ _ read
    rw [whole] at tiles
    obtain ⟨start, left, tilesLeft, ends, later, -⟩ := tiles.drop next.rest_ne_nil
    obtain ⟨ordered, within⟩ := ih _ _ tilesLeft
    rw [ends] at within
    exact ⟨ordered, fun error mem => (within error mem).widen later (Nat.le_refl _)⟩
  | case3 c notEnd error place _ read _ =>
    intro pos cs tiles
    have within := ((statement_error read).2.within tiles).1
    exact ⟨List.pairwise_singleton _ _, List.forall_mem_singleton.2 within⟩
  | case4 c notEnd error place _ read placeNotEnd _ others ih =>
    intro pos cs tiles
    obtain ⟨⟨front, whole⟩, about⟩ := statement_error read
    obtain ⟨here, notAfter⟩ := about.within tiles
    obtain ⟨skipped, isSkipped, rest⟩ := recover_skips (Bool.eq_false_iff.2 placeNotEnd)
    rw [← whole, rest, ← List.append_assoc] at tiles
    obtain ⟨start, left, tilesLeft, ends, later, before⟩ := tiles.drop (recover place).rest_ne_nil
    obtain ⟨ordered, within⟩ := ih _ _ tilesLeft
    rw [ends] at within
    have passed : place.start < start := before _ (List.mem_append_right _ isSkipped)
    refine ⟨List.pairwise_cons.2 ⟨fun error mem => ?_, ordered⟩, List.forall_mem_cons.2 ⟨here, ?_⟩⟩
    · exact Nat.lt_of_le_of_lt notAfter (Nat.lt_of_lt_of_le passed (within error mem).starts)
    · exact fun error mem => (within error mem).widen later (Nat.le_refl _)

end Grammar

/-- Parsing the tokens of a text comes to an end, since each round takes a token. If it fails then
with errors, which come in the order of the text, no two of them at one offset, and lie in it. -/
theorem Program.errors_advance {source : String} {base : Nat} {tokens : List Token}
    (lexed : tokenize source base = .ok tokens) :
    (∀ c : Cursor, c.atEnd = false → Grammar.Advances c) ∧
      ((∃ program, ofTokens tokens = .ok program) ∨
        ∃ errors, ofTokens tokens = .error errors ∧ errors ≠ [] ∧ errors.length < tokens.length ∧
          errors.Pairwise (fun one later => one.span.start < later.span.start) ∧
          ∀ error ∈ errors, error.span.Within base (base + source.utf8ByteSize)) := by
  refine ⟨fun c => Grammar.advances, ?_⟩
  obtain ⟨tiles, -⟩ := tiles_of_tokenize lexed
  obtain ⟨start, opened, rest⟩ : ∃ start, Cursor.ofTokens? tokens = some start ∧ start.rest = tokens := by
    obtain ⟨front, rfl, -⟩ := tiles.exists_eof
    exact ⟨_, dif_pos (by simp [endsInEof, Token.kind, TokenKind.isEof]), rfl⟩
  rw [← rest] at tiles
  obtain ⟨ordered, within⟩ := Grammar.program_errors _ _ _ tiles
  rw [Text.byteLength_toList] at within
  have rounds := Grammar.program_length start
  rw [rest] at rounds
  rw [ofTokens, opened]
  dsimp only
  split
  · exact .inl ⟨_, rfl⟩
  next some =>
    rw [List.isEmpty_iff] at some
    exact .inr ⟨_, rfl, some, Nat.lt_of_le_of_lt (Nat.le_add_left ..) rounds, ordered, within⟩

/-- A variable has no name, a parameter neither, and an interpolation lacks its second operand. -/
def threeFaults : String := "let = 1;\nfunction f(: void \x7b\x7d\n\x60$\x7b1 +\x7d\x60"

def threeFaultsTokens : List Token :=
  [.mk (.keyword .letWord) ⟨40, 43⟩, .mk (.operator .assign) ⟨44, 45⟩, .mk (.number "1") ⟨46, 47⟩,
    .mk (.punctuation .semicolon) ⟨47, 48⟩, .mk (.keyword .functionWord) ⟨49, 57⟩,
    .mk (.ident "f") ⟨58, 59⟩, .mk (.punctuation .leftParen) ⟨59, 60⟩,
    .mk (.punctuation .colon) ⟨60, 61⟩, .mk (.ident "void") ⟨62, 66⟩,
    .mk (.punctuation .leftBrace) ⟨67, 68⟩, .mk (.punctuation .rightBrace) ⟨68, 69⟩,
    .mk (.template "" [.mk [.mk (.number "1") ⟨73, 74⟩, .mk (.operator .plus) ⟨75, 76⟩,
      .mk .eof ⟨76, 76⟩] ⟨73, 76⟩ ""]) ⟨70, 78⟩,
    .mk .eof ⟨78, 78⟩]

/-- The third error is at the end of the interpolation, behind the place where it is noticed. -/
theorem threeFaults_advance : tokenize threeFaults 40 = .ok threeFaultsTokens ∧
    ∃ errors, Program.ofTokens threeFaultsTokens = .error errors ∧
      errors.map (·.span.start) = [44, 60, 76] ∧
      ∀ error ∈ errors, error.span.Within 40 (40 + threeFaults.utf8ByteSize) := by
  have lexed : tokenize threeFaults 40 = .ok threeFaultsTokens := by cbv
  have starts : (Program.ofTokens threeFaultsTokens).mapError (List.map (·.span.start))
      = .error [44, 60, 76] := by cbv
  refine ⟨lexed, ?_⟩
  rcases (Program.errors_advance lexed).2 with ⟨program, read⟩ | ⟨errors, failed, -, -, -, within⟩
  · rw [read] at starts
    cases starts
  · rw [failed] at starts
    exact ⟨errors, failed, Except.error.inj starts, within⟩

end ScriptToGo
