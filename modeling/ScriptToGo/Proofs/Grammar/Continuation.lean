import ScriptToGo.Proofs.Grammar.Places
import ScriptToGo.Proofs.Grammar.WrittenExprs
import ScriptToGo.Proofs.Program.Shift

/-! Tokens read up to the end of the text, and the same tokens read further on in a file where others
may follow them. -/
namespace ScriptToGo

/-- A token that is passed is not the last one. -/
theorem Cursor.Passes.rest_ne {c next : Cursor} {first : Token} (passed : c.Passes [first] next)
    (token : Token) : c.rest ≠ [token] := by
  rw [passed.rest]
  exact fun alone => next.rest_ne_nil (List.cons.inj alone).2

/-- What stands after tokens: where the text ends, and what follows them when they are moved along. -/
structure Continuation where
  stop : Span
  distance : Nat
  first : Token
  more : List Token

namespace Continuation

variable {w : Continuation} {c c' : Cursor}

/-- The text ends when the tokens are moved along, too. -/
def Ends (w : Continuation) : Prop := w.first.kind = .eof

/-- What follows does not go on with a statement that could be at its end. -/
def NoElse (w : Continuation) : Prop := w.first.kind ≠ .keyword .elseWord

/-- The same tokens are left in both places, and what stands after them. -/
structure Faces (w : Continuation) (tokens : List Token) (c c' : Cursor) : Prop where
  rest : c.rest = tokens ++ [.mk .eof w.stop]
  rest' : c'.rest = tokens.map (Token.shift w.distance) ++ w.first :: w.more

/-- The last of the tokens is a semicolon. -/
def EndsStatement (tokens : List Token) : Prop :=
  ∃ others span, tokens = others ++ [.mk (.punctuation .semicolon) span]

/-- The same is left in both places. If other tokens follow, a semicolon stands before them, if
anything is left. -/
def Beside (w : Continuation) (c c' : Cursor) : Prop :=
  ∃ tokens, w.Faces tokens c c' ∧ (tokens = [] ∨ w.Ends ∨ EndsStatement tokens)

/-- The next token is the same in both places. -/
def Ready (w : Continuation) (c c' : Cursor) : Prop :=
  ∃ tokens, w.Faces tokens c c' ∧ (w.Ends ∨ EndsStatement tokens)

/-- The same has been read just before both places, and the same is left. -/
structure Passed (w : Continuation) (c c' : Cursor) : Prop where
  beside : w.Beside c c'
  last : c'.last = c.last.shift w.distance

/-- Nothing that follows the tokens is next. -/
structure Inside (w : Continuation) (c c' : Cursor) : Prop where
  ready : w.Ready c c'
  last : c'.last = c.last.shift w.distance

theorem Ready.beside (h : w.Ready c c') : w.Beside c c' := by
  obtain ⟨tokens, faces, ends⟩ := h
  exact ⟨tokens, faces, .inr ends⟩

theorem Inside.beside (h : w.Inside c c') : w.Beside c c' := h.ready.beside

theorem Inside.passed (h : w.Inside c c') : w.Passed c c' := ⟨h.beside, h.last⟩

theorem Passed.spanFrom (h : w.Passed c c') (start : Nat) :
    c'.spanFrom (start + w.distance) = (c.spanFrom start).shift w.distance := by
  simp only [Cursor.spanFrom, h.last, Span.shift, Nat.add_max_add_right]

theorem Inside.spanFrom (h : w.Inside c c') (start : Nat) :
    c'.spanFrom (start + w.distance) = (c.spanFrom start).shift w.distance :=
  h.passed.spanFrom start

/-- The same token is next in both places. -/
theorem Ready.peek (h : w.Ready c c') : c'.peek.kind = c.peek.kind.shift w.distance := by
  obtain ⟨tokens, ⟨rest, rest'⟩, ends⟩ := h
  cases tokens with
  | nil =>
    have isEof : w.first.kind = .eof := by
      rcases ends with ends | ⟨others, span, none⟩
      · exact ends
      · simp at none
    simp only [Cursor.peek, rest, rest', List.map_nil, List.nil_append, List.head_cons, isEof]
    rfl
  | cons token others =>
    obtain ⟨kind, span⟩ := token
    simp only [Cursor.peek, rest, rest', List.map_cons, List.cons_append, List.head_cons]
    rfl

theorem Beside.start_eq (h : w.Beside c c') (some : c.rest ≠ [.mk .eof w.stop]) :
    c'.start = c.start + w.distance := by
  obtain ⟨tokens, ⟨rest, rest'⟩, -⟩ := h
  cases tokens with
  | nil => exact absurd rest some
  | cons token others =>
    obtain ⟨kind, span⟩ := token
    simp only [Cursor.start, Cursor.peek, rest, rest', List.map_cons, List.cons_append,
      List.head_cons]
    rfl

theorem EndsStatement.of_cons {token : Token} {tokens : List Token}
    (h : EndsStatement (token :: tokens)) :
    EndsStatement tokens ∨ (tokens = [] ∧ token.kind = .punctuation .semicolon) := by
  obtain ⟨others, span, whole⟩ := h
  cases others with
  | nil =>
    obtain ⟨rfl, rfl⟩ := List.cons.inj whole
    exact .inr ⟨rfl, rfl⟩
  | cons first others =>
    obtain ⟨-, rfl⟩ := List.cons.inj whole
    exact .inl ⟨others, span, rfl⟩

/-- A token that is passed in one place is passed in the other. -/
theorem Beside.pass (h : w.Beside c c') {kind : TokenKind} {span : Span} {next : Cursor}
    (passed : c.Passes [.mk kind span] next) :
    ∃ next', c'.Passes [.mk (kind.shift w.distance) (span.shift w.distance)] next' ∧
      w.Passed next next' ∧ (kind ≠ .punctuation .semicolon → w.Inside next next') := by
  obtain ⟨tokens, ⟨rest, rest'⟩, ends⟩ := h
  cases tokens with
  | nil => exact absurd rest (passed.rest_ne _)
  | cons token others =>
    obtain ⟨rfl, left⟩ := List.cons.inj (rest.symm.trans passed.rest)
    have ends := ends.resolve_left (List.cons_ne_nil _ _)
    obtain ⟨next', passed', left'⟩ := Cursor.exists_passes (show c'.rest = [_] ++ _ from rest') (by simp)
    have faces : w.Faces others next next' := ⟨left.symm, left'⟩
    have last : next'.last = next.last.shift w.distance := by
      rw [passed'.last, passed.last, lastSpan_cons, lastSpan_cons]
      rfl
    refine ⟨next', passed', ⟨⟨others, faces, ?_⟩, last⟩, fun other => ⟨⟨others, faces, ?_⟩, last⟩⟩
    · exact ends.elim (fun ends => .inr (.inl ends)) fun ends =>
        ends.of_cons.elim (fun ends => .inr (.inr ends)) fun none => .inl none.1
    · exact ends.imp_right fun ends => ends.of_cons.resolve_right fun last => other last.2

end Continuation

/-- A test that neither a template nor the end of the text passes. -/
structure TokenKind.IsTest {α : Type} (test : TokenKind → Option α) : Prop where
  template : ∀ head holes, test (.template head holes) = none
  eof : test .eof = none

theorem TokenKind.IsTest.shift {α : Type} {test : TokenKind → Option α} (h : IsTest test) (n : Nat)
    (kind : TokenKind) : test (kind.shift n) = test kind := by
  cases kind with
  | template head holes => rw [TokenKind.shift, h.template, h.template]
  | _ => rfl

namespace Reading
open Cursor

variable {α β : Type} {m n m' n' : Nat}

/-- What is read in one place is also read in the other, but for where it is. -/
def Alike (move : α → α) (R : Cursor → Cursor → Prop) (r : Reading α m) (r' : Reading α n) : Prop :=
  r.Ensures fun value next => ∃ next', r'.Gives (move value) next' ∧ R next next'

variable {move : α → α} {shift : β → β} {R S : Cursor → Cursor → Prop}

theorem Alike.ok {value : α} {next next' : Cursor} {shorter : next.size < m} {shorter' : next'.size < n}
    {value' : α} (same : value' = move value) (h : R next next') :
    (Reading.ok value next shorter).Alike move R (Reading.ok value' next' shorter') :=
  ⟨next', ⟨shorter', same ▸ rfl⟩, h⟩

theorem Alike.stay {value value' : α} {c c' : Cursor} (same : value' = move value) (h : R c c') :
    (Reading.stay value c).Alike move R (Reading.stay value' c') := .ok same h

theorem Alike.imp {r : Reading α m} {r' : Reading α n} (h : r.Alike move R r')
    (implies : ∀ next next', R next next' → S next next') : r.Alike move S r' :=
  Ensures.mono h fun _ _ ⟨next', given, here⟩ => ⟨next', given, implies _ _ here⟩

theorem Alike.weaken {r : Reading α m} {r' : Reading α n} {le : m ≤ m'} {le' : n ≤ n'}
    (h : r.Alike move R r') : (r.weaken le).Alike move R (r'.weaken le') :=
  Ensures.weaken (Ensures.mono h fun _ _ ⟨next', given, here⟩ => ⟨next', given.weaken _, here⟩)

theorem Alike.past {r : Reading α m} {r' : Reading α n} {shorter : m < m'} {shorter' : n < n'}
    (h : r.Alike move R r') : (r.past shorter).Alike move R (r'.past shorter') := h.weaken

theorem Alike.loosen {r : Reading α m} {r' : Reading α n} (h : r.Alike move R r') :
    r.loosen.Alike move R r'.loosen := h.weaken

theorem Alike.pastOptional {r : Reading α m} {r' : Reading α n} {shorter : m < m'}
    {shorter' : n < n'} (h : r.Alike move R r') :
    (r.pastOptional shorter).Alike move R (r'.pastOptional shorter') := h.past.loosen

theorem Alike.andMaybe {r : Reading α m} {r' : Reading α n} (h : r.Alike move R r')
    {more : (value : α) → (next : Cursor) → next.size < m → Reading β (next.size + 1)}
    {more' : (value : α) → (next : Cursor) → next.size < n → Reading β (next.size + 1)}
    (others : ∀ value next next' shorter shorter', R next next' →
      (more value next shorter).Alike shift S (more' (move value) next' shorter')) :
    (r.andMaybe more).Alike shift S (r'.andMaybe more') := by
  cases r with
  | fail error place within => trivial
  | ok value next shorter =>
    obtain ⟨next', ⟨shorter', rfl⟩, here⟩ := h
    rw [Reading.andMaybe, Reading.andMaybe]
    exact (others value next next' shorter shorter' here).weaken

theorem Alike.andThen {r : Reading α m} {r' : Reading α n} (h : r.Alike move R r')
    {more : (value : α) → (next : Cursor) → next.size < m → Reading β next.size}
    {more' : (value : α) → (next : Cursor) → next.size < n → Reading β next.size}
    (others : ∀ value next next' shorter shorter', R next next' →
      (more value next shorter).Alike shift S (more' (move value) next' shorter')) :
    (r.andThen more).Alike shift S (r'.andThen more') :=
  h.andMaybe fun value next next' shorter shorter' here =>
    (others value next next' shorter shorter' here).loosen

theorem Alike.mapAt {r : Reading α m} {r' : Reading α n} (h : r.Alike move R r')
    {f f' : α → Cursor → β}
    (same : ∀ value next next', R next next' → f' (move value) next' = shift (f value next)) :
    (r.mapAt f).Alike shift R (r'.mapAt f') := by
  cases r with
  | fail error place within => trivial
  | ok value next shorter =>
    obtain ⟨next', given, here⟩ := h
    exact ⟨next', same value next next' here ▸ given.mapAt f', here⟩

theorem Alike.map {r : Reading α m} {r' : Reading α n} (h : r.Alike move R r') {f f' : α → β}
    (same : ∀ value, f' (move value) = shift (f value)) :
    (r.map f).Alike shift R (r'.map f') := h.mapAt fun value _ _ _ => same value

end Reading

namespace Continuation
open Cursor Reading

variable {w : Continuation} {c c' : Cursor} {α : Type} {test : TokenKind → Option α}

/-- At the end of the text nothing can be read. -/
theorem ensures_of_atEnd {stop : Span} (atEnd : c.rest = [.mk .eof stop])
    {Good : α → Cursor → Prop} (r : Reading α c.size) : r.Ensures Good := by
  cases r with
  | fail error place within => trivial
  | ok value next shorter =>
    obtain ⟨⟨kind, span⟩, rest, left⟩ := List.exists_cons_of_ne_nil next.rest_ne_nil
    simp only [size, atEnd, left, tokensWeight, Token.weight, TokenKind.weight] at shorter
    omega

/-- Either nothing is left, or the next token is the same in both places. -/
theorem Beside.atEnd_or_ready (h : w.Beside c c') : c.rest = [.mk .eof w.stop] ∨ w.Ready c c' := by
  obtain ⟨tokens, faces, none | ends⟩ := h
  · exact .inl (by rw [faces.rest, none, List.nil_append])
  · exact .inr ⟨tokens, faces, ends⟩

/-- Something is left where reading goes well. -/
theorem Beside.alike (h : w.Beside c c') {R : Cursor → Cursor → Prop} {n : Nat} {move : α → α}
    {r : Reading α c.size} {r' : Reading α n}
    (some : w.Ready c c' → c'.start = c.start + w.distance → r.Alike move R r') :
    r.Alike move R r' := by
  by_cases atEnd : c.rest = [.mk .eof w.stop]
  · exact ensures_of_atEnd atEnd r
  · exact some (h.atEnd_or_ready.resolve_left atEnd) (h.start_eq atEnd)

/-- A test takes the next token in both places or in none. -/
theorem Ready.take? (h : w.Ready c c') (isTest : TokenKind.IsTest test) :
    (c.take? test = none ∧ c'.take? test = none) ∨
      ∃ value span next next' shorter shorter', c.take? test = some ⟨value, span, next, shorter⟩ ∧
        c'.take? test = some ⟨value, span.shift w.distance, next', shorter'⟩ ∧
        w.Passed next next' ∧ (test (.punctuation .semicolon) = none → w.Inside next next') := by
  cases taken : c.take? test with
  | none =>
    refine .inl ⟨rfl, take?_eq_none ?_⟩
    rw [h.peek, isTest.shift]
    cases accepted : test c.peek.kind with
    | none => rfl
    | some value =>
      -- A token that passes the test is not the end of the text, so that it could be taken.
      obtain ⟨tokens, ⟨rest, -⟩, -⟩ := h
      cases tokens with
      | nil =>
        simp only [Cursor.peek, rest, List.nil_append, List.head_cons] at accepted
        cases isTest.eof.symm.trans accepted
      | cons token others =>
        obtain ⟨kind, span⟩ := token
        simp only [Cursor.peek, rest, List.cons_append, List.head_cons] at accepted
        have rest : c.rest = [.mk kind span] ++ (others ++ [.mk .eof w.stop]) := rest
        obtain ⟨next, passed, -⟩ := exists_passes rest (by simp)
        obtain ⟨_, found⟩ := passed.take? accepted
        cases taken.symm.trans found
  | some t =>
    obtain ⟨value, span, next, shorter⟩ := t
    obtain ⟨kind, accepted, passed⟩ := passes_of_take? taken
    obtain ⟨next', passed', reached, inside⟩ := h.beside.pass passed
    obtain ⟨shorter', found⟩ := passed'.take? ((isTest.shift _ kind).trans accepted)
    refine .inr ⟨value, span, next, next', shorter, shorter', rfl, found, reached, ?_⟩
    rintro refused
    refine inside ?_
    rintro rfl
    cases refused.symm.trans accepted

theorem isTest_isMark (mark : Punctuation) : TokenKind.IsTest (TokenKind.isMark mark) :=
  ⟨fun _ _ => rfl, rfl⟩

theorem isTest_isKeyword (word : Keyword) : TokenKind.IsTest (TokenKind.isKeyword word) :=
  ⟨fun _ _ => rfl, rfl⟩

theorem isTest_isOperator (op : Operator) : TokenKind.IsTest (TokenKind.isOperator op) :=
  ⟨fun _ _ => rfl, rfl⟩

theorem isTest_ident : TokenKind.IsTest TokenKind.ident? := ⟨fun _ _ => rfl, rfl⟩

theorem isTest_string : TokenKind.IsTest TokenKind.string? := ⟨fun _ _ => rfl, rfl⟩

theorem isTest_propertyName : TokenKind.IsTest TokenKind.propertyName? := ⟨fun _ _ => rfl, rfl⟩

theorem isTest_leading : TokenKind.IsTest TokenKind.leading? := ⟨fun _ _ => rfl, rfl⟩

theorem isTest_trailing : TokenKind.IsTest TokenKind.trailing? := ⟨fun _ _ => rfl, rfl⟩

theorem isTest_binary (least : Nat) : TokenKind.IsTest (TokenKind.binary? least) :=
  ⟨fun _ _ => rfl, rfl⟩

theorem isTest_assignment : TokenKind.IsTest TokenKind.assignment? := ⟨fun _ _ => rfl, rfl⟩

theorem Ready.mark? (h : w.Ready c c') (mark : Punctuation)
    (other : TokenKind.isMark mark (.punctuation .semicolon) = none) :
    (c.mark? mark = none ∧ c'.mark? mark = none) ∨
      ∃ span next next' shorter shorter', c.mark? mark = some ⟨(), span, next, shorter⟩ ∧
        c'.mark? mark = some ⟨(), span.shift w.distance, next', shorter'⟩ ∧ w.Inside next next' := by
  rcases h.take? (isTest_isMark mark) with none | ⟨_, span, next, next', s, s', some, some', -, inside⟩
  · exact .inl none
  · exact .inr ⟨span, next, next', s, s', some, some', inside other⟩

/-- A semicolon may be the last of the tokens. -/
theorem Ready.semicolon? (h : w.Ready c c') :
    (c.mark? .semicolon = none ∧ c'.mark? .semicolon = none) ∨
      ∃ span next next' shorter shorter', c.mark? .semicolon = some ⟨(), span, next, shorter⟩ ∧
        c'.mark? .semicolon = some ⟨(), span.shift w.distance, next', shorter'⟩ ∧
        w.Passed next next' := by
  rcases h.take? (isTest_isMark .semicolon) with
    none | ⟨_, span, next, next', s, s', some, some', passed, -⟩
  · exact .inl none
  · exact .inr ⟨span, next, next', s, s', some, some', passed⟩

theorem Ready.word? (h : w.Ready c c') (word : Keyword) :
    (c.word? word = none ∧ c'.word? word = none) ∨
      ∃ span next next' shorter shorter', c.word? word = some ⟨(), span, next, shorter⟩ ∧
        c'.word? word = some ⟨(), span.shift w.distance, next', shorter'⟩ ∧ w.Inside next next' := by
  rcases h.take? (isTest_isKeyword word) with
    none | ⟨_, span, next, next', s, s', some, some', -, inside⟩
  · exact .inl none
  · exact .inr ⟨span, next, next', s, s', some, some', inside rfl⟩

theorem Ready.operator? (h : w.Ready c c') (op : Operator) :
    (c.operator? op = none ∧ c'.operator? op = none) ∨
      ∃ span next next' shorter shorter', c.operator? op = some ⟨(), span, next, shorter⟩ ∧
        c'.operator? op = some ⟨(), span.shift w.distance, next', shorter'⟩ ∧
        w.Inside next next' := by
  rcases h.take? (isTest_isOperator op) with
    none | ⟨_, span, next, next', s, s', some, some', -, inside⟩
  · exact .inl none
  · exact .inr ⟨span, next, next', s, s', some, some', inside rfl⟩

/-- The same token is next in both places, and the same places come after it. -/
theorem Beside.next? (h : w.Beside c c') : (c.rest = [.mk .eof w.stop] ∧ c.next? = none) ∨
    ∃ kind span next next' size size' shorter shorter',
      c.next? = some ⟨kind, span, next, size, shorter⟩ ∧
      c'.next? = some ⟨kind.shift w.distance, span.shift w.distance, next', size', shorter'⟩ ∧
      w.Passed next next' ∧ (kind ≠ .punctuation .semicolon → w.Inside next next') := by
  obtain ⟨tokens, faces, ends⟩ := h
  cases tokens with
  | nil =>
    refine .inl ⟨faces.rest, ?_⟩
    cases found : c.next? with
    | none => rfl
    | some n =>
      exact absurd faces.rest ((passes_of_next? found).rest_ne _)
  | cons token others =>
    obtain ⟨kind, span⟩ := token
    have rest : c.rest = [.mk kind span] ++ (others ++ [.mk .eof w.stop]) := faces.rest
    obtain ⟨next, passed, -⟩ := exists_passes rest (by simp)
    obtain ⟨next', passed', reached, inside⟩ := Beside.pass ⟨_, faces, ends⟩ passed
    obtain ⟨⟨_, _, _, size, shorter⟩, found, rfl, rfl, rfl⟩ := passed.next?
    obtain ⟨⟨_, _, _, size', shorter'⟩, found', kind_eq, span_eq, rfl⟩ := passed'.next?
    obtain rfl := kind_eq
    obtain rfl := span_eq
    exact .inr ⟨_, _, _, _, size, size', shorter, shorter', found, found', reached, inside⟩

theorem Ready.atMark (h : w.Ready c c') (mark : Punctuation) : c'.atMark mark = c.atMark mark := by
  rw [Cursor.atMark, h.peek, (isTest_isMark mark).shift, Cursor.atMark]

theorem Ready.atEnd (h : w.Ready c c') : c'.atEnd = c.atEnd := by
  rw [Cursor.atEnd, h.peek, Cursor.atEnd]
  cases c.peek.kind <;> rfl

/-- A value and its range, further on. -/
def moveTaken (w : Continuation) (taken : α × Span) : α × Span := (taken.1, taken.2.shift w.distance)

theorem Beside.expect (h : w.Beside c c') (isTest : TokenKind.IsTest test)
    (other : test (.punctuation .semicolon) = none) (wanted : String) :
    (c.expect test wanted).Alike w.moveTaken w.Inside (c'.expect test wanted) := by
  refine h.alike fun ready _ => ?_
  rw [Cursor.expect, Cursor.expect]
  rcases ready.take? isTest with ⟨none, -⟩ | ⟨_, _, _, _, _, _, some, some', -, inside⟩
  · rw [none]
    trivial
  · rw [some, some']
    exact .ok rfl (inside other)

theorem Beside.expectMark (h : w.Beside c c') {mark : Punctuation} {wanted : String}
    (other : TokenKind.isMark mark (.punctuation .semicolon) = none) :
    (c.expectMark mark wanted).Alike (Span.shift w.distance) w.Inside (c'.expectMark mark wanted) :=
  (h.expect (isTest_isMark mark) other wanted).map fun _ => rfl

theorem Beside.expectSemicolon (h : w.Beside c c') {wanted : String} :
    (c.expectMark .semicolon wanted).Alike (Span.shift w.distance) w.Passed
      (c'.expectMark .semicolon wanted) := by
  have taken : (c.expect (TokenKind.isMark .semicolon) wanted).Alike w.moveTaken w.Passed
      (c'.expect (TokenKind.isMark .semicolon) wanted) := by
    refine h.alike fun ready _ => ?_
    rw [Cursor.expect, Cursor.expect]
    rcases ready.semicolon? with ⟨none, none'⟩ | ⟨_, _, _, _, _, some, some', passed⟩
    · rw [Cursor.mark?] at none
      rw [none]
      trivial
    · rw [Cursor.mark?] at some some'
      rw [some, some']
      exact .ok rfl passed
  exact taken.map fun _ => rfl

theorem Beside.expectWord (h : w.Beside c c') {word : Keyword} {wanted : String} :
    (c.expectWord word wanted).Alike (Span.shift w.distance) w.Inside (c'.expectWord word wanted) :=
  (h.expect (isTest_isKeyword word) rfl wanted).map fun _ => rfl

theorem Beside.expectOperator (h : w.Beside c c') {op : Operator} {wanted : String} :
    (c.expectOperator op wanted).Alike (Span.shift w.distance) w.Inside
      (c'.expectOperator op wanted) :=
  (h.expect (isTest_isOperator op) rfl wanted).map fun _ => rfl

theorem Beside.expectName (h : w.Beside c c') {wanted : String} :
    (c.expectName wanted).Alike (Name.shift w.distance) w.Inside (c'.expectName wanted) :=
  (h.expect isTest_ident rfl wanted).map fun _ => rfl

/-- A mark that may be next is skipped in both places or in none. -/
theorem Inside.skipMark (h : w.Inside c c') (mark : Punctuation) :
    w.Passed (c.skipMark mark) (c'.skipMark mark) ∧
      (TokenKind.isMark mark (.punctuation .semicolon) = none →
        w.Inside (c.skipMark mark) (c'.skipMark mark)) := by
  rw [Cursor.skipMark, Cursor.skipMark, Cursor.mark?, Cursor.mark?]
  rcases h.ready.take? (isTest_isMark mark) with
    ⟨none, none'⟩ | ⟨_, _, _, _, _, _, some, some', passed, inside⟩
  · rw [none, none']
    exact ⟨h.passed, fun _ => h⟩
  · rw [some, some']
    exact ⟨passed, inside⟩

theorem alike_thenSemicolon {m n : Nat} {move : α → α} {r : Reading α m} {r' : Reading α n}
    (h : r.Alike move w.Inside r') : r.thenSemicolon.Alike move w.Passed r'.thenSemicolon := by
  cases r with
  | fail error place within => trivial
  | ok value next shorter =>
    obtain ⟨next', ⟨shorter', rfl⟩, inside⟩ := h
    exact ⟨_, ⟨_, rfl⟩, (inside.skipMark .semicolon).1⟩

/-- Tokens that are moved along, with nothing after them. -/
def alone (stop : Span) (distance : Nat) : Continuation :=
  ⟨stop, distance, .mk .eof (stop.shift distance), []⟩

theorem exists_alone {distance : Nat} (moved : c'.rest = c.rest.map (Token.shift distance)) :
    ∃ stop, (alone stop distance).Beside c c' := by
  rcases List.eq_nil_or_concat c.rest with none | ⟨tokens, ⟨kind, stop⟩, rest⟩
  · exact absurd none c.rest_ne_nil
  · have closed := c.closed
    rw [rest, List.concat_eq_append, endsInEof, List.getLast?_concat] at closed
    cases kind with
    | eof =>
      rw [List.concat_eq_append] at rest
      refine ⟨stop, tokens, ⟨rest, ?_⟩, .inr (.inl rfl)⟩
      rw [moved, rest, List.map_append]
      rfl
    | _ => cases closed

theorem exists_moved {tokens : List Token} (opened : Cursor.ofTokens? tokens = some c)
    (distance : Nat) : ∃ c', Cursor.ofTokens? (tokens.map (Token.shift distance)) = some c' ∧
      c'.rest = c.rest.map (Token.shift distance) := by
  have rest := rest_of_ofTokens? opened
  have closed : endsInEof (tokens.map (Token.shift distance)) = true := by
    have closed := c.closed
    rw [rest, endsInEof] at closed
    rw [endsInEof, List.getLast?_map, Option.any_map]
    obtain ⟨⟨kind, span⟩, last, isEof⟩ := (Option.any_eq_true _ _).1 closed
    rw [last]
    cases kind with
    | eof => rfl
    | _ => cases isEof
  obtain ⟨c', opened'⟩ := exists_ofTokens? closed
  exact ⟨c', opened', by rw [rest_of_ofTokens? opened', rest]⟩

end Continuation

end ScriptToGo
