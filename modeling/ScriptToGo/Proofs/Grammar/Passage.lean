import ScriptToGo.Grammar.Cursor

/-! Which tokens reading passes on the way from one place to another, what it gives if it does not fail,
and what it is sure to give. -/
namespace ScriptToGo

/-- The range of the last of the tokens, or the range before them if there are none. -/
def lastSpan (before : Span) (tokens : List Token) : Span :=
  (tokens.getLast?.map Token.span).getD before

/-- The range from the start of the first of the tokens to the end of the last. -/
def spanOf : List Token → Span
  | [] => .zero
  | first :: rest =>
    ⟨first.span.start, max (lastSpan first.span rest).stop first.span.start⟩

/-- Taking these tokens leads from one place to another. -/
structure Cursor.Passes (c : Cursor) (taken : List Token) (next : Cursor) : Prop where
  rest : c.rest = taken ++ next.rest
  last : next.last = lastSpan c.last taken

section

variable {before : Span} {token : Token} {first second : List Token}

@[simp] theorem lastSpan_nil : lastSpan before [] = before := rfl

@[simp] theorem lastSpan_cons : lastSpan before (token :: first) = lastSpan token.span first := by
  rw [lastSpan, lastSpan, List.getLast?_cons]
  cases first.getLast? <;> rfl

@[simp] theorem lastSpan_append :
    lastSpan before (first ++ second) = lastSpan (lastSpan before first) second := by
  induction first generalizing before with
  | nil => rfl
  | cons token first ih => rw [List.cons_append, lastSpan_cons, lastSpan_cons, ih]

end

namespace Cursor

variable {c next other : Cursor} {taken more : List Token}

theorem Passes.nil (c : Cursor) : c.Passes [] c := ⟨rfl, rfl⟩

theorem Passes.trans (first : c.Passes taken next) (second : next.Passes more other) :
    c.Passes (taken ++ more) other where
  rest := by rw [first.rest, second.rest, List.append_assoc]
  last := by rw [second.last, first.last, lastSpan_append]

/-- A place is known by the token read last and the tokens left. -/
theorem eq_of_rest (last : c.last = next.last) (rest : c.rest = next.rest) : c = next := by
  obtain ⟨_, _, _⟩ := c
  cases last
  cases rest
  rfl

theorem Passes.unique (first : c.Passes taken next) (second : c.Passes taken other) :
    next = other :=
  eq_of_rest (first.last.trans second.last.symm)
    (List.append_cancel_left (first.rest.symm.trans second.rest))

/-- All tokens but the last can be passed. -/
theorem exists_passes {rest : List Token} (whole : c.rest = taken ++ rest) (some : rest ≠ []) :
    ∃ next, c.Passes taken next ∧ next.rest = rest := by
  have closed : endsInEof rest = true := by
    have closed := c.closed
    rw [whole, endsInEof, List.getLast?_append, List.getLast?_eq_some_getLast some] at closed
    rwa [endsInEof, List.getLast?_eq_some_getLast some]
  exact ⟨⟨lastSpan c.last taken, rest, closed⟩, ⟨whole, rfl⟩, rfl⟩

/-- Tokens that are taken one after the other are passed one after the other. -/
theorem Passes.split (h : c.Passes (taken ++ more) next) :
    ∃ mid, c.Passes taken mid ∧ mid.Passes more next := by
  have some : more ++ next.rest ≠ [] := by simp [next.rest_ne_nil]
  obtain ⟨mid, passed, rest⟩ := exists_passes (h.rest.trans (List.append_assoc ..)) some
  refine ⟨mid, passed, rest, ?_⟩
  rw [h.last, lastSpan_append, passed.last]

theorem Passes.cons {token : Token} (h : c.Passes (token :: more) next) :
    ∃ mid, c.Passes [token] mid ∧ mid.Passes more next := by
  have both : c.Passes ([token] ++ more) next := h
  exact both.split

theorem Passes.peek {token : Token} (h : c.Passes (token :: more) next) : c.peek = token := by
  have rest := h.rest
  rw [List.cons_append] at rest
  simp only [Cursor.peek, rest, List.head_cons]

theorem Passes.start_eq {token : Token} (h : c.Passes (token :: more) next) :
    c.start = token.span.start := by
  rw [start, h.peek]

/-- The range from the start of tokens to the place after them is their range. -/
theorem Passes.spanFrom_eq (h : c.Passes taken next) (some : taken ≠ []) :
    next.spanFrom c.start = spanOf taken := by
  obtain ⟨first, rest, rfl⟩ := List.exists_cons_of_ne_nil some
  rw [spanFrom, h.start_eq, spanOf, h.last, lastSpan_cons]

theorem passes_of_next? {n : Next c} (found : c.next? = some n) :
    c.Passes [.mk n.kind n.span] n.next := by
  rw [next?] at found
  split at found
  next kind span token rest left =>
    obtain rfl := Option.some.inj found
    exact ⟨left, rfl⟩
  · cases found

theorem Passes.next? {kind : TokenKind} {span : Span} (h : c.Passes [.mk kind span] next) :
    ∃ n : Next c, c.next? = some n ∧ n.kind = kind ∧ n.span = span ∧ n.next = next := by
  have notEnd : ∃ n : Next c, c.next? = some n := by
    obtain ⟨token, rest, left⟩ := List.exists_cons_of_ne_nil next.rest_ne_nil
    have whole := h.rest
    rw [left] at whole
    rw [Cursor.next?]
    split
    · exact ⟨_, rfl⟩
    next other => exact absurd whole (other _ _ _ _)
  obtain ⟨n, found⟩ := notEnd
  have passed := passes_of_next? found
  obtain ⟨same, -⟩ := List.cons.inj (h.rest.symm.trans passed.rest)
  obtain ⟨rfl, rfl⟩ := Token.mk.inj same
  exact ⟨n, found, rfl, rfl, passed.unique h⟩

variable {α : Type} {test : TokenKind → Option α}

theorem passes_of_take? {t : Taken α c} (taken : c.take? test = some t) :
    ∃ kind, test kind = some t.value ∧ c.Passes [.mk kind t.span] t.next := by
  rw [take?] at taken
  split at taken
  · cases taken
  next found =>
    obtain ⟨value, accepted, rfl⟩ := Option.map_eq_some_iff.1 taken
    exact ⟨_, accepted, passes_of_next? found⟩

theorem Passes.take? {kind : TokenKind} {span : Span} {value : α}
    (h : c.Passes [.mk kind span] next) (accepted : test kind = some value) :
    ∃ shorter, c.take? test = some ⟨value, span, next, shorter⟩ := by
  obtain ⟨n, found, rfl, rfl, rfl⟩ := h.next?
  refine ⟨n.shorter, ?_⟩
  rw [Cursor.take?, found]
  simp only [accepted, Option.map_some]

/-- A test takes nothing from a place where it refuses the next token. -/
theorem take?_eq_none (refused : test c.peek.kind = none) : c.take? test = none := by
  rw [Cursor.take?]
  split
  · rfl
  next kind _ _ _ _ found =>
    rw [(passes_of_next? found).peek] at refused
    have refused : test kind = none := refused
    rw [refused, Option.map_none]

end Cursor

namespace Reading

variable {α β : Type} {m n : Nat} {Good : α → Cursor → Prop} {Fine : β → Cursor → Prop}

/-- If reading does not fail, what it gives and the place after it are good. -/
def Ensures (Good : α → Cursor → Prop) : Reading α n → Prop
  | ok value next _ => Good value next
  | fail _ _ _ => True

/-- Reading does not fail: it gives the value and stops at the place. -/
def Gives (r : Reading α n) (value : α) (next : Cursor) : Prop :=
  ∃ shorter, r = .ok value next shorter

/-- What reading from a place gives goes with the tokens that it takes. -/
def Takes (c : Cursor) (Good : α → List Token → Prop) (r : Reading α n) : Prop :=
  r.Ensures fun value next => ∃ taken, c.Passes taken next ∧ Good value taken

theorem Ensures.of_gives {r : Reading α n} {value : α} {next : Cursor} (h : r.Ensures Good)
    (given : r.Gives value next) : Good value next := by
  obtain ⟨shorter, rfl⟩ := given
  exact h

theorem ensures_of {r : Reading α n} (h : ∀ value next, r.Gives value next → Good value next) :
    r.Ensures Good := by
  cases r with
  | ok value next shorter => exact h value next ⟨shorter, rfl⟩
  | fail error place within => trivial

theorem Ensures.and {Other : α → Cursor → Prop} {r : Reading α n} (h : r.Ensures Good)
    (other : r.Ensures Other) : r.Ensures fun value next => Good value next ∧ Other value next :=
  ensures_of fun _ _ given => ⟨h.of_gives given, other.of_gives given⟩

theorem Ensures.mono {Other : α → Cursor → Prop} {r : Reading α n} (h : r.Ensures Good)
    (implies : ∀ value next, Good value next → Other value next) : r.Ensures Other :=
  ensures_of fun _ _ given => implies _ _ (h.of_gives given)

theorem Ensures.weaken {r : Reading α m} {le : m ≤ n} (h : r.Ensures Good) :
    (r.weaken le).Ensures Good := by
  cases r with
  | ok value next shorter => exact h
  | fail error place within => trivial

theorem Ensures.past {r : Reading α m} {shorter : m < n} (h : r.Ensures Good) :
    (r.past shorter).Ensures Good := h.weaken

theorem Ensures.loosen {r : Reading α n} (h : r.Ensures Good) : r.loosen.Ensures Good := h.weaken

theorem Ensures.pastOptional {r : Reading α m} {shorter : m < n} (h : r.Ensures Good) :
    (r.pastOptional shorter).Ensures Good := h.past.loosen

theorem Ensures.andMaybe {r : Reading α m} (h : r.Ensures Good)
    {more : (value : α) → (next : Cursor) → next.size < m → Reading β (next.size + 1)}
    (others : ∀ value next shorter, Good value next → (more value next shorter).Ensures Fine) :
    (r.andMaybe more).Ensures Fine := by
  cases r with
  | ok value next shorter =>
    rw [Reading.andMaybe]
    exact (others value next shorter h).weaken
  | fail error place within => trivial

theorem Ensures.andThen {r : Reading α m} (h : r.Ensures Good)
    {more : (value : α) → (next : Cursor) → next.size < m → Reading β next.size}
    (others : ∀ value next shorter, Good value next → (more value next shorter).Ensures Fine) :
    (r.andThen more).Ensures Fine :=
  h.andMaybe fun value next shorter good => (others value next shorter good).loosen

theorem Ensures.mapAt {f : α → Cursor → β} {r : Reading α n} (h : r.Ensures Good)
    (keeps : ∀ value next, Good value next → Fine (f value next) next) :
    (r.mapAt f).Ensures Fine := by
  cases r with
  | ok value next shorter => exact keeps value next h
  | fail error place within => trivial

theorem Ensures.map {f : α → β} {r : Reading α n} (h : r.Ensures Good)
    (keeps : ∀ value next, Good value next → Fine (f value) next) : (r.map f).Ensures Fine :=
  Ensures.mapAt h keeps

theorem gives_stay (value : α) (c : Cursor) : (stay value c).Gives value c := ⟨_, rfl⟩

theorem Gives.weaken {r : Reading α m} {value : α} {next : Cursor} (h : r.Gives value next)
    (le : m ≤ n) : (r.weaken le).Gives value next := by
  obtain ⟨shorter, rfl⟩ := h
  exact ⟨_, rfl⟩

theorem Gives.past {r : Reading α m} {shorter : m < n} {value : α} {next : Cursor}
    (h : r.Gives value next) : (r.past shorter).Gives value next := h.weaken _

theorem Gives.pastOptional {r : Reading α m} {shorter : m < n} {value : α} {next : Cursor}
    (h : r.Gives value next) : (r.pastOptional shorter).Gives value next :=
  h.past.weaken (Nat.le_succ n)

theorem Gives.andMaybe {r : Reading α m} {value : α} {mid : Cursor} (h : r.Gives value mid)
    {more : (value : α) → (next : Cursor) → next.size < m → Reading β (next.size + 1)}
    {result : β} {next : Cursor} (others : ∀ shorter, (more value mid shorter).Gives result next) :
    (r.andMaybe more).Gives result next := by
  obtain ⟨shorter, rfl⟩ := h
  rw [Reading.andMaybe]
  exact (others shorter).weaken _

theorem Gives.andThen {r : Reading α m} {value : α} {mid : Cursor} (h : r.Gives value mid)
    {more : (value : α) → (next : Cursor) → next.size < m → Reading β next.size}
    {result : β} {next : Cursor} (others : ∀ shorter, (more value mid shorter).Gives result next) :
    (r.andThen more).Gives result next :=
  h.andMaybe fun shorter => (others shorter).weaken _

theorem Gives.mapAt {r : Reading α n} {value : α} {next : Cursor} (f : α → Cursor → β)
    (h : r.Gives value next) : (r.mapAt f).Gives (f value next) next := by
  obtain ⟨shorter, rfl⟩ := h
  exact ⟨shorter, rfl⟩

theorem Gives.map {r : Reading α n} {value : α} {next : Cursor} (f : α → β)
    (h : r.Gives value next) : (r.map f).Gives (f value) next := h.mapAt _

end Reading

namespace Cursor

variable {c next : Cursor} {α : Type} {test : TokenKind → Option α} {wanted : String}
  {mark : Punctuation} {word : Keyword} {op : Operator} {span : Span}

theorem kind_of_isMark {kind : TokenKind} (h : TokenKind.isMark mark kind = some ()) :
    kind = .punctuation mark := by
  cases kind with
  | punctuation other =>
    rw [TokenKind.isMark] at h
    split at h
    next same => rw [same]
    · cases h
  | _ => cases h

theorem kind_of_isKeyword {kind : TokenKind} (h : TokenKind.isKeyword word kind = some ()) :
    kind = .keyword word := by
  cases kind with
  | keyword other =>
    rw [TokenKind.isKeyword] at h
    split at h
    next same => rw [same]
    · cases h
  | _ => cases h

theorem kind_of_isOperator {kind : TokenKind} (h : TokenKind.isOperator op kind = some ()) :
    kind = .operator op := by
  cases kind with
  | operator other =>
    rw [TokenKind.isOperator] at h
    split at h
    next same => rw [same]
    · cases h
  | _ => cases h

theorem passes_of_mark? {t : Taken Unit c} (taken : c.mark? mark = some t) :
    c.Passes [.mk (.punctuation mark) t.span] t.next := by
  obtain ⟨kind, accepted, passed⟩ := passes_of_take? taken
  rwa [kind_of_isMark accepted] at passed

theorem passes_of_word? {t : Taken Unit c} (taken : c.word? word = some t) :
    c.Passes [.mk (.keyword word) t.span] t.next := by
  obtain ⟨kind, accepted, passed⟩ := passes_of_take? taken
  rwa [kind_of_isKeyword accepted] at passed

theorem passes_of_operator? {t : Taken Unit c} (taken : c.operator? op = some t) :
    c.Passes [.mk (.operator op) t.span] t.next := by
  obtain ⟨kind, accepted, passed⟩ := passes_of_take? taken
  rwa [kind_of_isOperator accepted] at passed

theorem expect_ensures :
    (c.expect test wanted).Ensures fun (value, span) next =>
      ∃ kind, test kind = some value ∧ c.Passes [.mk kind span] next := by
  rw [expect]
  split
  next taken => exact passes_of_take? taken
  · trivial

theorem expectMark_ensures :
    (c.expectMark mark wanted).Ensures fun span next =>
      c.Passes [.mk (.punctuation mark) span] next := by
  apply expect_ensures.map
  rintro ⟨_, span⟩ next ⟨kind, accepted, passed⟩
  rwa [kind_of_isMark accepted] at passed

theorem expectOperator_ensures :
    (c.expectOperator op wanted).Ensures fun span next =>
      c.Passes [.mk (.operator op) span] next := by
  apply expect_ensures.map
  rintro ⟨_, span⟩ next ⟨kind, accepted, passed⟩
  rwa [kind_of_isOperator accepted] at passed

theorem expectName_ensures :
    (c.expectName wanted).Ensures fun name next =>
      c.Passes [.mk (.ident name.text) name.span] next := by
  apply expect_ensures.map
  rintro ⟨text, span⟩ next ⟨kind, accepted, passed⟩
  cases kind with
  | ident name =>
    cases accepted
    exact passed
  | _ => cases accepted

/-- Skipping a mark passes it if it is next, and nothing otherwise. -/
theorem passes_skipMark (c : Cursor) (mark : Punctuation) :
    (∃ span, c.atMark mark = true ∧ c.Passes [.mk (.punctuation mark) span] (c.skipMark mark)) ∨
      (c.atMark mark = false ∧ c.Passes [] (c.skipMark mark)) := by
  rw [skipMark]
  split
  next taken =>
    have passed := passes_of_mark? taken
    have here : c.atMark mark = true := by
      rw [atMark, passed.peek, Token.kind, TokenKind.isMark, if_pos rfl, Option.isSome_some]
    exact .inl ⟨_, here, passed⟩
  next none =>
    refine .inr ⟨?_, .nil c⟩
    cases at? : c.atMark mark with
    | false => rfl
    | true =>
      -- A mark is not the end of the text, so that it is followed by another token.
      obtain ⟨_, accepted⟩ := Option.isSome_iff_exists.1 at?
      have is := kind_of_isMark accepted
      have notEnd : c.atEnd = false := by rw [atEnd, is]; rfl
      obtain ⟨n, found⟩ := exists_next? notEnd
      have passed := passes_of_next? found
      rw [passed.peek, Token.kind] at is
      rw [is] at passed
      have accepted : TokenKind.isMark mark (.punctuation mark) = some () := if_pos rfl
      obtain ⟨_, taken⟩ := passed.take? accepted
      rw [mark?, taken] at none
      cases none

theorem Passes.mark? (h : c.Passes [.mk (.punctuation mark) span] next) :
    ∃ shorter, c.mark? mark = some ⟨(), span, next, shorter⟩ :=
  h.take? (by rw [TokenKind.isMark, if_pos rfl])

theorem Passes.operator? (h : c.Passes [.mk (.operator op) span] next) :
    ∃ shorter, c.operator? op = some ⟨(), span, next, shorter⟩ :=
  h.take? (by rw [TokenKind.isOperator, if_pos rfl])

theorem Passes.skipMark_eq (h : c.Passes [.mk (.punctuation mark) span] next) :
    c.skipMark mark = next := by
  obtain ⟨shorter, taken⟩ := h.mark?
  rw [skipMark, taken]

theorem Passes.expect {kind : TokenKind} {value : α} (h : c.Passes [.mk kind span] next)
    (accepted : test kind = some value) : (c.expect test wanted).Gives (value, span) next := by
  obtain ⟨shorter, taken⟩ := h.take? accepted
  rw [Cursor.expect, taken]
  exact ⟨_, rfl⟩

theorem Passes.expectMark (h : c.Passes [.mk (.punctuation mark) span] next) :
    (c.expectMark mark wanted).Gives span next :=
  (h.expect (by rw [TokenKind.isMark, if_pos rfl])).map _

theorem Passes.expectName {name : String} (h : c.Passes [.mk (.ident name) span] next) :
    (c.expectName wanted).Gives ⟨name, span⟩ next := by
  have given : (c.expect TokenKind.ident? wanted).Gives (name, span) next := h.expect rfl
  exact given.map _

end Cursor

end ScriptToGo
