import ScriptToGo.Proofs.Program.Spans
import ScriptToGo.Proofs.Token.Places

/-! Reading never leaves the tokens that it was given. -/
namespace ScriptToGo

/-- A place of a list of tokens: the tokens left to read are the last of the list, and the one read
last belongs to it too. -/
structure Cursor.In (tokens : List Token) (c : Cursor) : Prop where
  rest : c.rest <:+ tokens
  last : ∃ token ∈ tokens, token.span = c.last

/-- A token of the list, or one inside of them, starts at the offset. -/
def StartsAt (tokens : List Token) (start : Nat) : Prop :=
  ∃ token ∈ allTokens tokens, token.span.start = start

def StartIn (tokens : List Token) (spans : List Span) : Prop :=
  ∀ span ∈ spans, StartsAt tokens span.start

/-- Reading stops at a place of the list, and what it gives is good. -/
def Reading.StaysIn {α : Type} (tokens : List Token) (Good : α → Prop) {n : Nat} :
    Reading α n → Prop
  | ok value next _ => Good value ∧ next.In tokens
  | fail _ place _ => place.In tokens

/-- An error that is noticed at a place of a list of tokens is about the token there. After a
template it may also be about one of its interpolations, or about a token inside of that. -/
inductive ErrorIn : List Token → SyntaxError → Cursor → Prop
  | here {tokens error place} : place.rest <:+ tokens → error.span = place.peek.span →
      ErrorIn tokens error place
  | hole {tokens head holes span hole error place} :
      .mk (.template head holes) span :: place.rest <:+ tokens → hole ∈ holes →
      error.span = hole.span → ErrorIn tokens error place
  | inside {tokens head holes span hole error inner place} :
      .mk (.template head holes) span :: place.rest <:+ tokens → hole ∈ holes →
      ErrorIn hole.tokens error inner → ErrorIn tokens error place

/-- Reading stays among the tokens: what it gives is good, and what it complains about is theirs. -/
def Reading.Accounts {α : Type} (tokens : List Token) (Good : α → Prop) {n : Nat} :
    Reading α n → Prop
  | ok value next _ => Good value ∧ next.In tokens
  | fail error place _ => place.In tokens ∧ ErrorIn tokens error place

section

variable {tokens inner : List Token} {c : Cursor}

theorem StartsAt.of_mem {token : Token} (h : token ∈ tokens) : StartsAt tokens token.span.start :=
  ⟨token, allTokens_subset h token.mem_all, rfl⟩

theorem StartsAt.mono {start : Nat} (h : StartsAt inner start)
    (subset : allTokens inner ⊆ allTokens tokens) : StartsAt tokens start := by
  obtain ⟨token, mem, same⟩ := h
  exact ⟨token, subset mem, same⟩

theorem StartsAt.cover {a b : Span} (first : StartsAt tokens a.start) (second : StartsAt tokens b.start) :
    StartsAt tokens (a.cover b).start := by
  rcases Nat.le_total a.start b.start with le | le
  · rwa [Span.cover, Nat.min_eq_left le]
  · rwa [Span.cover, Nat.min_eq_right le]

theorem StartIn.nil : StartIn tokens [] := nofun

theorem StartIn.mono {spans : List Span} (h : StartIn inner spans)
    (subset : allTokens inner ⊆ allTokens tokens) : StartIn tokens spans :=
  fun span mem => (h span mem).mono subset

theorem startIn_cons {span : Span} {spans : List Span} :
    StartIn tokens (span :: spans) ↔ StartsAt tokens span.start ∧ StartIn tokens spans :=
  List.forall_mem_cons

theorem startIn_append {spans others : List Span} :
    StartIn tokens (spans ++ others) ↔ StartIn tokens spans ∧ StartIn tokens others :=
  List.forall_mem_append

namespace Cursor

theorem exists_ofTokens? (closed : endsInEof tokens = true) : ∃ c, ofTokens? tokens = some c :=
  ⟨_, dif_pos closed⟩

/-- The place before the first token of a list is one of its places. -/
theorem in_ofTokens? (h : ofTokens? tokens = some c) : c.In tokens := by
  rw [ofTokens?] at h
  split at h
  next closed =>
    obtain rfl := Option.some.inj h
    cases tokens with
    | nil => cases closed
    | cons first rest => exact ⟨List.suffix_refl _, first, List.mem_cons_self, rfl⟩
  · cases h

theorem peek_mem (c : Cursor) : c.peek ∈ c.rest := List.head_mem _

namespace In

theorem start (h : c.In tokens) : StartsAt tokens c.start := .of_mem (h.rest.subset c.peek_mem)

theorem lastStart (h : c.In tokens) : StartsAt tokens c.last.start := by
  obtain ⟨token, mem, same⟩ := h.last
  exact same ▸ .of_mem mem

/-- The next token stands in front of what is left after it. -/
theorem next_suffix {n : Next c} (h : c.In tokens) (found : c.next? = some n) :
    .mk n.kind n.span :: n.next.rest <:+ tokens ∧ n.next.last = n.span := by
  rw [next?] at found
  split at found
  next left =>
    obtain rfl := Option.some.inj found
    exact ⟨left ▸ h.rest, rfl⟩
  · cases found

theorem next {n : Next c} (h : c.In tokens) (found : c.next? = some n) :
    n.next.In tokens ∧ Token.mk n.kind n.span ∈ tokens := by
  obtain ⟨suffix, last⟩ := h.next_suffix found
  have mem : Token.mk n.kind n.span ∈ tokens := suffix.subset List.mem_cons_self
  exact ⟨⟨(List.suffix_cons _ _).trans suffix, _, mem, last.symm⟩, mem⟩

theorem take {α : Type} {test : TokenKind → Option α} {t : Taken α c} (h : c.In tokens)
    (taken : c.take? test = some t) : t.next.In tokens ∧ StartsAt tokens t.span.start := by
  rw [take?] at taken
  split at taken
  · cases taken
  next found =>
    obtain ⟨value, -, rfl⟩ := Option.map_eq_some_iff.1 taken
    obtain ⟨inside, mem⟩ := h.next found
    exact ⟨inside, .of_mem mem⟩

theorem skipMark {mark : Punctuation} (h : c.In tokens) : (c.skipMark mark).In tokens := by
  rw [Cursor.skipMark]
  split
  next taken => exact (h.take taken).1
  · exact h

end In

end Cursor

/-- What is wrong with an interpolation is that it is empty, or it is wrong among its tokens. -/
def Hole.Faulty (hole : Hole) (error : SyntaxError) : Prop :=
  error.span = hole.span ∨ ∃ place, ErrorIn hole.tokens error place

theorem ErrorIn.template {error : SyntaxError} {head : String} {holes : List Hole} {span : Span}
    (suffix : .mk (.template head holes) span :: c.rest <:+ tokens)
    (faulty : ∃ hole ∈ holes, hole.Faulty error) : ErrorIn tokens error c := by
  obtain ⟨hole, mem, same | ⟨inner, within⟩⟩ := faulty
  · exact .hole suffix mem same
  · exact .inside suffix mem within

namespace Reading

variable {α β : Type} {m n : Nat} {Good : α → Prop}

theorem Accounts.staysIn {r : Reading α n} (h : r.Accounts tokens Good) : r.StaysIn tokens Good := by
  cases r with
  | ok value next shorter => exact h
  | fail error place within => exact h.1

theorem Accounts.weaken {r : Reading α m} {le : m ≤ n} (h : r.Accounts tokens Good) :
    (r.weaken le).Accounts tokens Good := by
  cases r with
  | ok value next shorter => exact h
  | fail error place within => exact h

theorem Accounts.past {r : Reading α m} {shorter : m < n} (h : r.Accounts tokens Good) :
    (r.past shorter).Accounts tokens Good := h.weaken

theorem Accounts.loosen {r : Reading α n} (h : r.Accounts tokens Good) :
    r.loosen.Accounts tokens Good := h.weaken

theorem Accounts.pastOptional {r : Reading α m} {shorter : m < n} (h : r.Accounts tokens Good) :
    (r.pastOptional shorter).Accounts tokens Good := h.past.loosen

theorem Accounts.andMaybe {Fine : β → Prop} {r : Reading α m} (h : r.Accounts tokens Good)
    {more : (value : α) → (next : Cursor) → next.size < m → Reading β (next.size + 1)}
    (others : ∀ value next shorter, Good value → next.In tokens →
      (more value next shorter).Accounts tokens Fine) :
    (r.andMaybe more).Accounts tokens Fine := by
  cases r with
  | ok value next shorter =>
    rw [Reading.andMaybe]
    exact (others value next shorter h.1 h.2).weaken
  | fail error place within => exact h

theorem Accounts.andThen {Fine : β → Prop} {r : Reading α m} (h : r.Accounts tokens Good)
    {more : (value : α) → (next : Cursor) → next.size < m → Reading β next.size}
    (others : ∀ value next shorter, Good value → next.In tokens →
      (more value next shorter).Accounts tokens Fine) :
    (r.andThen more).Accounts tokens Fine :=
  h.andMaybe fun value next shorter good inside => (others value next shorter good inside).loosen

theorem Accounts.mapAt {Fine : β → Prop} {f : α → Cursor → β} {r : Reading α n}
    (h : r.Accounts tokens Good)
    (keeps : ∀ value next, Good value → next.In tokens → Fine (f value next)) :
    (r.mapAt f).Accounts tokens Fine := by
  cases r with
  | ok value next shorter => exact ⟨keeps value next h.1 h.2, h.2⟩
  | fail error place within => exact h

theorem Accounts.map {Fine : β → Prop} {f : α → β} {r : Reading α n} (h : r.Accounts tokens Good)
    (keeps : ∀ value, Good value → Fine (f value)) : (r.map f).Accounts tokens Fine :=
  h.mapAt fun value _ good _ => keeps value good

theorem Accounts.thenSemicolon {r : Reading α n} (h : r.Accounts tokens Good) :
    r.thenSemicolon.Accounts tokens Good := by
  cases r with
  | ok value next shorter => exact ⟨h.1, h.2.skipMark⟩
  | fail error place within => exact h

end Reading

namespace Cursor

variable {α : Type}

theorem unexpected_accounts {Good : α → Prop} {wanted : String} (h : c.In tokens) :
    (c.unexpected wanted).Accounts tokens Good := ⟨h, .here h.rest rfl⟩

theorem expect_accounts {test : TokenKind → Option α} {wanted : String} (h : c.In tokens) :
    (c.expect test wanted).Accounts tokens fun (_, span) => StartsAt tokens span.start := by
  rw [expect]
  split
  next taken => exact (h.take taken).symm
  · exact unexpected_accounts h

theorem expectMark_accounts {mark : Punctuation} {wanted : String} (h : c.In tokens) :
    (c.expectMark mark wanted).Accounts tokens fun span => StartsAt tokens span.start :=
  (expect_accounts h).map fun _ starts => starts

theorem expectWord_accounts {word : Keyword} {wanted : String} (h : c.In tokens) :
    (c.expectWord word wanted).Accounts tokens fun span => StartsAt tokens span.start :=
  (expect_accounts h).map fun _ starts => starts

theorem expectOperator_accounts {op : Operator} {wanted : String} (h : c.In tokens) :
    (c.expectOperator op wanted).Accounts tokens fun span => StartsAt tokens span.start :=
  (expect_accounts h).map fun _ starts => starts

theorem expectName_accounts {wanted : String} (h : c.In tokens) :
    (c.expectName wanted).Accounts tokens fun name => StartsAt tokens name.span.start :=
  (expect_accounts h).map fun _ starts => starts

end Cursor

end

end ScriptToGo
