import ScriptToGo.Token.Fault
import ScriptToGo.Program.TypeExpr

/-! A place in a token list, and what reading from there can give. -/
namespace ScriptToGo

mutual

def TokenKind.weight : TokenKind → Nat
  | .template _ holes => holesWeight holes
  | _ => 0

/-- A token counts for itself and for the tokens inside it. -/
def Token.weight : Token → Nat
  | .mk kind _ => kind.weight + 1

/-- The number of tokens in a list, inner ones included. -/
def tokensWeight : List Token → Nat
  | [] => 0
  | token :: tokens => token.weight + tokensWeight tokens

def Hole.weight : Hole → Nat
  | .mk tokens _ _ => tokensWeight tokens

/-- The number of tokens in interpolations, each counted with one of its braces. -/
def holesWeight : List Hole → Nat
  | [] => 0
  | hole :: holes => hole.weight + 1 + holesWeight holes

end

def TokenKind.isEof : TokenKind → Bool
  | .eof => true
  | _ => false

/-- Whether the last token of a list is the end of the text. -/
def endsInEof (tokens : List Token) : Bool := tokens.getLast?.any (·.kind.isEof)

/-- A place between two tokens: the range of the token before it and the tokens after it. There is
always a token to read, as the end of the text is never passed. -/
structure Cursor where
  last : Span
  rest : List Token
  /-- The end of the text is among them. -/
  closed : endsInEof rest = true

namespace Cursor

/-- How many tokens are still to read, inner ones included. -/
def size (c : Cursor) : Nat := tokensWeight c.rest

theorem rest_ne_nil (c : Cursor) : c.rest ≠ [] := by
  intro h
  have := c.closed
  rw [h] at this
  cases this

def peek (c : Cursor) : Token := c.rest.head c.rest_ne_nil

/-- Whether no token but the end of the text is left. -/
def atEnd (c : Cursor) : Bool := c.peek.kind.isEof

/-- The place before the first token of a list. A list that does not end has no places. -/
def ofTokens? (tokens : List Token) : Option Cursor :=
  if closed : endsInEof tokens then some ⟨(tokens.head?.map Token.span).getD .zero, tokens, closed⟩
  else none

/-- All tokens of a list are still to be read at first. -/
theorem size_ofTokens? {tokens : List Token} {c : Cursor} (h : ofTokens? tokens = some c) :
    c.size = tokensWeight tokens := by
  rw [ofTokens?] at h
  split at h
  · cases h
    rfl
  · cases h

def start (c : Cursor) : Nat := c.peek.span.start

/-- The range from an offset to the end of the token read last. -/
def spanFrom (c : Cursor) (start : Nat) : Span := ⟨start, max c.last.stop start⟩

end Cursor

/-- What reading gives: a value and the place after it, or an error and the place where it was
noticed. The bound says how much is left at most. -/
inductive Reading (α : Type) (bound : Nat)
  | ok (value : α) (next : Cursor) (shorter : next.size < bound)
  | fail (error : SyntaxError) (place : Cursor) (within : place.size ≤ bound)

namespace Reading

variable {α β : Type} {m n : Nat}

/-- Gives a value without reading anything. -/
def stay (value : α) (c : Cursor) : Reading α (c.size + 1) := ok value c (Nat.lt_succ_self _)

def weaken (r : Reading α m) (le : m ≤ n) : Reading α n :=
  match r with
  | ok value next shorter => ok value next (Nat.lt_of_lt_of_le shorter le)
  | fail error place within => fail error place (Nat.le_trans within le)

/-- What is read after a token is read from the place before it, too. -/
def past (shorter : m < n) (r : Reading α m) : Reading α n := r.weaken (Nat.le_of_lt shorter)

/-- Fails at a place after the one where reading began. -/
def failPast (error : SyntaxError) (place : Cursor) (shorter : place.size < n) : Reading α n :=
  fail error place (Nat.le_of_lt shorter)

/-- Forgets that something was read. -/
def loosen (r : Reading α n) : Reading α (n + 1) := r.weaken (Nat.le_succ n)

/-- What is read after a token that need not be there. -/
def pastOptional (shorter : m < n) (r : Reading α m) : Reading α (n + 1) := (r.past shorter).loosen

/-- Goes on with reading that may take nothing more. -/
def andMaybe (r : Reading α m)
    (more : (value : α) → (next : Cursor) → next.size < m → Reading β (next.size + 1)) :
    Reading β m :=
  match r with
  | ok value next shorter => (more value next shorter).weaken shorter
  | fail error place within => fail error place within

/-- Goes on with reading that takes a token at least. -/
def andThen (r : Reading α m)
    (more : (value : α) → (next : Cursor) → next.size < m → Reading β next.size) : Reading β m :=
  r.andMaybe fun value next shorter => (more value next shorter).loosen

/-- Makes a value of what was read and the place after it. -/
def mapAt (f : α → Cursor → β) : Reading α n → Reading β n
  | ok value next shorter => ok (f value next) next shorter
  | fail error place within => fail error place within

def map (f : α → β) (r : Reading α n) : Reading β n := r.mapAt fun value _ => f value

end Reading

namespace Cursor

def unexpected {α : Type} (c : Cursor) (wanted : String) : Reading α c.size :=
  .fail ⟨.expected wanted c.peek.kind, c.peek.span⟩ c (Nat.le_refl _)

/-- The next token and the place after it. -/
structure Next (c : Cursor) where
  kind : TokenKind
  span : Span
  next : Cursor
  /-- The token and what follows it make up all that was left. -/
  size_eq : kind.weight + 1 + next.size = c.size
  /-- A token less is left. -/
  shorter : next.size < c.size

/-- The next token, unless it is the last one of the list. -/
def next? (c : Cursor) : Option (Next c) :=
  match h : c.rest with
  | .mk kind span :: token :: rest =>
    have closed : endsInEof (token :: rest) = true := by
      have := c.closed
      rwa [h, endsInEof, List.getLast?_cons_cons] at this
    have size_eq : kind.weight + 1 + tokensWeight (token :: rest) = c.size := by
      simp only [size, h, tokensWeight, Token.weight]
    have shorter : tokensWeight (token :: rest) < c.size := by omega
    some ⟨kind, span, ⟨span, token :: rest, closed⟩, size_eq, shorter⟩
  | _ => none

/-- A token that is not the end of the text is followed by others. -/
theorem exists_next? {c : Cursor} (h : c.atEnd = false) : ∃ n, c.next? = some n := by
  obtain ⟨last, rest, closed⟩ := c
  match rest with
  | [] => cases closed
  | [token] =>
    have : token.kind.isEof = true := by simpa [endsInEof] using closed
    rw [atEnd, peek, List.head_cons, this] at h
    cases h
  | .mk kind span :: token :: rest => exact ⟨_, rfl⟩

/-- What a test found in the next token, and the place after that token. -/
structure Taken (α : Type) (c : Cursor) where
  value : α
  span : Span
  next : Cursor
  /-- A token less is left. -/
  shorter : next.size < c.size

/-- Takes the next token if a test accepts it. -/
def take? {α : Type} (c : Cursor) (test : TokenKind → Option α) : Option (Taken α c) :=
  match c.next? with
  | none => none
  | some ⟨kind, span, next, _, shorter⟩ =>
    (test kind).map fun value => ⟨value, span, next, shorter⟩

/-- Takes the next token if a test accepts it, and complains otherwise. -/
def expect {α : Type} (c : Cursor) (test : TokenKind → Option α) (wanted : String) :
    Reading (α × Span) c.size :=
  match c.take? test with
  | some t => .ok (t.value, t.span) t.next t.shorter
  | none => c.unexpected wanted

end Cursor

namespace TokenKind

def isKeyword (word : Keyword) : TokenKind → Option Unit
  | keyword w => if w = word then some () else none
  | _ => none

def isOperator (op : Operator) : TokenKind → Option Unit
  | operator o => if o = op then some () else none
  | _ => none

def isMark (mark : Punctuation) : TokenKind → Option Unit
  | punctuation p => if p = mark then some () else none
  | _ => none

def ident? : TokenKind → Option String
  | ident name => some name
  | _ => none

def string? : TokenKind → Option String
  | string body => some body
  | _ => none

/-- Accepts an identifier or a reserved word, either of which may name a property. -/
def propertyName? : TokenKind → Option String
  | ident name => some name
  | keyword word => some word.spelling
  | _ => none

def assignment? : TokenKind → Option BinaryOp
  | operator op => (BinaryOp.ofToken? op).filter (·.isAssignment)
  | _ => none

/-- Accepts an operator between operands that assigns nothing and binds at least as tightly as
the bound. -/
def binary? (least : Nat) : TokenKind → Option BinaryOp
  | operator op =>
    (BinaryOp.ofToken? op).filter fun o => !o.isAssignment && least ≤ o.precedence
  | _ => none

def leading? : TokenKind → Option UnaryOp
  | operator op => UnaryOp.ofLeadingToken? op
  | _ => none

def trailing? : TokenKind → Option UnaryOp
  | operator op => UnaryOp.ofTrailingToken? op
  | _ => none

end TokenKind

namespace Cursor

def mark? (c : Cursor) (mark : Punctuation) : Option (Taken Unit c) := c.take? (TokenKind.isMark mark)

def word? (c : Cursor) (word : Keyword) : Option (Taken Unit c) := c.take? (TokenKind.isKeyword word)

def operator? (c : Cursor) (op : Operator) : Option (Taken Unit c) := c.take? (TokenKind.isOperator op)

def atMark (c : Cursor) (mark : Punctuation) : Bool := (TokenKind.isMark mark c.peek.kind).isSome

def expectMark (c : Cursor) (mark : Punctuation) (wanted : String) : Reading Span c.size :=
  (c.expect (TokenKind.isMark mark) wanted).map Prod.snd

def expectWord (c : Cursor) (word : Keyword) (wanted : String) : Reading Span c.size :=
  (c.expect (TokenKind.isKeyword word) wanted).map Prod.snd

def expectOperator (c : Cursor) (op : Operator) (wanted : String) : Reading Span c.size :=
  (c.expect (TokenKind.isOperator op) wanted).map Prod.snd

def expectName (c : Cursor) (wanted : String) : Reading Name c.size :=
  (c.expect TokenKind.ident? wanted).map fun (text, span) => ⟨text, span⟩

/-- The place after a punctuation mark that may be next but need not. -/
def skipMark (c : Cursor) (mark : Punctuation) : Cursor :=
  match c.mark? mark with
  | some t => t.next
  | none => c

theorem skipMark_size (c : Cursor) (mark : Punctuation) : (c.skipMark mark).size ≤ c.size := by
  rw [skipMark]
  split
  next t _ => exact Nat.le_of_lt t.shorter
  · exact Nat.le_refl _

end Cursor

namespace Reading

/-- Lets a semicolon follow what was read; it may end a statement but need not. -/
def thenSemicolon {α : Type} {n : Nat} : Reading α n → Reading α n
  | ok value next shorter =>
    ok value (next.skipMark .semicolon) (Nat.lt_of_le_of_lt (next.skipMark_size _) shorter)
  | fail error place within => fail error place within

end Reading

end ScriptToGo
