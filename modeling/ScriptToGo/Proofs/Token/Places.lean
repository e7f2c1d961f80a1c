import ScriptToGo.Grammar.Cursor
import ScriptToGo.Proofs.Token.Ascii
import ScriptToGo.Proofs.Token.Steps

/-! Where a text is looked at while it is cut into tokens. -/
namespace ScriptToGo
open Text (StandsAt AsciiFront byteLength)

/-- The offsets at which a lexeme of a source text is read, each with the characters that are left
to read there: the start, the end of every lexeme, and the start of every interpolation. -/
inductive LexesAt (source : String) : Nat → List Char → Prop
  | start : LexesAt source 0 source.toList
  | next {pos c rest} : LexesAt source pos (c :: rest) →
      LexesAt source (Scan.next pos c rest).pos (Scan.next pos c rest).rest
  | inside {pos c rest head holes hole} : LexesAt source pos (c :: rest) →
      (Scan.next pos c rest).lexeme = .template head holes → hole ∈ holes →
      LexesAt source hole.pos hole.chars

variable {text : List Char}

theorem skipComment_stands {pos next : Nat} {cs after : List Char} (h : StandsAt text pos cs)
    (skipped : skipComment pos cs = some (next, after)) : StandsAt text next after := by
  fun_induction skipComment pos cs with
  | case1 => cases skipped
  | case2 pos c rest close =>
    obtain ⟨rfl, rfl⟩ := Prod.mk.inj (Option.some.inj skipped)
    obtain ⟨rfl, slash⟩ := close
    exact h.drop ((AsciiFront.of_head? slash (by decide)).cons (by decide))
  | case3 pos c rest _ ih => exact ih h.tail skipped

theorem scanString_stands {start : Nat} {quote : Char} {pos : Nat} {cs : List Char}
    (ascii : quote.utf8Size = 1) (h : StandsAt text pos cs) :
    StandsAt text (scanString start quote pos cs).pos (scanString start quote pos cs).rest := by
  fun_induction scanString start quote pos cs with
  | case1 pos => exact h
  | case2 pos rest => exact h.tail_ascii ascii
  | case3 pos _ => exact h.tail_ascii (by decide)
  | case4 pos e rest _ escape next ih =>
    refine ih ?_
    exact (h.tail_ascii (by decide)).tail.drop (Escape.read_ascii e rest)
  | case5 pos rest _ _ ih => exact ih (h.tail_ascii (by decide))
  | case6 pos rest _ _ _ => exact h.tail_ascii (by decide)
  | case7 pos c rest _ _ _ _ ih => exact ih h.tail

/-- A template ends where its characters end, and so do the interpolations start and end where
theirs do. -/
theorem scanTemplate_stands {start pos : Nat} {cs : List Char} (h : StandsAt text pos cs) :
    StandsAt text (scanTemplate start pos cs).pos (scanTemplate start pos cs).rest ∧
      ∀ hole ∈ (scanTemplate start pos cs).holes, StandsAt text hole.pos hole.chars := by
  fun_induction scanTemplate start pos cs with
  | case1 pos => exact ⟨h, List.forall_mem_nil _⟩
  | case2 pos rest => exact ⟨h.tail_ascii (by decide), List.forall_mem_nil _⟩
  | case3 pos _ => exact ⟨h.tail_ascii (by decide), List.forall_mem_nil _⟩
  | case4 pos e rest _ escape next ih =>
    refine ih ?_
    exact (h.tail_ascii (by decide)).tail.drop (Escape.read_ascii e rest)
  | case5 pos c rest _ _ opening unclosed stop =>
    obtain ⟨rfl, brace⟩ := opening
    refine ⟨?_, List.forall_mem_nil _⟩
    have inside := h.drop ((AsciiFront.of_head? brace (by decide)).cons (by decide))
    rw [List.drop_succ_cons, ← List.append_nil (rest.drop 1)] at inside
    exact inside.skip
  | case6 pos c rest _ _ opening inner after split next ih =>
    obtain ⟨rfl, brace⟩ := opening
    have inside := h.drop ((AsciiFront.of_head? brace (by decide)).cons (by decide))
    rw [List.drop_succ_cons, splitHole_eq split] at inside
    obtain ⟨ends, others⟩ := ih (inside.skip.tail_ascii (by decide))
    refine ⟨ends, fun hole hm => ?_⟩
    rcases List.mem_cons.1 hm with rfl | hm
    · exact inside.front
    · exact others hole hm
  | case7 pos rest _ _ _ ih => exact ih (h.tail_ascii (by decide))
  | case8 pos rest _ _ _ _ ih => exact ih (h.tail_ascii (by decide))
  | case9 pos c rest _ _ _ _ _ ih => exact ih h.tail

namespace Scan

/-- What is left after a lexeme stands at its end, and what stands inside of a template stands
there. -/
def StandsIn (text : List Char) (s : Scan) : Prop :=
  StandsAt text s.pos s.rest ∧ ∀ head holes, s.lexeme = .template head holes →
    ∀ hole ∈ holes, StandsAt text hole.pos hole.chars

variable {pos : Nat} {c : Char} {rest : List Char}

theorem lineComment_stands (h : StandsAt text pos ('/' :: rest)) :
    (lineComment pos rest).StandsIn text := by
  refine ⟨?_, by simp [lineComment]⟩
  have tail := h.tail_ascii (by decide)
  rw [← List.takeWhile_append_dropWhile (p := fun d => decide (d ≠ '\n')) (l := rest)] at tail
  exact tail.skip

theorem blockComment_stands (h : StandsAt text pos ('/' :: rest)) (star : rest.head? = some '*') :
    (blockComment pos (rest.drop 1)).StandsIn text := by
  have inside := h.drop ((AsciiFront.of_head? star (by decide)).cons (by decide))
  rw [List.drop_succ_cons] at inside
  rw [blockComment]
  split
  next skipped => exact ⟨skipComment_stands inside skipped, by simp⟩
  · refine ⟨?_, by simp⟩
    rw [← List.append_nil (rest.drop 1)] at inside
    exact inside.skip

theorem string_stands (h : StandsAt text pos (c :: rest)) (quote : c = '"' ∨ c = '\'') :
    (string pos c rest).StandsIn text := by
  have ascii : c.utf8Size = 1 := by rcases quote with rfl | rfl <;> decide
  refine ⟨scanString_stands ascii (h.tail_ascii ascii), fun head holes same => ?_⟩
  rw [string] at same
  dsimp only at same
  split at same <;> cases same

theorem template_stands (h : StandsAt text pos ('\x60' :: rest)) :
    (template pos rest).StandsIn text := by
  have opened : StandsAt text (pos + 1) rest := h.tail_ascii (by decide)
  obtain ⟨ends, inside⟩ : StandsAt text (scanTemplate pos (pos + 1) rest).pos _ ∧ _ :=
    scanTemplate_stands opened
  refine ⟨ends, fun head holes same => ?_⟩
  obtain ⟨-, rfl⟩ := Lexeme.template.inj same
  exact inside

theorem number_stands (h : StandsAt text pos (c :: rest)) : (number pos c rest).StandsIn text := by
  rw [← NumberScan.read_append c rest] at h
  rw [number]
  split <;> exact ⟨h.skip, by simp⟩

theorem word_stands (h : StandsAt text pos (c :: rest)) (start : isWordStart c = true) :
    (word pos c rest).StandsIn text := by
  have ascii := utf8Size_of_mem_word start rest
  refine ⟨?_, by simp [word]⟩
  rw [← List.takeWhile_append_dropWhile (p := isWordPart) (l := rest), ← List.cons_append] at h
  have tail := h.skip
  rwa [Text.byteLength_of_ascii ascii, List.length_cons, Nat.add_comm _ 1, ← Nat.add_assoc] at tail

theorem symbol_stands (h : StandsAt text pos (c :: rest)) : (symbol pos c rest).StandsIn text := by
  rw [symbol]
  split
  next found => exact ⟨h.drop (symbolAt?_ascii found), by simp⟩
  · exact ⟨h.tail, by simp⟩

theorem next_stands (h : StandsAt text pos (c :: rest)) : (next pos c rest).StandsIn text := by
  refine next_cases (motive := fun scan => (scan pos).StandsIn text)
    ?blank ?lineComment ?blockComment ?string ?template ?number ?word ?symbol
  case blank =>
    intro blank
    refine ⟨?_, by simp⟩
    rcases blank with rfl | rfl | rfl | rfl <;> exact h.tail_ascii (by decide)
  case lineComment =>
    rintro ⟨rfl, -⟩
    exact lineComment_stands h
  case blockComment =>
    rintro ⟨rfl, star⟩
    exact blockComment_stands h star
  case string => exact string_stands h
  case template =>
    rintro rfl
    exact template_stands h
  case number =>
    intro _
    exact number_stands h
  case word => exact word_stands h
  case symbol => exact symbol_stands h

end Scan

theorem LexesAt.standsAt {source : String} {pos : Nat} {cs : List Char} (h : LexesAt source pos cs) :
    StandsAt source.toList pos cs := by
  induction h with
  | start => exact StandsAt.start _
  | next _ ih => exact (Scan.next_stands ih).1
  | inside _ template mem ih => exact (Scan.next_stands ih).2 _ _ template _ mem

/-- However far one looks ahead from where a lexeme is read, one stops between two characters. -/
theorem LexesAt.isBoundary {source : String} {pos : Nat} {done left : List Char}
    (h : LexesAt source pos (done ++ left)) : Text.IsBoundary source (pos + byteLength done) :=
  h.standsAt.skip.isBoundary

mutual

def Token.all : Token → List Token
  | .mk kind span => .mk kind span :: kind.inner

def TokenKind.inner : TokenKind → List Token
  | .template _ holes => innerTokens holes
  | _ => []

/-- The tokens of a list and those inside of them. -/
def allTokens : List Token → List Token
  | [] => []
  | token :: tokens => token.all ++ allTokens tokens

def Hole.inner : Hole → List Token
  | .mk tokens _ _ => allTokens tokens

def innerTokens : List Hole → List Token
  | [] => []
  | hole :: holes => hole.inner ++ innerTokens holes

end

/-- A token takes a range of a source text, and its interpolations end as token lists do. -/
structure Token.IsFrom (source : String) (token : Token) : Prop where
  starts : ∃ cs, LexesAt source token.span.start cs
  stops : ∃ cs, LexesAt source token.span.stop cs
  closed : ∀ head holes, token.kind = .template head holes →
    ∀ hole ∈ holes, endsInEof hole.tokens = true

theorem TokenKind.inner_of_plain {kind : TokenKind} (h : ∀ head holes, kind ≠ .template head holes) :
    kind.inner = [] := by
  cases kind with
  | template head holes => exact absurd rfl (h head holes)
  | _ => rfl

theorem Scan.next_token {pos : Nat} {c : Char} {rest : List Char} {kind : TokenKind}
    (h : (next pos c rest).lexeme = .token kind) (head : String) (holes : List Hole) :
    kind ≠ .template head holes := by
  refine next_cases
    (motive := fun scan => (scan pos).lexeme = .token kind → kind ≠ .template head holes)
    ?blank ?lineComment ?blockComment ?string ?template ?number ?word ?symbol h
  case blank | lineComment | template => rintro - ⟨⟩
  case blockComment =>
    intro _ h
    simp only [blockComment] at h
    split at h <;> cases h
  case string =>
    intro _ h
    simp only [string] at h
    split at h <;> cases h
    exact TokenKind.noConfusion
  case number =>
    intro _ h
    simp only [number] at h
    split at h <;> cases h
    exact TokenKind.noConfusion
  case word =>
    intro _ h
    obtain rfl := Lexeme.token.inj h
    rw [wordKind]
    split <;> exact TokenKind.noConfusion
  case symbol =>
    intro h
    simp only [symbol] at h
    split at h
    next found =>
      obtain rfl := Lexeme.token.inj h
      obtain ⟨_, _, _, _, spelled⟩ := exists_of_symbolAt? found
      rcases exists_of_symbol? spelled with ⟨op, -, rfl⟩ | ⟨mark, -, rfl⟩ <;>
        exact TokenKind.noConfusion
    · cases h

theorem endsInEof_cons {token : Token} {tokens : List Token} (h : endsInEof tokens = true) :
    endsInEof (token :: tokens) = true := by
  cases tokens with
  | nil => cases h
  | cons next rest => rwa [endsInEof, List.getLast?_cons_cons]

theorem Token.mem_all (token : Token) : token ∈ token.all := by
  cases token with
  | mk kind span => exact List.mem_cons_self

theorem allTokens_subset {token : Token} {tokens : List Token} (h : token ∈ tokens) :
    token.all ⊆ allTokens tokens := by
  induction tokens with
  | nil => cases h
  | cons first rest ih =>
    rw [allTokens]
    rcases List.mem_cons.1 h with rfl | h
    · exact List.subset_append_left _ _
    · exact List.subset_append_of_subset_right _ (ih h)

theorem mem_innerTokens {token : Token} {holes : List Hole} :
    token ∈ innerTokens holes ↔ ∃ hole ∈ holes, token ∈ allTokens hole.tokens := by
  induction holes with
  | nil => simp [innerTokens]
  | cons hole rest ih =>
    have here : hole.inner = allTokens hole.tokens := by cases hole; rfl
    simp [innerTokens, ih, here]

theorem lexFrom_isFrom {source : String} {pos : Nat} {cs : List Char} (h : LexesAt source pos cs) :
    endsInEof (lexFrom pos cs).tokens = true ∧
      ∀ token ∈ allTokens (lexFrom pos cs).tokens, token.IsFrom source := by
  induction pos, cs using lexFrom_induction with
  | nil pos =>
    rw [lexFrom_nil]
    refine ⟨rfl, fun token mem => ?_⟩
    obtain rfl := List.mem_singleton.1 mem
    exact ⟨⟨_, h⟩, ⟨_, h⟩, by simp [Token.kind]⟩
  | cons pos c rest tail inside =>
    obtain ⟨closed, others⟩ := tail h.next
    have here : ∀ {kind}, (∀ head holes, kind = .template head holes →
        ∀ hole ∈ holes, endsInEof hole.tokens = true) →
        (Token.mk kind ⟨pos, (Scan.next pos c rest).pos⟩).IsFrom source :=
      fun closes => ⟨⟨_, h⟩, ⟨_, h.next⟩, closes⟩
    rw [lexFrom_cons]
    dsimp only
    cases is : (Scan.next pos c rest).lexeme with
    | skipped => exact ⟨closed, others⟩
    | faulty errors => exact ⟨closed, others⟩
    | token kind =>
      have plain := Scan.next_token is
      refine ⟨endsInEof_cons closed, ?_⟩
      rw [Lexeme.tokens, List.singleton_append, allTokens, Token.all,
        TokenKind.inner_of_plain plain, List.singleton_append, List.forall_mem_cons]
      exact ⟨here fun head holes same => absurd same (plain head holes), others⟩
    | template head holes =>
      have inner := fun hole mem => inside head holes is hole mem (h.inside is mem)
      refine ⟨endsInEof_cons closed, ?_⟩
      rw [Lexeme.tokens, List.singleton_append, allTokens, Token.all, TokenKind.inner,
        List.cons_append, List.forall_mem_cons, List.forall_mem_append]
      refine ⟨here fun _ _ same => ?_, fun token mem => ?_, others⟩
      · obtain ⟨-, rfl⟩ := TokenKind.template.inj same
        exact List.forall_mem_map.2 fun hole mem => (inner hole mem).1
      · obtain ⟨_, isHole, mem⟩ := mem_innerTokens.1 mem
        obtain ⟨hole, among, rfl⟩ := List.mem_map.1 isHole
        exact (inner hole among).2 token mem

theorem isFrom_of_tokenize {source : String} {tokens : List Token}
    (h : tokenize source 0 = .ok tokens) :
    endsInEof tokens = true ∧ ∀ token ∈ allTokens tokens, token.IsFrom source := by
  rw [tokenize] at h
  split at h
  · cases h
    exact lexFrom_isFrom .start
  · cases h

theorem Token.IsFrom.isBoundary {source : String} {token : Token} (h : token.IsFrom source) :
    Text.IsBoundary source token.span.start ∧ Text.IsBoundary source token.span.stop := by
  obtain ⟨_, starts⟩ := h.starts
  obtain ⟨_, stops⟩ := h.stops
  exact ⟨starts.standsAt.isBoundary, stops.standsAt.isBoundary⟩

end ScriptToGo
