import ScriptToGo.Proofs.Token.Places

/-! What is known of a token because it was cut from a text. -/
namespace ScriptToGo

/-- Of these tokens the last is the end of the text, and no other is. -/
def EndsOnce (tokens : List Token) : Prop :=
  ∃ front stop, tokens = front ++ [.mk .eof stop] ∧ ∀ token ∈ front, token.kind ≠ .eof

/-- No identifier is spelled like a reserved word, and the text of an interpolation ends once. -/
def TokenKind.IsLexical : TokenKind → Prop
  | .ident name => Keyword.ofSpelling? name = none
  | .template _ holes => ∀ hole ∈ holes, EndsOnce hole.tokens
  | _ => True

/-- The tokens and those inside of them are as they are cut from a text. -/
def Lexical (tokens : List Token) : Prop := ∀ token ∈ allTokens tokens, token.kind.IsLexical

theorem allTokens_append (first second : List Token) :
    allTokens (first ++ second) = allTokens first ++ allTokens second := by
  induction first with
  | nil => rfl
  | cons token first ih => rw [List.cons_append, allTokens, allTokens, ih, List.append_assoc]

theorem lexical_append {first second : List Token} :
    Lexical (first ++ second) ↔ Lexical first ∧ Lexical second := by
  rw [Lexical, allTokens_append, List.forall_mem_append]
  rfl

theorem lexical_cons {token : Token} {tokens : List Token} :
    Lexical (token :: tokens) ↔
      token.kind.IsLexical ∧ (∀ inner ∈ token.kind.inner, inner.kind.IsLexical) ∧
        Lexical tokens := by
  obtain ⟨kind, span⟩ := token
  rw [Lexical, allTokens, Token.all, List.cons_append, List.forall_mem_cons,
    List.forall_mem_append]
  rfl

/-- What is inside of an interpolation is cut from a text, too. -/
theorem Lexical.inside {head : String} {holes : List Hole} {span : Span} {tokens : List Token}
    (h : Lexical (.mk (.template head holes) span :: tokens)) :
    ∀ hole ∈ holes, EndsOnce hole.tokens ∧ Lexical hole.tokens := by
  obtain ⟨ends, inner, -⟩ := lexical_cons.1 h
  intro hole mem
  exact ⟨ends hole mem, fun token inside => inner token (mem_innerTokens.2 ⟨hole, mem, inside⟩)⟩

/-- The end of the text is followed by nothing. -/
theorem EndsOnce.eq_of_eof {taken rest : List Token} {last : Token} (h : EndsOnce (taken ++ last :: rest))
    (isEof : last.kind = .eof) : ∃ stop, taken ++ last :: rest = taken ++ [.mk .eof stop] := by
  obtain ⟨front, stop, whole, others⟩ := h
  rcases List.eq_nil_or_concat rest with rfl | ⟨more, final, rfl⟩
  · refine ⟨last.span, ?_⟩
    obtain ⟨kind, span⟩ := last
    obtain rfl : kind = .eof := isEof
    rfl
  · have left : taken ++ last :: more = front := by
      rw [List.concat_eq_append, ← List.cons_append, ← List.append_assoc] at whole
      exact (List.append_inj' whole rfl).1
    exact absurd isEof (others last (by simp [← left]))

theorem endsOnce_cons {token : Token} {tokens : List Token} (notEof : token.kind ≠ .eof)
    (h : EndsOnce tokens) : EndsOnce (token :: tokens) := by
  obtain ⟨front, stop, rfl, others⟩ := h
  exact ⟨token :: front, stop, rfl, List.forall_mem_cons.2 ⟨notEof, others⟩⟩

theorem Scan.token_isLexical {pos : Nat} {c : Char} {rest : List Char} {kind : TokenKind}
    (h : (next pos c rest).lexeme = .token kind) : kind.IsLexical ∧ kind ≠ .eof := by
  refine next_cases
    (motive := fun scan => (scan pos).lexeme = .token kind → kind.IsLexical ∧ kind ≠ .eof)
    ?blank ?lineComment ?blockComment ?string ?template ?number ?word ?symbol h
  case blank | lineComment | template => rintro - ⟨⟩
  case blockComment =>
    intro _ h
    simp only [blockComment] at h
    split at h <;> cases h
  case string =>
    intro _ h
    simp only [string] at h
    split at h <;> cases h
    exact ⟨trivial, TokenKind.noConfusion⟩
  case number =>
    intro _ h
    simp only [number] at h
    split at h <;> cases h
    exact ⟨trivial, TokenKind.noConfusion⟩
  case word =>
    intro _ h
    obtain rfl := Lexeme.token.inj h
    rw [wordKind]
    split
    · exact ⟨trivial, TokenKind.noConfusion⟩
    next unreserved => exact ⟨unreserved, TokenKind.noConfusion⟩
  case symbol =>
    intro h
    simp only [symbol] at h
    split at h
    next found =>
      obtain rfl := Lexeme.token.inj h
      obtain ⟨_, _, _, _, spelled⟩ := exists_of_symbolAt? found
      rcases exists_of_symbol? spelled with ⟨op, -, rfl⟩ | ⟨mark, -, rfl⟩ <;>
        exact ⟨trivial, TokenKind.noConfusion⟩
    · cases h

theorem lexFrom_lexical (pos : Nat) (cs : List Char) :
    Lexical (lexFrom pos cs).tokens ∧ EndsOnce (lexFrom pos cs).tokens := by
  induction pos, cs using lexFrom_induction with
  | nil pos =>
    rw [lexFrom_nil]
    refine ⟨fun token mem => ?_, [], ⟨pos, pos⟩, rfl, List.forall_mem_nil _⟩
    obtain rfl := List.mem_singleton.1 mem
    trivial
  | cons pos c rest tail inside =>
    obtain ⟨lexical, ends⟩ := tail
    rw [lexFrom_cons]
    dsimp only
    cases is : (Scan.next pos c rest).lexeme with
    | skipped => exact ⟨lexical, ends⟩
    | faulty errors => exact ⟨lexical, ends⟩
    | token kind =>
      obtain ⟨here, notEof⟩ := Scan.token_isLexical is
      refine ⟨lexical_cons.2 ⟨here, ?_, lexical⟩, endsOnce_cons notEof ends⟩
      intro inner mem
      rw [Token.kind, TokenKind.inner_of_plain (Scan.next_token is)] at mem
      cases mem
    | template head holes =>
      have inner := inside head holes is
      refine ⟨lexical_cons.2 ⟨?_, ?_, lexical⟩, endsOnce_cons TokenKind.noConfusion ends⟩
      · exact List.forall_mem_map.2 fun hole mem => (inner hole mem).2
      · intro token mem
        obtain ⟨_, isHole, mem⟩ := mem_innerTokens.1 mem
        obtain ⟨hole, among, rfl⟩ := List.mem_map.1 isHole
        exact (inner hole among).1 token mem

theorem lexical_of_tokenize {source : String} {base : Nat} {tokens : List Token}
    (h : tokenize source base = .ok tokens) : Lexical tokens ∧ EndsOnce tokens := by
  rw [tokenize] at h
  split at h
  · cases h
    exact lexFrom_lexical base source.toList
  · cases h

end ScriptToGo
