import ScriptToGo.Proofs.Token.Coverage

/-! The literals of a source text are tokens with the same values. -/
namespace ScriptToGo
open SourceLiteral (stringStops templateStops)
open Text (StandsAt byteLength)

variable {source : String} {base : Nat} {tokens : List Token} {token : Token}

/-- A string token stands between its quotes and has the value of what is between them. -/
def Token.KeepsString (source : String) (base : Nat) (token : Token) (body : String) : Prop :=
  ∃ place quote raw, (quote = '"' ∨ quote = '\'') ∧
    StandsAt source.toList place (quote :: (raw ++ [quote])) ∧
    token.span = ⟨base + place, base + place + byteLength (quote :: (raw ++ [quote]))⟩ ∧
    SameValue (stringStops quote) raw body.toList

/-- A template token stands between its backticks, and each of its static texts has the value of
what is there in the source. -/
def Token.KeepsTemplate (source : String) (base : Nat) (token : Token) (head : String)
    (holes : List Hole) : Prop :=
  ∃ place text parts, holes = parts.map Prod.snd ∧
    StandsAt source.toList place ('\x60' :: text) ∧
    token.span = ⟨base + place, base + place + byteLength ('\x60' :: text)⟩ ∧
    Interleaved (base + place + 1) text head.toList parts

theorem Token.Stands.keepsString {body : String} (h : token.Stands source.toList base)
    (is : token.kind = .string body) : token.KeepsString source base body := by
  obtain ⟨place, lexeme, after, stands, span, ⟨eof, -⟩ | ⟨-, parts, written⟩⟩ := h
  · rw [is] at eof
    cases eof
  · rw [is] at written
    cases written with
    | spelled spelled => cases spelled.spelling
    | string quotes whole same =>
      subst whole
      exact ⟨place, _, _, quotes, stands.front, span, same⟩

theorem Token.Stands.keepsTemplate {head : String} {holes : List Hole}
    (h : token.Stands source.toList base) (is : token.kind = .template head holes) :
    token.KeepsTemplate source base head holes := by
  obtain ⟨place, lexeme, after, stands, span, ⟨eof, -⟩ | ⟨-, parts, written⟩⟩ := h
  · rw [is] at eof
    cases eof
  · rw [is] at written
    cases written with
    | spelled spelled => cases spelled.spelling
    | template whole interleaved =>
      subst whole
      exact ⟨place, _, _, rfl, stands.front, span, interleaved⟩

/-- The Go literals made from the strings and from the static texts of the templates of a source
text are such literals, and have the values that the source gives them. -/
theorem literals_keep_value (h : tokenize source base = .ok tokens) :
    ∀ token ∈ allTokens tokens,
      (∀ body, token.kind = .string body → token.KeepsString source base body) ∧
        ∀ head holes, token.kind = .template head holes →
          token.KeepsTemplate source base head holes := by
  intro token mem
  have stands := (tiles_of_tokenize h).2 token mem
  exact ⟨fun body is => stands.keepsString is, fun head holes is => stands.keepsTemplate is⟩

/-- A pair of surrogates, a continued line, a quote and a needless backslash in a string, and a
percent sign, a line end and an accent in a template. -/
def escapedText : String := "'\\x41\\ud83d\\ude00\\\n\"\\q\\0'\x60\\x25$\x7bv\x7d\n\\u00e9\x60"

theorem escapedText_keeps_value :
    (∃ tokens, tokenize escapedText 0 = .ok tokens) ∧
      Token.KeepsString escapedText 0 (.mk (.string "\\x41\\U0001f600\\\"q\\x00") ⟨0, 25⟩)
        "\\x41\\U0001f600\\\"q\\x00" ∧
      Token.KeepsTemplate escapedText 0
        (.mk (.template "\\x25" [.mk [.mk (.ident "v") ⟨32, 33⟩, .mk .eof ⟨33, 33⟩] ⟨32, 33⟩
          "\\n\\u00e9"]) ⟨25, 42⟩)
        "\\x25" [.mk [.mk (.ident "v") ⟨32, 33⟩, .mk .eof ⟨33, 33⟩] ⟨32, 33⟩ "\\n\\u00e9"] := by
  have h : tokenize escapedText 0 = .ok
      [.mk (.string "\\x41\\U0001f600\\\"q\\x00") ⟨0, 25⟩,
        .mk (.template "\\x25" [.mk [.mk (.ident "v") ⟨32, 33⟩, .mk .eof ⟨33, 33⟩] ⟨32, 33⟩
          "\\n\\u00e9"]) ⟨25, 42⟩,
        .mk .eof ⟨42, 42⟩] := by
    simp only [escapedText, tokenize, String.reduceToList, lexFrom_cons]
    cbv
  refine ⟨⟨_, h⟩, ?_, ?_⟩
  · exact (literals_keep_value h _ (by simp [allTokens, Token.all])).1 _ rfl
  · exact (literals_keep_value h _ (by simp [allTokens, Token.all])).2 _ _ rfl

end ScriptToGo
