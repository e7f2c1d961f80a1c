import ScriptToGo.Proofs.Token.Rereading

/-! The texts of number tokens are those that have the form of what is scanned. Exactly the tidy ones
among them are well-formed literals. -/
namespace ScriptToGo
open Text (byteLength)

open NumberScan (Digits Mantissa Exponent IsDigitRun IsScanned IsWellFormed IsTidy isNumeral_iff
  isWellFormed_iff)

/-- A text that can be scanned is a number token as a whole. -/
theorem tokenize_number {text : String} (h : IsScanned text.toList) (base : Nat) :
    tokenize text base = .ok [.mk (.number text) ⟨base, base + byteLength text.toList⟩,
      .mk .eof ⟨base + byteLength text.toList, base + byteLength text.toList⟩] := by
  have ends : NumberScan.Ends [] := ⟨rfl, by simp⟩
  obtain ⟨c, rest, written, next⟩ := TokenKind.readBefore_number (isNumeral_iff.2 h) ends
  have chars : text.toList = c :: rest := written
  have cut := next base
  rw [List.append_nil, TokenKind.written, TokenKind.spelling?, Option.getD_some] at cut
  have lexed : lexFrom base text.toList =
      ⟨[.mk (.number text) ⟨base, base + byteLength text.toList⟩,
        .mk .eof ⟨base + byteLength text.toList, base + byteLength text.toList⟩], []⟩ := by
    conv_lhs => rw [chars]
    rw [lexFrom_cons, cut]
    dsimp only
    rw [lexFrom_nil]
    rfl
  rw [tokenize_eq_ok_iff, lexed]
  exact ⟨rfl, rfl⟩

theorem isScanned_of_tokenize {source : String} {base : Nat} {tokens : List Token}
    (h : tokenize source base = .ok tokens) :
    ∀ token ∈ allTokens tokens, ∀ text, token.kind = .number text → IsScanned text.toList := by
  intro token mem text is
  have readable := isReadable_of_tokenize h token mem
  rw [is] at readable
  exact isNumeral_iff.1 readable

/-- The text of a number token has the form of what is scanned, and it is a well-formed literal if
and only if it is tidy. -/
theorem numbers_wellFormed_iff {source : String} {base : Nat} {tokens : List Token}
    (h : tokenize source base = .ok tokens) :
    ∀ token ∈ allTokens tokens, ∀ text, token.kind = .number text →
      IsScanned text.toList ∧ (IsWellFormed text.toList ↔ IsTidy text.toList) := by
  intro token mem text is
  have scanned := isScanned_of_tokenize h token mem text is
  rw [isWellFormed_iff]
  exact ⟨scanned, and_iff_right scanned⟩

/-- A hexadecimal number in a template, a fraction with a separator in its exponent, and a number
with two separators in a row. -/
def mixedNumbers : String := "\x60$\x7b0xF_f\x7d\x60 + .5e-1_0 - 1__0"

theorem mixedNumbers_wellFormed :
    (∃ tokens, tokenize mixedNumbers 0 = .ok tokens) ∧
      IsTidy "0xF_f".toList ∧ IsTidy ".5e-1_0".toList ∧ ¬ IsWellFormed "1__0".toList := by
  have h : tokenize mixedNumbers 0 = .ok
      [.mk (.template "" [.mk [.mk (.number "0xF_f") ⟨3, 8⟩, .mk .eof ⟨8, 8⟩] ⟨3, 8⟩ ""]) ⟨0, 10⟩,
        .mk (.operator .plus) ⟨11, 12⟩, .mk (.number ".5e-1_0") ⟨13, 20⟩,
        .mk (.operator .minus) ⟨21, 22⟩, .mk (.number "1__0") ⟨23, 27⟩, .mk .eof ⟨27, 27⟩] := by
    simp only [mixedNumbers, tokenize, String.reduceToList, lexFrom_cons]
    cbv
  have hex : IsWellFormed "0xF_f".toList :=
    .radix (by decide) (.apart (by decide) (.one (by decide)))
  have point : Mantissa (Digits Text.isDigit) ['.', '5'] := .point (.one (by decide))
  have power : Exponent (Digits Text.isDigit) ['e', '-', '1', '_', '0'] :=
    .signed (.inl rfl) (.inr rfl) (.apart (by decide) (.one (by decide)))
  have fraction : IsWellFormed ".5e-1_0".toList := .decimal point power
  have doubled : ¬ IsTidy "1__0".toList := fun tidy =>
    absurd (tidy.separators ['1'] ['_', '0'] rfl).2 (by decide)
  have decided (text : String) (span : Span) (mem : Token.mk (.number text) span ∈ allTokens _) :=
    (numbers_wellFormed_iff h _ mem text rfl).2
  refine ⟨⟨_, h⟩, ?_, ?_, fun formed => doubled ?_⟩
  · refine (decided _ ⟨3, 8⟩ ?_).1 hex
    simp [allTokens, Token.all, TokenKind.inner, innerTokens, Hole.inner]
  · refine (decided _ ⟨13, 20⟩ ?_).1 fraction
    simp [allTokens, Token.all]
  · refine (decided _ ⟨23, 27⟩ ?_).1 formed
    simp [allTokens, Token.all]

/-- A digit of another radix, a radix without digits, and a separator at the end are all read as
numbers. -/
theorem untidy_numbers :
    (tokenize "0b2" 0 = .ok [.mk (.number "0b2") ⟨0, 3⟩, .mk .eof ⟨3, 3⟩] ∧
        ¬ IsWellFormed "0b2".toList) ∧
      (tokenize "0x" 0 = .ok [.mk (.number "0x") ⟨0, 2⟩, .mk .eof ⟨2, 2⟩] ∧
        ¬ IsWellFormed "0x".toList) ∧
      (tokenize "1_" 0 = .ok [.mk (.number "1_") ⟨0, 2⟩, .mk .eof ⟨2, 2⟩] ∧
        ¬ IsWellFormed "1_".toList) := by
  have binary : IsScanned "0b2".toList :=
    .radix (by decide) (List.forall_mem_singleton.2 (.inl (by decide)))
  have bare : IsScanned "0x".toList := .radix (by decide) (List.forall_mem_nil _)
  have run : IsDigitRun ['1', '_'] :=
    ⟨by decide, List.forall_mem_cons.2 ⟨.inl (by decide), List.forall_mem_singleton.2 (.inr rfl)⟩⟩
  have trailing : IsScanned "1_".toList := .decimal (.whole run) .none
  refine ⟨⟨tokenize_number binary 0, ?_⟩, ⟨tokenize_number bare 0, ?_⟩,
    tokenize_number trailing 0, ?_⟩ <;> rw [isWellFormed_iff] <;> rintro ⟨-, tidy⟩
  · exact absurd ((tidy.radix 'b' ['2'] rfl (by decide)).2 '2' List.mem_cons_self) (by decide)
  · exact (tidy.radix 'x' [] rfl (by decide)).1 rfl
  · exact absurd (tidy.separators ['1'] [] rfl).2 (by decide)

end ScriptToGo
