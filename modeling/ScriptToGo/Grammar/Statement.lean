import ScriptToGo.Grammar.Declaration

/-! Reading statements. -/
namespace ScriptToGo.Grammar

mutual

/-- Reads a statement. The semicolon that may end it belongs to its range. -/
def statement (c : Cursor) : Reading Statement c.size :=
  let start := c.start
  match c.next? with
  | some ⟨.keyword .importWord, _, c₁, _, shorter⟩ =>
    .past shorter <| (importDecl c₁).thenSemicolon.mapAt fun decl c₂ =>
      .importing (c₂.spanFrom start) decl
  | some ⟨.keyword .exportWord, _, c₁, _, shorter⟩ => (exported start c₁).past shorter
  | some ⟨.keyword .functionWord, _, c₁, _, shorter⟩ => (function start false false c₁).past shorter
  | some ⟨.keyword .interfaceWord, _, c₁, _, shorter⟩ =>
    .past shorter <| (interfaceDecl false c₁).mapAt fun decl c₂ =>
      .interface (c₂.spanFrom start) decl
  | some ⟨.keyword .typeWord, _, c₁, _, shorter⟩ =>
    .past shorter <| (aliasDecl false c₁).thenSemicolon.mapAt fun decl c₂ =>
      .typeAlias (c₂.spanFrom start) decl
  | some ⟨.keyword .forWord, _, c₁, _, shorter⟩ =>
    .past shorter <| (loopClauses c₁).andThen fun clauses c₂ _ =>
      (statement c₂).mapAt fun body c₃ => .forLoop (c₃.spanFrom start) clauses body
  | some ⟨.keyword .returnWord, _, c₁, _, shorter⟩ =>
    ((returnValue c₁).thenSemicolon.mapAt fun value? c₂ =>
      .returning (c₂.spanFrom start) value?).weaken shorter
  | some ⟨.keyword .ifWord, _, c₁, _, shorter⟩ =>
    ((condition .ifWord c₁).andThen fun test c₂ _ =>
      (statement c₂).andMaybe fun thenBranch c₃ _ =>
      match c₃.word? .elseWord with
      | some ⟨_, _, c₄, shorter⟩ =>
        .pastOptional shorter <| (statement c₄).mapAt fun elseBranch c₅ =>
          .ifElse (c₅.spanFrom start) test thenBranch elseBranch
      | none => .stay (.ifThen (c₃.spanFrom start) test thenBranch) c₃).past shorter
  | some ⟨.keyword .whileWord, _, c₁, _, shorter⟩ =>
    .past shorter <| (condition .whileWord c₁).andThen fun test c₂ _ =>
      (statement c₂).mapAt fun body c₃ => .whileLoop (c₃.spanFrom start) test body
  | some ⟨.keyword .doWord, _, c₁, _, shorter⟩ =>
    .past shorter <| (statement c₁).andThen fun body c₂ _ =>
      (c₂.expectWord .whileWord "'while' after 'do' body").andThen fun _ c₃ _ =>
      (condition .whileWord c₃).thenSemicolon.mapAt fun test c₄ =>
        .doLoop (c₄.spanFrom start) body test
  | some ⟨.punctuation .leftBrace, _, c₁, _, shorter⟩ =>
    ((statements c₁).mapAt fun list c₂ => .block (c₂.spanFrom start) list).past shorter
  | some ⟨.punctuation .semicolon, _, c₁, _, shorter⟩ => .ok (.empty (c₁.spanFrom start)) c₁ shorter
  | _ =>
    match c.take? variableKeyword? with
    | some ⟨keyword, _, c₁, shorter⟩ =>
      .past shorter <| (declarators c₁).thenSemicolon.mapAt fun list c₂ =>
        .«variables» (c₂.spanFrom start) ⟨keyword, list⟩
    | none =>
      (expression c).thenSemicolon.mapAt fun value c₁ => .expression (c₁.spanFrom start) value
termination_by 16 * c.size

/-- Reads statements, up to and including the brace that closes their block. -/
def statements (c : Cursor) : Reading (List Statement) c.size :=
  if c.atMark .rightBrace || c.atEnd then
    (c.expectMark .rightBrace "'\x7d' to close block").map fun _ => []
  else
    (statement c).andThen fun first c₁ _ =>
    (statements c₁).map (first :: ·)
termination_by 16 * c.size + 1

/-- Reads a function after its first word. The statement starts at `start`. Without a block it is
an overload. -/
def function (start : Nat) (isExported isDefault : Bool) (c : Cursor) : Reading Statement c.size :=
  (functionHead isExported isDefault c).andMaybe fun head c₁ _ =>
  match c₁.mark? .leftBrace with
  | some ⟨_, _, c₂, shorter⟩ =>
    .pastOptional shorter <| (statements c₂).mapAt fun body c₃ =>
      .function (c₃.spanFrom start) head (c₃.spanFrom c₁.start) body
  | none =>
    (Reading.stay head c₁).thenSemicolon.mapAt fun head c₂ => .overload (c₂.spanFrom start) head
termination_by 16 * c.size

/-- Reads what is exported, after the word that says so. The statement starts at `start`. -/
def exported (start : Nat) (c : Cursor) : Reading Statement c.size :=
  match c.word? .defaultWord with
  | some ⟨_, _, c₁, shorter⟩ =>
    match c₁.word? .functionWord with
    | some ⟨_, _, c₂, shorter₂⟩ => ((function start true true c₂).past shorter₂).past shorter
    | none => (c₁.unexpected "'function' after 'export default'").past shorter
  | none =>
  match c.next? with
  | some ⟨.keyword .functionWord, _, c₁, _, shorter⟩ => (function start true false c₁).past shorter
  | some ⟨.keyword .interfaceWord, _, c₁, _, shorter⟩ =>
    .past shorter <| (interfaceDecl true c₁).mapAt fun decl c₂ =>
      .interface (c₂.spanFrom start) decl
  | some ⟨.keyword .typeWord, _, c₁, _, shorter⟩ =>
    .past shorter <| (aliasDecl true c₁).thenSemicolon.mapAt fun decl c₂ =>
      .typeAlias (c₂.spanFrom start) decl
  | _ => c.unexpected "'function', 'interface' or 'type' after 'export'"
termination_by 16 * c.size

end

end ScriptToGo.Grammar
