import ScriptToGo.Grammar.Cursor

/-! Reading written types. -/
namespace ScriptToGo.Grammar

/-- Reads the brackets that make arrays of a type already read, which starts at `start`. -/
def arraySuffixes (start : Nat) (type : TypeExpr) (c : Cursor) :
    Reading TypeExpr (c.size + 1) :=
  match c.mark? .leftBracket with
  | none => .stay type c
  | some ⟨_, _, c₁, shorter⟩ =>
    match c₁.mark? .rightBracket with
    | none => .stay type c
    | some ⟨_, _, c₂, shorter₂⟩ =>
      .pastOptional shorter <|
        (arraySuffixes start (.array (c₂.spanFrom start) type) c₂).weaken shorter₂
termination_by c.size

mutual

def typeExpr (c : Cursor) : Reading TypeExpr c.size :=
  (primaryType c).andMaybe fun type c₁ _ => arraySuffixes c.start type c₁
termination_by 8 * c.size + 1

/-- Reads a type up to the brackets that may follow it. -/
def primaryType (c : Cursor) : Reading TypeExpr c.size :=
  let start := c.start
  match c.next? with
  | none => c.unexpected "type"
  | some ⟨.ident name, _, c₁, _, shorter⟩ =>
    match c₁.operator? .less with
    | none => .ok (.named (c₁.spanFrom start) name []) c₁ shorter
    | some ⟨_, _, c₂, shorter₂⟩ =>
      .past shorter <| .past shorter₂ <| (typeArguments c₂).mapAt fun args c₃ =>
        .named (c₃.spanFrom start) name args
  | some ⟨.string body, _, c₁, _, shorter⟩ => .ok (.string (c₁.spanFrom start) body) c₁ shorter
  | some ⟨.number text, _, c₁, _, shorter⟩ => .ok (.number (c₁.spanFrom start) text) c₁ shorter
  | some ⟨.operator .minus, _, c₁, _, shorter⟩ =>
    match c₁.next? with
    | some ⟨.number text, _, c₂, _, shorter₂⟩ =>
      (Reading.ok (.number (c₂.spanFrom start) s!"-{text}") c₂ shorter₂).past shorter
    | _ => (c₁.unexpected "number after '-' in type").past shorter
  | some ⟨.keyword .trueWord, _, c₁, _, shorter⟩ =>
    .ok (.boolean (c₁.spanFrom start) true) c₁ shorter
  | some ⟨.keyword .falseWord, _, c₁, _, shorter⟩ =>
    .ok (.boolean (c₁.spanFrom start) false) c₁ shorter
  | some ⟨.keyword .nullWord, _, c₁, _, shorter⟩ => .ok (.null (c₁.spanFrom start)) c₁ shorter
  | some ⟨.punctuation .leftBrace, _, c₁, _, shorter⟩ =>
    ((members c₁).mapAt fun list c₂ => .object (c₂.spanFrom start) list).past shorter
  | some ⟨.punctuation .leftParen, _, c₁, _, shorter⟩ =>
    .past shorter <| (typeExpr c₁).andThen fun inner c₂ _ =>
      (c₂.expectMark .rightParen "')' after type").mapAt fun _ c₃ =>
        inner.withSpan (c₃.spanFrom start)
  | some _ => c.unexpected "type"
termination_by 8 * c.size

/-- Reads type arguments after the opening angle bracket, up to and including the closing one. -/
def typeArguments (c : Cursor) : Reading (List TypeExpr) c.size :=
  (typeExpr c).andThen fun first c₁ _ =>
  match c₁.mark? .comma with
  | some ⟨_, _, c₂, shorter⟩ => ((typeArguments c₂).map (first :: ·)).past shorter
  | none => (c₁.expectOperator .greater "'>' after type arguments").map fun _ => [first]
termination_by 8 * c.size + 2

/-- Reads members after the opening brace, up to and including the closing one. A semicolon or a
comma stands between members and may follow the last. -/
def members (c : Cursor) : Reading (List Member) c.size :=
  if c.atMark .rightBrace || c.atEnd then
    (c.expectMark .rightBrace "'\x7d' after members").map fun _ => []
  else
    (c.expectName "property name").andThen fun name c₁ _ =>
    let c₂ := c₁.skipMark .question
    have noLonger : c₂.size ≤ c₁.size := c₁.skipMark_size .question
    ((c₂.expectMark .colon "':' after property name").andThen fun _ c₃ _ =>
      (typeExpr c₃).andThen fun type c₄ _ =>
      let member := Member.mk (c₄.spanFrom name.span.start) name.text (c₁.atMark .question) type
      match (c₄.mark? .semicolon).or (c₄.mark? .comma) with
      | some ⟨_, _, c₅, shorter⟩ => ((members c₅).map (member :: ·)).past shorter
      | none =>
        (c₄.expectMark .rightBrace "'\x7d' after members").map fun _ => [member]).weaken noLonger
termination_by 8 * c.size + 2

end

end ScriptToGo.Grammar
