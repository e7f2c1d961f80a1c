import ScriptToGo.Grammar.Expr
import ScriptToGo.Program.Statement

/-! Reading the parts of statements that hold no statements themselves. -/
namespace ScriptToGo.Grammar

/-- Reads a type after a colon, if a colon is next. -/
def optionalType (c : Cursor) : Reading (Option TypeExpr) (c.size + 1) :=
  match c.mark? .colon with
  | some ⟨_, _, c₁, shorter⟩ => ((typeExpr c₁).map some).pastOptional shorter
  | none => .stay none c

/-- Reads a first value after an equals sign, if one is next. -/
def optionalValue (c : Cursor) : Reading (Option Expr) (c.size + 1) :=
  match c.operator? .assign with
  | some ⟨_, _, c₁, shorter⟩ => ((expression c₁).map some).pastOptional shorter
  | none => .stay none c

/-- Reads an expression unless the mark that may stand in its place is next. -/
def optionalExpression (absent : Punctuation) (c : Cursor) :
    Reading (Option Expr) (c.size + 1) :=
  if c.atMark absent then .stay none c
  else ((expression c).map some).loosen

def specifier (c : Cursor) : Reading Name c.size :=
  (c.expect TokenKind.string? "module specifier").map fun (text, span) => ⟨text, span⟩

/-- Reads the names that an import lists, up to and including the closing brace. -/
def importedNames (c : Cursor) : Reading (List ImportedName) c.size :=
  match c.mark? .rightBrace with
  | some ⟨_, _, c₁, shorter⟩ => .ok [] c₁ shorter
  | none =>
    (importedName c).andThen fun first c₁ _ =>
    match c₁.mark? .comma with
    | some ⟨_, _, c₂, shorter⟩ => ((importedNames c₂).map (first :: ·)).past shorter
    | none => (c₁.expectMark .rightBrace "'\x7d' after import list").map fun _ => [first]
termination_by c.size
where
  /-- Reads one name, with the local name that may replace it. -/
  importedName (c : Cursor) : Reading ImportedName c.size :=
    (c.expectName "imported name").andMaybe fun name c₁ _ =>
    match c₁.word? .asWord with
    | some ⟨_, _, c₂, shorter⟩ =>
      .pastOptional shorter <| (c₂.expectName "local name after 'as'").mapAt fun other c₃ =>
        ⟨c₃.spanFrom name.span.start, name.text, other.text⟩
    | none => .stay ⟨c₁.spanFrom name.span.start, name.text, name.text⟩ c₁

/-- Reads the path of an import after the names it gives. -/
def importSource (default? whole? : Option Name) (named : List ImportedName) (c : Cursor) :
    Reading ImportDecl c.size :=
  (c.expectWord .fromWord "'from' after import clause").andThen fun _ c₁ _ =>
  (specifier c₁).map fun path => ⟨default?, whole?, named, path⟩

/-- Reads the listed names or the name of the whole module, and the path. -/
def importBindings (default? : Option Name) (c : Cursor) : Reading ImportDecl c.size :=
  match c.operator? .star with
  | some ⟨_, star, c₁, shorter⟩ =>
    .past shorter <| (c₁.expectWord .asWord "'as' after '*' in import").andThen fun _ c₂ _ =>
      (c₂.expectName "namespace name").andThen fun name c₃ _ =>
      importSource default? (some ⟨name.text, c₃.spanFrom star.start⟩) [] c₃
  | none =>
  match c.mark? .leftBrace with
  | some ⟨_, _, c₁, shorter⟩ =>
    ((importedNames c₁).andThen fun named c₂ _ => importSource default? none named c₂).past shorter
  | none =>
    if default?.isSome then c.unexpected "'\x7b' or '*' after ',' in import"
    else c.unexpected "import clause or module specifier"

/-- Reads an import after its first word. A bare path imports for effect only. -/
def importDecl (c : Cursor) : Reading ImportDecl c.size :=
  match c.take? TokenKind.string? with
  | some ⟨path, span, c₁, shorter⟩ => .ok ⟨none, none, [], ⟨path, span⟩⟩ c₁ shorter
  | none =>
  match c.take? TokenKind.ident? with
  | none => importBindings none c
  | some ⟨name, span, c₁, shorter⟩ =>
    match c₁.mark? .comma with
    | some ⟨_, _, c₂, shorter₂⟩ =>
      ((importBindings (some ⟨name, span⟩) c₂).past shorter₂).past shorter
    | none => (importSource (some ⟨name, span⟩) none [] c₁).past shorter

/-- Reads parameters, up to and including the closing parenthesis. -/
def params (c : Cursor) : Reading (List Param) c.size :=
  match c.mark? .rightParen with
  | some ⟨_, _, c₁, shorter⟩ => .ok [] c₁ shorter
  | none =>
    (c.expectName "parameter name").andMaybe fun name c₁ _ =>
    (optionalType c₁).andThen fun type? c₂ _ =>
    let first : Param := ⟨c₂.spanFrom name.span.start, name, type?⟩
    match c₂.mark? .comma with
    | some ⟨_, _, c₃, shorter⟩ => ((params c₃).map (first :: ·)).past shorter
    | none => (c₂.expectMark .rightParen "')' after parameters").map fun _ => [first]
termination_by c.size

/-- Reads parameters and result type of a function after its name. -/
def functionSignature (isExported isDefault : Bool) (name? : Option Name) (c : Cursor) :
    Reading FunctionHead c.size :=
  (c.expectMark .leftParen "'(' after function name").andThen fun _ c₁ _ =>
  (params c₁).andMaybe fun list c₂ _ =>
  (optionalType c₂).map fun returns? => ⟨isExported, isDefault, name?, list, returns?⟩

/-- Reads a function after its first word, up to its body. Only a default export may be
anonymous. -/
def functionHead (isExported isDefault : Bool) (c : Cursor) : Reading FunctionHead c.size :=
  match c.take? TokenKind.ident? with
  | some ⟨name, span, c₁, shorter⟩ =>
    (functionSignature isExported isDefault (some ⟨name, span⟩) c₁).past shorter
  | none =>
    if isDefault then functionSignature isExported isDefault none c
    else c.unexpected "function name"

def interfaceDecl (isExported : Bool) (c : Cursor) : Reading InterfaceDecl c.size :=
  (c.expectName "interface name").andThen fun name c₁ _ =>
  (c₁.expectMark .leftBrace "'\x7b'").andThen fun _ c₂ _ =>
  (members c₂).map fun list => ⟨isExported, name, list⟩

def aliasDecl (isExported : Bool) (c : Cursor) : Reading AliasDecl c.size :=
  (c.expectName "type alias name").andThen fun name c₁ _ =>
  (c₁.expectOperator .assign "'=' after type alias name").andThen fun _ c₂ _ =>
  (typeExpr c₂).map fun type => ⟨isExported, name, type⟩

def variableKeyword? : TokenKind → Option VariableKeyword
  | .keyword .constWord => some .constant
  | .keyword .letWord => some .letWord
  | .keyword .varWord => some .varWord
  | _ => none

/-- Reads declared variables with commas between them. -/
def declarators (c : Cursor) : Reading (List Declarator) c.size :=
  (c.expectName "variable name").andMaybe fun name c₁ _ =>
  (optionalType c₁).andMaybe fun type? c₂ _ =>
  (optionalValue c₂).andMaybe fun initializer? c₃ _ =>
  let first : Declarator := ⟨c₃.spanFrom name.span.start, name, type?, initializer?⟩
  match c₃.mark? .comma with
  | some ⟨_, _, c₄, shorter⟩ => ((declarators c₄).map (first :: ·)).pastOptional shorter
  | none => .stay [first] c₃
termination_by c.size

def loopStart (c : Cursor) : Reading LoopStart (c.size + 1) :=
  if c.atMark .semicolon then .stay .nothing c
  else
    match c.take? variableKeyword? with
    | some ⟨keyword, _, c₁, shorter⟩ =>
      .pastOptional shorter <| (declarators c₁).mapAt fun list c₂ =>
        .«variables» (c₂.spanFrom c.start) ⟨keyword, list⟩
    | none => ((expression c).map .expression).loosen

/-- Reads the clauses of a counted loop after its first word. -/
def loopClauses (c : Cursor) : Reading LoopClauses c.size :=
  (c.expectMark .leftParen "'(' after 'for'").andMaybe fun _ c₁ _ =>
  (loopStart c₁).andThen fun start c₂ _ =>
  (c₂.expectMark .semicolon "';' after loop initializer").andMaybe fun _ c₃ _ =>
  (optionalExpression .semicolon c₃).andThen fun condition? c₄ _ =>
  (c₄.expectMark .semicolon "';' after loop condition").andMaybe fun _ c₅ _ =>
  (optionalExpression .rightParen c₅).andThen fun step? c₆ _ =>
  (c₆.expectMark .rightParen "')' after loop clauses").map fun _ => ⟨start, condition?, step?⟩

/-- Reads a condition in parentheses after the word that wants it. -/
def condition (word : Keyword) (c : Cursor) : Reading Expr c.size :=
  (c.expectMark .leftParen s!"'(' after '{word.spelling}'").andThen fun _ c₁ _ =>
  (expression c₁).andThen fun value c₂ _ =>
  (c₂.expectMark .rightParen "')' after condition").map fun _ => value

/-- Reads the value of a return, which a semicolon, a closing brace or the end of the text shows
to be absent. -/
def returnValue (c : Cursor) : Reading (Option Expr) (c.size + 1) :=
  if c.atMark .rightBrace || c.atEnd then .stay none c
  else optionalExpression .semicolon c

end ScriptToGo.Grammar
