import ScriptToGo.Proofs.Grammar.NodePlaces
import ScriptToGo.Proofs.Grammar.PrintedTypes

/-! The types of a program are read back from their texts. -/
namespace ScriptToGo

/-- What is known of a token because it was cut from a text: its name or number can be cut again, and
the inside of a string is kept in the form that strings are kept in. -/
def TokenKind.IsKept : TokenKind → Prop
  | .string body => StoredBody body.toList
  | kind => kind.IsReadable

theorem isKept_of_tokenize {source : String} {base : Nat} {tokens : List Token}
    (h : tokenize source base = .ok tokens) {token : Token} (mem : token ∈ allTokens tokens) :
    token.kind.IsKept := by
  have readable := isReadable_of_tokenize h token mem
  cases is : token.kind with
  | string body => exact storedBody_of_tokenize h mem is
  | _ => rwa [is] at readable

theorem TokenKind.IsKept.recurs {kind : TokenKind} (h : kind.IsKept)
    (short : ∀ body, kind = .string body → longEscapeIn body.toList = false) : kind.Recurs := by
  cases kind with
  | string body => exact ⟨h, short body rfl⟩
  | _ => exact h

/-- A number without a sign is one token. -/
theorem numberKinds_unsigned {text : String} (numeral : NumberScan.IsNumeral text.toList) :
    numberKinds text = [.number text] := by
  have noSign := IsNumeral.head_ne numeral (by decide : Text.isDigit '-' = false) (by decide) []
  rw [List.append_nil] at noSign
  have plain : ¬text.toList.head? = some '-' := fun minus => noSign _ minus rfl
  rw [numberKinds, if_neg plain]

theorem numberKinds_negative (text : String) :
    numberKinds s!"-{text}" = [.operator .minus, .number text] := by
  simp [numberKinds, toString]

namespace TypeExpr

mutual

/-- A type and all types inside of it. -/
def parts : TypeExpr → List TypeExpr
  | named s name args => named s name args :: argParts args
  | array s element => array s element :: element.parts
  | string s body => [string s body]
  | number s text => [number s text]
  | boolean s value => [boolean s value]
  | null s => [null s]
  | object s members => object s members :: memberParts members

def argParts : List TypeExpr → List TypeExpr
  | [] => []
  | arg :: rest => arg.parts ++ argParts rest

def memberParts : List Member → List TypeExpr
  | [] => []
  | .mk _ _ _ type :: rest => type.parts ++ memberParts rest

end

theorem mem_parts_self (type : TypeExpr) : type ∈ type.parts := by
  cases type <;> simp [parts]

theorem kinds_withSpan (type : TypeExpr) (s : Span) : (type.withSpan s).kinds = type.kinds := by
  cases type with
  | named _ _ args => cases args <;> rfl
  | _ => rfl

/-- The tokens of a named type are its name, those of its arguments and the marks between them. -/
theorem mem_kinds_named {s : Span} {name : String} {args : List TypeExpr} {kind : TokenKind} :
    kind ∈ (named s name args).kinds → kind = .ident name ∨ kind ∈ laterKinds args ∨
      ∃ op, kind = .operator op := by
  cases args with
  | nil => exact fun mem => .inl (List.mem_singleton.1 mem)
  | cons first rest =>
    simp only [kinds, laterKinds, List.mem_cons, List.mem_append, List.not_mem_nil, or_false]
    rintro (is | is | mem | mem | is)
    · exact .inl is
    · exact .inr (.inr ⟨_, is⟩)
    · exact .inr (.inl (.inr (.inl mem)))
    · exact .inr (.inl (.inr (.inr mem)))
    · exact .inr (.inr ⟨_, is⟩)

theorem membersKinds_cons (member : Member) (rest : List Member) :
    membersKinds (member :: rest) = membersKinds [member] ++ membersKinds rest := by
  cases member
  simp [membersKinds]

mutual

theorem WrittenBy.kinds_kept {type : TypeExpr} {ts : List Token} (h : type.WrittenBy ts)
    (kept : ∀ token ∈ ts, token.kind.IsKept) : ∀ kind ∈ type.kinds, kind.IsKept := by
  match h with
  | .named => exact List.forall_mem_singleton.2 (kept _ List.mem_cons_self)
  | .generic whole args =>
    subst whole
    simp only [List.forall_mem_cons, List.forall_mem_append] at kept
    intro kind mem
    rcases mem_kinds_named mem with rfl | mem | ⟨_, rfl⟩
    · exact kept.1
    · exact ArgsWrittenBy.kinds_kept args kept.2.2.1 kind mem
    · trivial
  | .string => exact List.forall_mem_singleton.2 (kept _ List.mem_cons_self)
  | @TypeExpr.WrittenBy.number text s =>
    have number : (TokenKind.number text).IsKept := kept _ List.mem_cons_self
    rw [kinds, numberKinds_unsigned number]
    exact List.forall_mem_singleton.2 number
  | .negative whole =>
    subst whole
    rw [List.forall_mem_cons, List.forall_mem_singleton] at kept
    rw [kinds, numberKinds_negative, List.forall_mem_cons, List.forall_mem_singleton]
    exact kept
  | .trueWord _ | .falseWord _ | .null _ => exact List.forall_mem_singleton.2 trivial
  | .object whole members =>
    subst whole
    simp only [List.forall_mem_cons, List.forall_mem_append] at kept
    simp only [kinds, List.forall_mem_cons, List.forall_mem_append]
    exact ⟨trivial, membersKinds_kept members kept.2.1, trivial, List.forall_mem_nil _⟩
  | .paren whole inner =>
    subst whole
    simp only [List.forall_mem_cons, List.forall_mem_append] at kept
    rw [kinds_withSpan]
    exact WrittenBy.kinds_kept inner kept.2.1
  | .array whole element =>
    subst whole
    rw [List.forall_mem_append] at kept
    simp only [kinds, List.forall_mem_cons, List.forall_mem_append]
    exact ⟨WrittenBy.kinds_kept element kept.1, trivial, trivial, List.forall_mem_nil _⟩

theorem ArgsWrittenBy.kinds_kept {args : List TypeExpr} {ts : List Token}
    (h : ArgsWrittenBy args ts) (kept : ∀ token ∈ ts, token.kind.IsKept) :
    ∀ kind ∈ laterKinds args, kind.IsKept := by
  match h with
  | .last type =>
    simp only [laterKinds, List.forall_mem_cons, List.append_nil]
    exact ⟨trivial, WrittenBy.kinds_kept type kept⟩
  | .cons type rest =>
    simp only [List.forall_mem_cons, List.forall_mem_append] at kept
    simp only [laterKinds, List.forall_mem_cons, List.forall_mem_append]
    exact ⟨trivial, WrittenBy.kinds_kept type kept.1, ArgsWrittenBy.kinds_kept rest kept.2.2⟩

theorem memberKinds_kept {member : Member} {ts : List Token} (h : member.WrittenBy ts)
    (kept : ∀ token ∈ ts, token.kind.IsKept) : ∀ kind ∈ membersKinds [member], kind.IsKept := by
  match h with
  | .required whole type =>
    subst whole
    simp only [List.forall_mem_cons] at kept
    have written := WrittenBy.kinds_kept type kept.2.2
    simp only [membersKinds, List.forall_mem_cons, List.forall_mem_append]
    exact ⟨kept.1, List.forall_mem_nil _, trivial, written, trivial, List.forall_mem_nil _⟩
  | .optional whole type =>
    subst whole
    simp only [List.forall_mem_cons] at kept
    have written := WrittenBy.kinds_kept type kept.2.2.2
    simp only [membersKinds, List.forall_mem_cons, List.forall_mem_append]
    exact ⟨kept.1, List.forall_mem_singleton.2 trivial, trivial, written, trivial,
      List.forall_mem_nil _⟩

theorem membersKinds_kept {members : List Member} {ts : List Token}
    (h : Member.ListWrittenBy members ts) (kept : ∀ token ∈ ts, token.kind.IsKept) :
    ∀ kind ∈ membersKinds members, kind.IsKept := by
  match h with
  | .nil => exact List.forall_mem_nil _
  | .last member => exact memberKinds_kept member kept
  | .cons _ member rest =>
    simp only [List.forall_mem_cons, List.forall_mem_append] at kept
    rw [membersKinds_cons, List.forall_mem_append]
    exact ⟨memberKinds_kept member kept.1, membersKinds_kept rest kept.2.2⟩

end

theorem laterKinds_kept {s : Span} {name : String} {args : List TypeExpr}
    (kept : ∀ kind ∈ (named s name args).kinds, kind.IsKept) :
    ∀ kind ∈ laterKinds args, kind.IsKept := by
  cases args with
  | nil => exact List.forall_mem_nil _
  | cons first rest =>
    simp only [kinds, List.forall_mem_cons, List.forall_mem_append] at kept
    simp only [laterKinds, List.forall_mem_cons, List.forall_mem_append]
    exact ⟨trivial, kept.2.2.1, kept.2.2.2.1⟩

mutual

/-- The tokens of a type inside of another are cut from a text as those around it are. -/
theorem kinds_kept_of_mem_parts (whole : TypeExpr) (kept : ∀ kind ∈ whole.kinds, kind.IsKept)
    {type : TypeExpr} (mem : type ∈ whole.parts) : ∀ kind ∈ type.kinds, kind.IsKept := by
  match whole with
  | .named s name args =>
    rw [parts] at mem
    rcases List.mem_cons.1 mem with rfl | mem
    · exact kept
    · exact laterKinds_kept_of_mem_parts args (laterKinds_kept kept) mem
  | .array s element =>
    rw [parts] at mem
    rcases List.mem_cons.1 mem with rfl | mem
    · exact kept
    · rw [kinds, List.forall_mem_append] at kept
      exact kinds_kept_of_mem_parts element kept.1 mem
  | .string .. | .number .. | .boolean .. | .null _ =>
    rw [parts] at mem
    obtain rfl := List.mem_singleton.1 mem
    exact kept
  | .object s members =>
    rw [parts] at mem
    rcases List.mem_cons.1 mem with rfl | mem
    · exact kept
    · simp only [kinds, List.forall_mem_cons, List.forall_mem_append] at kept
      exact membersKinds_kept_of_mem_parts members kept.2.1 mem

theorem laterKinds_kept_of_mem_parts (args : List TypeExpr)
    (kept : ∀ kind ∈ laterKinds args, kind.IsKept) {type : TypeExpr} (mem : type ∈ argParts args) :
    ∀ kind ∈ type.kinds, kind.IsKept := by
  match args with
  | [] => cases mem
  | arg :: rest =>
    simp only [laterKinds, List.forall_mem_cons, List.forall_mem_append] at kept
    rw [argParts] at mem
    rcases List.mem_append.1 mem with mem | mem
    · exact kinds_kept_of_mem_parts arg kept.2.1 mem
    · exact laterKinds_kept_of_mem_parts rest kept.2.2 mem

theorem membersKinds_kept_of_mem_parts (members : List Member)
    (kept : ∀ kind ∈ membersKinds members, kind.IsKept) {type : TypeExpr}
    (mem : type ∈ memberParts members) : ∀ kind ∈ type.kinds, kind.IsKept := by
  match members with
  | [] => cases mem
  | .mk _ _ _ here :: rest =>
    simp only [membersKinds, List.forall_mem_cons, List.forall_mem_append] at kept
    rw [memberParts] at mem
    rcases List.mem_append.1 mem with mem | mem
    · exact kinds_kept_of_mem_parts here kept.2.2.2.1 mem
    · exact membersKinds_kept_of_mem_parts rest kept.2.2.2.2.2 mem

end

mutual

/-- A string among the tokens of a type is one of the types inside of it. -/
theorem exists_string_part (type : TypeExpr) {body : String} (mem : .string body ∈ type.kinds) :
    ∃ s, string s body ∈ type.parts := by
  match type with
  | .named _ _ args =>
    rcases mem_kinds_named mem with is | mem | ⟨_, is⟩
    · cases is
    · obtain ⟨s, part⟩ := exists_string_argPart args mem
      exact ⟨s, List.mem_cons_of_mem _ part⟩
    · cases is
  | .array _ element =>
    simp only [kinds, List.mem_append, List.mem_cons, reduceCtorEq, List.not_mem_nil,
      or_false] at mem
    obtain ⟨s, part⟩ := exists_string_part element mem
    exact ⟨s, List.mem_cons_of_mem _ part⟩
  | .string s _ =>
    obtain rfl : body = _ := TokenKind.string.inj (List.mem_singleton.1 mem)
    exact ⟨s, List.mem_cons_self⟩
  | .number .. =>
    rw [kinds, numberKinds] at mem
    split at mem <;> simp at mem
  | .boolean .. | .null _ => exact absurd (List.mem_singleton.1 mem) nofun
  | .object _ members =>
    simp only [kinds, List.mem_append, List.mem_cons, reduceCtorEq, List.not_mem_nil,
      or_false, false_or] at mem
    obtain ⟨s, part⟩ := exists_string_memberPart members mem
    exact ⟨s, List.mem_cons_of_mem _ part⟩

theorem exists_string_argPart (args : List TypeExpr) {body : String}
    (mem : .string body ∈ laterKinds args) : ∃ s, string s body ∈ argParts args := by
  match args with
  | [] => cases mem
  | arg :: rest =>
    simp only [laterKinds, List.mem_append, List.mem_cons, reduceCtorEq, false_or] at mem
    rcases mem with here | later
    · obtain ⟨s, part⟩ := exists_string_part arg here
      exact ⟨s, List.mem_append_left _ part⟩
    · obtain ⟨s, part⟩ := exists_string_argPart rest later
      exact ⟨s, List.mem_append_right _ part⟩

theorem exists_string_memberPart (members : List Member) {body : String}
    (mem : .string body ∈ membersKinds members) : ∃ s, string s body ∈ memberParts members := by
  match members with
  | [] => cases mem
  | .mk _ _ isOptional type :: rest =>
    have mem : .string body ∈ type.kinds ∨ .string body ∈ membersKinds rest := by
      cases isOptional <;> simpa [membersKinds] using mem
    rcases mem with here | later
    · obtain ⟨s, part⟩ := exists_string_part type here
      exact ⟨s, List.mem_append_left _ part⟩
    · obtain ⟨s, part⟩ := exists_string_memberPart rest later
      exact ⟨s, List.mem_append_right _ part⟩

end

/-- The text of a type, wherever it stands, is cut into tokens from which this type is read up to
the last, ranges aside. -/
def ReadsBack (type : TypeExpr) : Prop :=
  ∀ base, ∃ tokens start read stop, tokenize type.text base = .ok tokens ∧
    Cursor.ofTokens? tokens = some start ∧ (Grammar.typeExpr start).Gives read stop ∧
    stop.atEnd = true ∧ read.bare = type.bare

theorem readsBack_of_recurs {type : TypeExpr} (recurs : ∀ kind ∈ type.kinds, kind.Recurs) :
    type.ReadsBack := by
  intro base
  have cut : CutsInto type.kinds [] type.text.toList := type.cutsInto_text recurs nofun
  obtain ⟨tokens, final, lexed, same⟩ := cut.tokenize_eq base
  have closed : endsInEof (tokens ++ [.mk .eof final]) = true := by
    simp [endsInEof, Token.kind, TokenKind.isEof]
  obtain ⟨start, opened⟩ := Cursor.exists_ofTokens? closed
  obtain ⟨stop, passed, rest⟩ :=
    Cursor.exists_passes (Cursor.rest_of_ofTokens? opened) (List.cons_ne_nil _ _)
  have last : stop.peek.kind = .eof := by simp [Cursor.peek, rest, Token.kind]
  have ends := Grammar.typeExpr_readsUpTo type ⟨tokens, same, passed⟩ (by rw [last]; rfl)
  obtain ⟨read, given, bare⟩ := ends.gives (by rw [last]; rfl)
  exact ⟨_, start, read, stop, lexed, opened, given, by rw [Cursor.atEnd, last]; rfl, bare⟩

end TypeExpr

namespace Program

variable {source : String} {base : Nat} {tokens : List Token} {program : Program}

/-- Each type in a program, also one inside of another, is read back from its text, if it has no
string with a long escape in it. -/
theorem types_read_back (lexed : tokenize source base = .ok tokens)
    (parsed : ofTokens tokens = .ok program) :
    ∀ whole, .writtenType whole ∈ program.nodes → ∀ type ∈ whole.parts,
      (∀ s body, .string s body ∈ type.parts → longEscapeIn body.toList = false) →
      type.ReadsBack := by
  intro whole isNode type part short
  obtain ⟨own, within, -, written⟩ := node_writtenBy lexed parsed isNode
  have kept : ∀ kind ∈ whole.kinds, kind.IsKept := by
    cases written with
    | writtenType written =>
      exact written.kinds_kept fun token mem => isKept_of_tokenize lexed (within.mem mem)
  refine TypeExpr.readsBack_of_recurs fun kind mem => ?_
  have own := whole.kinds_kept_of_mem_parts kept part kind mem
  refine own.recurs ?_
  rintro body rfl
  obtain ⟨s, inside⟩ := type.exists_string_part mem
  exact short s body inside

/-- After an escaped backslash, a `U` begins no escape. -/
theorem escaped_backslash_read_back : ∃ tokens program,
    tokenize "type T='\\\\U'[]" 0 = .ok tokens ∧ ofTokens tokens = .ok program ∧
      ∃ whole, .writtenType whole ∈ program.nodes ∧ whole.text = "\"\\\\U\"[]" ∧
        (∀ s body, .string s body ∈ whole.parts → longEscapeIn body.toList = false) ∧
        whole.ReadsBack := by
  have front : lexFrom 0 "type T='\\\\U'[]".toList = ⟨[.mk (.keyword .typeWord) ⟨0, 4⟩,
      .mk (.ident "T") ⟨5, 6⟩, .mk (.operator .assign) ⟨6, 7⟩] ++
        (lexFrom 7 ('\'' :: "\\\\U'[]".toList)).tokens,
      (lexFrom 7 ('\'' :: "\\\\U'[]".toList)).errors⟩ := by cbv
  have string : lexFrom 7 ('\'' :: "\\\\U'[]".toList) = ⟨[.mk (.string "\\\\U") ⟨7, 12⟩,
      .mk (.punctuation .leftBracket) ⟨12, 13⟩, .mk (.punctuation .rightBracket) ⟨13, 14⟩,
      .mk .eof ⟨14, 14⟩], []⟩ := by
    rw [lexFrom_cons]
    cbv
  have lexed : tokenize "type T='\\\\U'[]" 0 = .ok [.mk (.keyword .typeWord) ⟨0, 4⟩,
      .mk (.ident "T") ⟨5, 6⟩, .mk (.operator .assign) ⟨6, 7⟩, .mk (.string "\\\\U") ⟨7, 12⟩,
      .mk (.punctuation .leftBracket) ⟨12, 13⟩, .mk (.punctuation .rightBracket) ⟨13, 14⟩,
      .mk .eof ⟨14, 14⟩] := by
    rw [tokenize, front, string]
    rfl
  have isNode : Node.writtenType (.array ⟨7, 14⟩ (.string ⟨7, 12⟩ "\\\\U")) ∈ Program.nodes
      [.typeAlias ⟨0, 14⟩ ⟨false, ⟨"T", ⟨5, 6⟩⟩, .array ⟨7, 14⟩ (.string ⟨7, 12⟩ "\\\\U")⟩] := by
    refine List.mem_flatMap.2 ⟨_, List.mem_cons_self, ?_⟩
    rw [Node.all_eq]
    exact List.mem_cons_self
  have short : ∀ s body,
      .string s body ∈ TypeExpr.parts (.array ⟨7, 14⟩ (.string ⟨7, 12⟩ "\\\\U")) →
        longEscapeIn body.toList = false := by
    intro s body mem
    obtain ⟨-, rfl⟩ : s = ⟨7, 12⟩ ∧ body = "\\\\U" := by simpa [TypeExpr.parts] using mem
    decide
  exact ⟨_, _, lexed, by cbv, _, isNode, by decide, short,
    types_read_back lexed (by cbv) _ isNode _ (TypeExpr.mem_parts_self _) short⟩

end Program

end ScriptToGo
