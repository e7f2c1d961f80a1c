import ScriptToGo.Go.View
import ScriptToGo.Proofs.Token.Rereading
import ScriptToGo.Proofs.Types.GoNames
import ScriptToGo.Proofs.Types.NormalSpelling
import ScriptToGo.Proofs.Types.Parts
import ScriptToGo.Proofs.Types.Widening

/-! The Go name of a type tells strings and numbers apart from all other types. -/
namespace ScriptToGo

section Words

variable {c : Char}

/-- The characters of words lie between the dollar sign and the last letter. -/
theorem toNat_of_isWordPart (h : isWordPart c = true) : 36 ≤ c.toNat ∧ c.toNat ≤ 122 := by
  have between {a b : Char} (within : a ≤ c ∧ c ≤ b) : a.toNat ≤ c.toNat ∧ c.toNat ≤ b.toNat :=
    ⟨UInt32.le_iff_toNat_le.1 within.1, UInt32.le_iff_toNat_le.1 within.2⟩
  simp only [isWordPart, isWordStart, Text.isDigit, Bool.or_eq_true, Bool.and_eq_true,
    decide_eq_true_eq, beq_iff_eq] at h
  rcases h with (((lower | upper) | rfl) | rfl) | digit
  · exact ⟨Nat.le_trans (by decide) (between lower).1, (between lower).2⟩
  · exact ⟨Nat.le_trans (by decide) (between upper).1, Nat.le_trans (between upper).2 (by decide)⟩
  · decide
  · decide
  · exact ⟨Nat.le_trans (by decide) (between digit).1, Nat.le_trans (between digit).2 (by decide)⟩

theorem isBlank_of_isWordPart (h : isWordPart c = true) : Text.isBlank c = false := by
  obtain ⟨low, high⟩ := toNat_of_isWordPart h
  simp only [Text.isBlank, Bool.or_eq_false_iff, Bool.and_eq_false_iff, decide_eq_false_iff_not,
    beq_eq_false_iff_ne]
  omega

theorem ne_of_isWordPart (h : isWordPart c = true) {d : Char} (noPart : isWordPart d = false) :
    c ≠ d := by
  rintro rfl
  exact Bool.false_ne_true (noPart.symm.trans h)

theorem endsName_of_isWordPart (h : isWordPart c = true) : TypeSpelling.endsName c = false := by
  have other {d : Char} (noPart : isWordPart d = false) : (c == d) = false :=
    beq_eq_false_iff_ne.2 (ne_of_isWordPart h noPart)
  rw [TypeSpelling.endsName, other (by decide), other (by decide), other (by decide),
    other (by decide), other (by decide), isBlank_of_isWordPart h]
  rfl

theorem isWordPart_of_isWordStart (h : isWordStart c = true) : isWordPart c = true := by
  rw [isWordPart, h, Bool.true_or]

/-- All characters of a text can stand in a word. -/
def IsWordText (text : String) : Prop := ∀ c ∈ text.toList, isWordPart c = true

end Words

namespace TypeSpelling

variable {name : String}

/-- An identifier is read as a name. -/
theorem isName_ident (h : (TokenKind.ident name).IsSpeltRight) : IsName name.toList := by
  obtain ⟨c, tail, whole, start, parts⟩ := h
  have part := isWordPart_of_isWordStart start
  rw [whole]
  refine .run ?_ (endsName_of_isWordPart part) fun d mem => endsName_of_isWordPart (parts d mem)
  rintro (is | is) <;> exact ne_of_isWordPart part (by decide) is

/-- The Go spelling of a name that starts like a word is that name, unless the name is a word for a
type or a value. -/
theorem goName_of_isWordStart {c : Char} {tail : List Char} (starts : name.toList = c :: tail)
    (start : isWordStart c = true) :
    goName name = name ∨ goName name ∈ [Target.bool, Target.int32, Builtin.pointerName] := by
  have part := isWordPart_of_isWordStart start
  have noQuote : Text.isQuoted name = false := by
    have single : (c == '"') = false := beq_eq_false_iff_ne.2 (ne_of_isWordPart part (by decide))
    have double : (c == '\'') = false := beq_eq_false_iff_ne.2 (ne_of_isWordPart part (by decide))
    rw [Text.isQuoted, starts]
    simp [single, double]
  unfold goName
  extract_lets unsigned
  have noNumber : Text.startsWithDigit (String.ofList unsigned) = false := by
    have same : unsigned = c :: tail := by
      simp only [unsigned, starts]
      split
      next is => exact absurd (List.cons.inj is).1 (ne_of_isWordPart part (by decide))
      · rfl
    rw [same, Text.startsWithDigit, String.toList_ofList]
    exact Scan.isDigit_of_isWordStart start
  rw [if_neg (by simp [noNumber]), if_neg (by simp [noQuote])]
  split
  · simp
  split
  · simp
  split
  · simp
  · cases found : Builtin.pointer? name with
    | none => exact .inl rfl
    | some pointer =>
      rw [Option.getD_some, pointer?_eq_some found]
      simp

/-- Only names are written as words. -/
theorem exists_of_isWordText {t : TypeSpelling} (h : IsWordText t.text) :
    ∃ name, t = named name := by
  match t with
  | .named name => exact ⟨name, rfl⟩
  | .array element => exact absurd (h '[' (by simp [text, Target.slice])) (by decide)
  | .generic name args => exact absurd (h '<' (by simp [toList_generic])) (by decide)

theorem exists_of_normalize {t : TypeSpelling} (h : t.normalize = named name) :
    ∃ written, t = named written ∧ goName written = name := by
  match t with
  | .named written =>
    rw [normalize] at h
    exact ⟨written, rfl, named.inj h⟩
  | .array element =>
    rw [normalize] at h
    cases h
  | .generic wrapper args =>
    rcases normalize_generic wrapper args with ⟨_, _, _, eq⟩ | ⟨_, _, eq⟩ | ⟨_, _, eq⟩
    all_goals
      rw [eq] at h
      cases h

/-- A text whose Go spelling is a word has the shape of a name. -/
theorem exists_parse {text : String} (h : IsWordText (normalizeTypeText text)) :
    ∃ name, parse text = named name ∧ goName name = normalizeTypeText text := by
  obtain ⟨name, normal⟩ := exists_of_isWordText h
  obtain ⟨written, shape, same⟩ := exists_of_normalize normal
  refine ⟨written, shape, ?_⟩
  rw [same, normalizeTypeText, normal, TypeSpelling.text]

theorem suffixes_ne_named {t : TypeSpelling} (h : t ≠ named name) (cs : List Char) :
    (suffixes t cs).1 ≠ named name := by
  rw [suffixes]
  split
  · exact h
  next inner eaten =>
    have shorter := eat?_length eaten (by simp)
    exact suffixes_ne_named (t := .array t) nofun inner
termination_by cs.length

/-- What is read from a name before an angle bracket is no name. -/
theorem readAtom?_ne_named {cs rest inner word : List Char}
    (read : readName? cs = some (word, rest)) (opened : eat? ['<'] rest = some inner)
    {t : TypeSpelling}
    {left : { rest : List Char // rest.length < cs.length }} (h : readAtom? cs = some (t, left)) :
    t ≠ named name := by
  rw [readAtom?] at h
  split at h
  · cases h
  next word' rest' read' =>
    obtain ⟨rfl, rfl⟩ := Prod.mk.inj (Option.some.inj (read.symm.trans read'))
    split at h
    next none =>
      rw [opened] at none
      cases none
    · split at h
      · cases h
      · cases h
        rintro ⟨⟩

theorem readType?_ne_named {word inner : List Char} (isName : IsName word) {t : TypeSpelling}
    {left : { rest : List Char // rest.length < (word ++ '<' :: inner).length }}
    (h : readType? (word ++ '<' :: inner) = some (t, left)) : t ≠ named name := by
  have read : readName? (word ++ '<' :: inner) = some (word, '<' :: inner) :=
    readName?_name isName rfl areBlanks_nil
  have opened : eat? ['<'] ('<' :: inner) = some inner := eat?_token [] areBlanks_nil (by decide)
  have noArray : eat? ['[', ']'] (word ++ '<' :: inner) = none := isName.not_array areBlanks_nil
  rw [readType?] at h
  split at h
  next eaten =>
    rw [noArray] at eaten
    cases eaten
  · split at h
    · cases h
    next atom =>
      cases h
      exact suffixes_ne_named (readAtom?_ne_named read opened atom) _

/-- If a generic type has the shape of a name, then that name is its whole text. -/
theorem eq_of_parse_generic {text : String} {word inner : List Char} (isName : IsName word)
    (whole : text.toList = word ++ '<' :: (inner ++ ['>'])) (h : parse text = named name) :
    name = text := by
  obtain ⟨c, tail, chars, first, -⟩ := isName.exists_cons
  have last : LastDense (word ++ '<' :: (inner ++ ['>'])) :=
    (((lastDense_singleton (by decide)).append _).cons _).append _
  have trimmed : Text.trimBlanks text.toList = text.toList := by
    rw [whole]
    rw [chars] at last ⊢
    simpa using trimBlanks_around areBlanks_nil first last areBlanks_nil
  rw [parse, trimmed, whole] at h
  have kept (same : named (String.ofList (word ++ '<' :: (inner ++ ['>']))) = named name) :
      name = text := by
    rw [← named.inj same, ← whole, String.ofList_toList]
  split at h
  next read =>
    split at h
    · exact (readType?_ne_named isName read h).elim
    · exact kept h
  · exact kept h

end TypeSpelling

/-- The words for types that no reference may have as its name. -/
def typeWords : List String :=
  Primitive.all.map Primitive.spelling ++ Builtin.numericAliases ++
    [Target.string, Target.bool, Target.int, Target.int32, Target.float]

/-- An alias with the name of a numeric type stands for numbers, and the name of a reference is an
identifier that is no word for a type. -/
def Ty.IsPlainlyNamed : Ty → Prop
  | .«alias» name target => Builtin.isNumericAlias name = true → target = .number
  | .reference name _ => (TokenKind.ident name).IsSpeltRight ∧ name ∉ typeWords
  | _ => True

/-- The Go names of strings and numbers. -/
def kindNames : List String := Target.string :: Target.int :: Builtin.numericAliases

theorem isWordText_of_mem_kindNames : ∀ name ∈ kindNames, IsWordText name := by
  have all : kindNames.all (fun name => name.toList.all isWordPart) = true := by decide +kernel
  exact fun name mem => List.all_eq_true.1 (List.all_eq_true.1 all name mem)

theorem mem_typeWords_of_mem_kindNames : ∀ name ∈ kindNames, name ∈ typeWords := by
  decide +kernel

/-- Neither is the Go spelling of any other word for a type. -/
theorem not_mem_kindNames :
    ∀ name ∈ [Target.bool, Target.int32, Builtin.pointerName], name ∉ kindNames := by
  decide +kernel

theorem not_mem_kindNames_of_mem {name : String} {c : Char} (mem : c ∈ name.toList)
    (noPart : isWordPart c = false) : name ∉ kindNames := fun kind =>
  Bool.false_ne_true (noPart.symm.trans (isWordText_of_mem_kindNames name kind c mem))

namespace Ty

/-- No reference has the Go name of strings or of numbers. -/
theorem normalizeTypeText_reference {name : String} {args : List Ty}
    (named : (reference name args).IsPlainlyNamed) :
    normalizeTypeText (reference name args).text ∉ kindNames := by
  intro mem
  obtain ⟨spelt, other⟩ := named
  have isName := TypeSpelling.isName_ident spelt
  obtain ⟨c, tail, starts, start, -⟩ := spelt
  obtain ⟨written, shape, same⟩ := TypeSpelling.exists_parse (isWordText_of_mem_kindNames _ mem)
  rw [← same] at mem
  -- Without arguments the text is the name itself. With them, it is a name only where it cannot be
  -- read as a generic type, and then as a whole.
  match args with
  | [] =>
    have whole : written = name := TypeSpelling.named.inj
      (shape.symm.trans (TypeSpelling.parse_text (t := .named name) isName))
    subst whole
    rcases TypeSpelling.goName_of_isWordStart starts start with itself | word
    · rw [itself] at mem
      exact other (mem_typeWords_of_mem_kindNames _ mem)
    · exact not_mem_kindNames _ word mem
  | first :: rest =>
    have whole : (reference name (first :: rest)).text.toList =
        name.toList ++ '<' :: ((first.text ++ argsText rest).toList ++ ['>']) := by
      simp [text, toString]
    obtain rfl := TypeSpelling.eq_of_parse_generic isName whole shape
    rw [starts] at whole
    rcases TypeSpelling.goName_of_isWordStart whole start with itself | word
    · rw [itself] at mem
      exact absurd (isWordText_of_mem_kindNames _ mem '<' (by simp [whole])) (by decide)
    · exact not_mem_kindNames _ word mem

/-- What the Go name of a type says about its kind. -/
inductive HasKind (type : Ty) : Prop
  | string : type.isStringLike = true → type.isNumberLike = false →
      type.goName = .ok Target.string → HasKind type
  | number {name : String} : type.isStringLike = false → type.isNumberLike = true →
      type.goName = .ok name → name = Target.int ∨ Builtin.isNumericAlias name = true → HasKind type
  | other : type.isStringLike = false → type.isNumberLike = false →
      Returns (· ∉ kindNames) type.goName → HasKind type

theorem normalizeTypeText_numericAlias :
    ∀ name ∈ Builtin.numericAliases, normalizeTypeText name = name := by
  decide +kernel

/-- The other types that are spelled with a constant have other names. -/
theorem normalizeTypeText_constant :
    ∀ type ∈ [boolean, booleanLit true, booleanLit false, void, null],
      normalizeTypeText type.text ∉ kindNames := by
  simp only [List.forall_mem_cons]
  decide +kernel

/-- An alias has the kind of its target. -/
theorem HasKind.ofTarget {name : String} {target : Ty}
    (seen : (target.isArrayLike || !Builtin.isNumericAlias name) = true) (h : target.HasKind) :
    («alias» name target).HasKind := by
  have same : («alias» name target).goName = target.goName := by rw [goName, if_pos seen]
  cases h with
  | string isString noNumber named => exact .string isString noNumber (same.trans named)
  | number noString isNumber named kind => exact .number noString isNumber (same.trans named) kind
  | other noString noNumber named => exact .other noString noNumber (same ▸ named)

theorem hasKind {standing : Standing} (type : Ty)
    (h : ∀ part ∈ type.parts standing, part.type.IsPlainlyNamed) : type.HasKind := by
  match type with
  | .number | .numberLit _ => exact .number rfl rfl (by rw [goName]) (.inl rfl)
  | .string => exact .string rfl rfl goName_string
  | .stringLit _ => exact .string rfl rfl (by rw [goName])
  | .«alias» name target =>
    by_cases numeric : Builtin.isNumericAlias name = true
    · have named := h _ (mem_parts standing («alias» name target)) numeric
      subst named
      have among : name ∈ Builtin.numericAliases := List.contains_iff_mem.1 numeric
      have unseen : ¬(isArrayLike number || !Builtin.isNumericAlias name) = true := by
        simp [numeric, isArrayLike, element?, resolved]
      refine .number rfl rfl ?_ (.inr numeric)
      rw [goName, if_neg unseen, normalizeTypeText_numericAlias name among]
    · exact .ofTarget (by simp [numeric]) (hasKind target (List.forall_mem_cons.1 h).2)
  | .boolean | .booleanLit true | .booleanLit false | .void | .null =>
    refine .other rfl rfl ?_
    rw [goName_of_isSpelled rfl]
    exact normalizeTypeText_constant _ (by simp)
  | .any | .unknown =>
    refine .other rfl rfl ?_
    rw [goName]
    trivial
  | .array element =>
    refine .other rfl rfl ?_
    rw [goName]
    refine (Returns.self element.goName).bind fun name _ => ?_
    exact not_mem_kindNames_of_mem (c := '[') (by simp [Target.slice]) (by decide)
  | .reference name args =>
    refine .other rfl rfl ?_
    rw [goName_of_isSpelled rfl]
    exact normalizeTypeText_reference (h _ (mem_parts standing (reference name args)))
  | .object [] =>
    refine .other rfl rfl ?_
    rw [goName]
    exact not_mem_kindNames_of_mem (c := '\x7b') (by decide +kernel) (by decide)
  | .object (.mk name type :: rest) =>
    refine .other rfl rfl ?_
    rw [goName]
    refine (Returns.self type.goName).bind fun first _ => ?_
    refine (Returns.self (goFields rest)).bind fun others _ => ?_
    exact not_mem_kindNames_of_mem (c := '\x7b') (by simp [toString]) (by decide)
  | .function params returns =>
    refine .other rfl rfl ?_
    rw [goName]
    refine (Returns.self (goParams params)).bind fun names _ => ?_
    refine (Returns.self returns.goName).bind fun result _ => ?_
    exact not_mem_kindNames_of_mem (c := '(') (by simp [toString]) (by decide)

theorem mem_numberNames {name : String}
    (h : name = Target.int ∨ Builtin.isNumericAlias name = true) :
    name ∈ Target.int :: Builtin.numericAliases := by
  rwa [Builtin.isNumericAlias, List.contains_iff_mem, ← List.mem_cons] at h

theorem HasKind.string_iff {type : Ty} (h : type.HasKind) :
    type.goName = .ok Target.string ↔ type.isStringLike = true := by
  cases h with
  | string isString _ same => exact iff_of_true same isString
  | number noString _ same kind =>
    refine iff_of_false (fun other => ?_) (by simp [noString])
    obtain rfl := Except.ok.inj (same.symm.trans other)
    revert kind
    decide +kernel
  | other noString _ names =>
    refine iff_of_false (fun same => ?_) (by simp [noString])
    exact names.of_ok same List.mem_cons_self

theorem HasKind.number_iff {type : Ty} (h : type.HasKind) :
    (∃ name, type.goName = .ok name ∧
      (name = Target.int ∨ Builtin.isNumericAlias name = true)) ↔ type.isNumberLike = true := by
  cases h with
  | string _ noNumber same =>
    refine iff_of_false ?_ (by simp [noNumber])
    rintro ⟨name, other, kind⟩
    obtain rfl := Except.ok.inj (same.symm.trans other)
    revert kind
    decide +kernel
  | number _ isNumber same kind => exact iff_of_true ⟨_, same, kind⟩ isNumber
  | other _ noNumber names =>
    refine iff_of_false ?_ (by simp [noNumber])
    rintro ⟨name, same, kind⟩
    exact names.of_ok same (List.mem_cons_of_mem _ (mem_numberNames kind))

end Ty

theorem View.isString_iff {v : View} {span : Span} :
    v.isString span = true ↔ v.types.goNameAt v.module.id span = .ok Target.string := by
  rw [isString, beq_iff_eq, typeName?]
  cases v.types.goNameAt v.module.id span with
  | error e => exact iff_of_false nofun nofun
  | ok name =>
    rw [Except.ok.injEq]
    exact Option.some_inj

theorem TypeTable.goNameAt_of_typeAt {types : TypeTable} {file : FileId} {span : Span} {type : Ty}
    (typed : types.typeAt file span = some type) : types.goNameAt file span = type.goName := by
  rw [goNameAt, typed]

namespace Ty

/-- The Go name of a type is that of strings just where the type is one of strings, and it is one of
numbers just where the type is one of numbers. So code that is written by the name goes by what
checking has found. -/
theorem goName_kind (type : Ty) (named : ∀ part ∈ type.parts .named, part.type.IsPlainlyNamed) :
    (type.goName = .ok Target.string ↔ type.isStringLike = true) ∧
      ((∃ name, type.goName = .ok name ∧
        (name = Target.int ∨ Builtin.isNumericAlias name = true)) ↔ type.isNumberLike = true) ∧
      ∀ (v : View) span, v.typeAt span = some type → v.isString span = type.isStringLike := by
  have kind := type.hasKind named
  refine ⟨kind.string_iff, kind.number_iff, fun v span typed => ?_⟩
  rw [Bool.eq_iff_iff, View.isString_iff, TypeTable.goNameAt_of_typeAt typed, kind.string_iff]

/-- The type of a number that keeps the name of a numeric type. -/
def countType : Ty := «alias» "Count" («alias» "int32" number)

theorem plainlyNamed_countType (standing : Standing) :
    ∀ part ∈ countType.parts standing, part.type.IsPlainlyNamed := by
  refine List.forall_mem_cons.2 ⟨fun numeric => absurd numeric (by decide), ?_⟩
  exact List.forall_mem_cons.2 ⟨fun _ => rfl, List.forall_mem_singleton.2 trivial⟩

/-- Such a type is one of numbers by its Go name, and a pointer to it is not. -/
theorem countType_kind :
    (∀ part ∈ countType.parts .named, part.type.IsPlainlyNamed) ∧
      (∃ name, countType.goName = .ok name ∧
        (name = Target.int ∨ Builtin.isNumericAlias name = true)) ∧
      (∀ part ∈ (reference Builtin.pointerName [countType]).parts .named,
        part.type.IsPlainlyNamed) ∧
      ¬∃ name, (reference Builtin.pointerName [countType]).goName = .ok name ∧
        (name = Target.int ∨ Builtin.isNumericAlias name = true) := by
  have spelt : (TokenKind.ident Builtin.pointerName).IsSpeltRight :=
    ⟨'P', "ointer".toList, rfl, rfl, List.all_eq_true.1 (by decide +kernel)⟩
  have pointer : ∀ part ∈ (reference Builtin.pointerName [countType]).parts .named,
      part.type.IsPlainlyNamed := by
    refine List.forall_mem_cons.2 ⟨⟨spelt, by decide +kernel⟩, ?_⟩
    exact List.forall_mem_append.2 ⟨plainlyNamed_countType .spelled, List.forall_mem_nil _⟩
  refine ⟨plainlyNamed_countType .named, ?_, pointer, fun numbers => ?_⟩
  · exact (goName_kind countType (plainlyNamed_countType .named)).2.1.2 rfl
  · exact Bool.false_ne_true ((goName_kind _ pointer).2.1.1 numbers)

end Ty

end ScriptToGo
