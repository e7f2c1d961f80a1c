import ScriptToGo.Text.Spelling
import ScriptToGo.Vocabulary.Builtin
import ScriptToGo.Vocabulary.Keyword
import ScriptToGo.Vocabulary.Target

/-! Free-form type text and its rewriting into Go spellings. -/
namespace ScriptToGo

/-- The shape of a type text. -/
inductive TypeSpelling
  /-- A name or a literal, or any text that has no other shape. -/
  | named (name : String)
  /-- An array, whether its brackets stand in front or behind. -/
  | array (element : TypeSpelling)
  | generic (name : String) (args : List TypeSpelling)

namespace TypeSpelling

mutual

/-- Writes a shape with all brackets in front. -/
def text : TypeSpelling → String
  | named name => name
  | array element => Target.slice ++ element.text
  | generic name args => s!"{name}<{argsText args}>"

/-- Writes arguments with commas between them. -/
def argsText : List TypeSpelling → String
  | [] => ""
  | first :: rest => first.text ++ moreText rest

/-- Writes further arguments, each after a comma. -/
def moreText : List TypeSpelling → String
  | [] => ""
  | first :: rest => s!", {first.text}{moreText rest}"

end

/-- Drops a token from the front, blanks before it included. -/
def eat? (token : List Char) (cs : List Char) : Option (List Char) :=
  let cs := cs.dropWhile Text.isBlank
  if token.isPrefixOf cs then some (cs.drop token.length) else none

def endsName (c : Char) : Bool :=
  c == '<' || c == '>' || c == ',' || c == '[' || c == ']' || Text.isBlank c

/-- Cuts a name off the front: a quoted text with its quotes, or a run of characters that end no
name. -/
def readName? (cs : List Char) : Option (List Char × List Char) :=
  match cs.dropWhile Text.isBlank with
  | [] => none
  | c :: rest =>
    if c = '"' ∨ c = '\'' then
      match rest.dropWhile (· ≠ c) with
      | [] => none
      | _ :: after => some (c :: rest.takeWhile (· ≠ c) ++ [c], after)
    else if endsName c then none
    else some (c :: rest.takeWhile (!endsName ·), rest.dropWhile (!endsName ·))

theorem eat?_length {token cs rest : List Char} (h : eat? token cs = some rest)
    (ht : token ≠ []) : rest.length < cs.length := by
  rw [eat?] at h
  split at h
  next hp =>
    have blank := (List.dropWhile_suffix Text.isBlank (l := cs)).length_le
    have token_le := (List.isPrefixOf_iff_prefix.1 hp).length_le
    have := List.length_pos_iff.2 ht
    rw [← Option.some.inj h, List.length_drop]
    omega
  · simp at h

theorem readName?_length {cs name rest : List Char} (h : readName? cs = some (name, rest)) :
    rest.length < cs.length := by
  have blank := (List.dropWhile_suffix Text.isBlank (l := cs)).length_le
  rw [readName?] at h
  split at h
  · simp at h
  next c tail hc =>
    rw [hc, List.length_cons] at blank
    split at h
    · split at h
      · simp at h
      next q after hq =>
        have quoted := (List.dropWhile_suffix (· ≠ c) (l := tail)).length_le
        rw [hq, List.length_cons] at quoted
        obtain ⟨-, rfl⟩ := Prod.mk.inj (Option.some.inj h)
        omega
    · split at h
      · simp at h
      · have := (List.dropWhile_suffix (!endsName ·) (l := tail)).length_le
        obtain ⟨-, rfl⟩ := Prod.mk.inj (Option.some.inj h)
        omega

def suffixes (t : TypeSpelling) (cs : List Char) :
    TypeSpelling × { rest : List Char // rest.length ≤ cs.length } :=
  match h : eat? ['[', ']'] cs with
  | none => (t, ⟨cs, Nat.le_refl _⟩)
  | some inner =>
    have shorter := eat?_length h (by simp)
    let (t, ⟨rest, le⟩) := suffixes (.array t) inner
    (t, ⟨rest, by omega⟩)
termination_by cs.length

mutual

def readType? (cs : List Char) :
    Option (TypeSpelling × { rest : List Char // rest.length < cs.length }) :=
  match h : eat? ['[', ']'] cs with
  | some inner =>
    have shorter := eat?_length h (by simp)
    match readType? inner with
    | none => none
    | some (t, ⟨rest, lt⟩) =>
      let (t, ⟨rest, le⟩) := suffixes (.array t) rest
      some (t, ⟨rest, by omega⟩)
  | none =>
    match readAtom? cs with
    | none => none
    | some (t, ⟨rest, lt⟩) =>
      let (t, ⟨rest, le⟩) := suffixes t rest
      some (t, ⟨rest, by omega⟩)
termination_by 2 * cs.length + 1

/-- Reads a name and the arguments that may follow it. -/
def readAtom? (cs : List Char) :
    Option (TypeSpelling × { rest : List Char // rest.length < cs.length }) :=
  match h : readName? cs with
  | none => none
  | some (name, rest) =>
    have shorter := readName?_length h
    match ha : eat? ['<'] rest with
    | none => some (.named (String.ofList name), ⟨rest, shorter⟩)
    | some inner =>
      have inside := eat?_length ha (by simp)
      match readArgs? inner with
      | none => none
      | some (args, ⟨rest, lt⟩) =>
        some (.generic (String.ofList name) args, ⟨rest, by omega⟩)
termination_by 2 * cs.length

/-- Reads arguments, up to and including the closing angle bracket. -/
def readArgs? (cs : List Char) :
    Option (List TypeSpelling × { rest : List Char // rest.length < cs.length }) :=
  match readType? cs with
  | none => none
  | some (first, ⟨rest, lt⟩) =>
    match hc : eat? [','] rest with
    | some inner =>
      have inside := eat?_length hc (by simp)
      match readArgs? inner with
      | none => none
      | some (others, ⟨rest, lt⟩) => some (first :: others, ⟨rest, by omega⟩)
    | none =>
      match hg : eat? ['>'] rest with
      | none => none
      | some rest =>
        have closed := eat?_length hg (by simp)
        some ([first], ⟨rest, by omega⟩)
termination_by 2 * cs.length + 2

end

/-- The shape of a text. A text of no other shape is a name as a whole. -/
def parse (text : String) : TypeSpelling :=
  let cs := Text.trimBlanks text.toList
  match readType? cs with
  | some (t, ⟨rest, _⟩) =>
    if (rest.dropWhile Text.isBlank).isEmpty then t else .named (String.ofList cs)
  | none => .named (String.ofList cs)

/-- The Go spelling of a name. Literals become their types. -/
def goName (name : String) : String :=
  let unsigned := match name.toList with
    | '-' :: digits => digits
    | cs => cs
  if Text.startsWithDigit (String.ofList unsigned) then
    if unsigned.contains '.' then Target.float else Target.int32
  else if Text.isQuoted name then Target.string
  else if name = Keyword.trueWord.spelling ∨ name = Keyword.falseWord.spelling then Target.bool
  else if name = Primitive.number.spelling then Target.int32
  else if name = Primitive.boolean.spelling then Target.bool
  else (Builtin.pointer? name).getD name

def innermost : TypeSpelling → TypeSpelling
  | array element => element.innermost
  | t => t

mutual

/-- Rewrites a shape into its Go spelling from the inside out. A pointer to an array points to its
elements. -/
def normalize : TypeSpelling → TypeSpelling
  | named name => named (goName name)
  | array element => array element.normalize
  | generic name args =>
    match name == Builtin.arrayName, normalizeAll args with
    | true, [element] => array element
    | _, args =>
      match Builtin.pointer? name with
      | some pointer => generic pointer (args.map innermost)
      | none => generic name args

def normalizeAll : List TypeSpelling → List TypeSpelling
  | [] => []
  | t :: rest => t.normalize :: normalizeAll rest

end

end TypeSpelling

def normalizeTypeText (text : String) : String := (TypeSpelling.parse text).normalize.text

end ScriptToGo
