import ScriptToGo.Text.Similarity

/-! Reading the arguments of a command. -/
namespace ScriptToGo

/-- Why arguments are not accepted, or are not all that there is to do. -/
inductive UsageError
  /-- A flag or a further argument that the command does not know. -/
  | unknownArgument
  | missingArgument
  | emptyValue
  | surplusValue
  | notNumber
  /-- A flag given twice, or arguments that exclude each other. -/
  | conflict
  | unknownCommand
  | help
  | version
deriving DecidableEq

/-- The values that an argument takes. -/
inductive ValueKind
  | path
  | text
  | number
deriving DecidableEq

/-- A flag of a command, written behind two dashes. -/
structure Flag where
  name : String
  value? : Option ValueKind

/-- The arguments that a command knows. -/
structure ArgumentList where
  flags : List Flag
  /-- The arguments that are told apart by their order. All of them are paths. -/
  places : List String
  /-- The commands that may follow in place of an argument. -/
  commands : List String
  /-- Whether the command can be asked for the version. -/
  hasVersion : Bool

/-- Arguments that have been accepted, by name. -/
abbrev Given := List (String × String)

/-- An argument that has been read but not accepted yet. -/
structure Pending where
  name : String
  kind : ValueKind
  value? : Option String

/-- How far arguments have been read. -/
structure ArgumentState where
  given : Given
  /-- An argument that is accepted before the next one. -/
  pending? : Option Pending
  /-- The arguments told apart by their order that are still free. -/
  free : List String
  /-- Whether flags and commands are no longer recognized. -/
  isLiteral : Bool

/-- Reads a natural number, which may carry a plus sign. -/
def readNumber? (text : String) : Option Nat :=
  let digits := match text.toList with
    | '+' :: rest => rest
    | cs => cs
  if digits ≠ [] ∧ digits.all Char.isDigit then
    let n := digits.foldl (fun n c => 10 * n + (c.toNat - '0'.toNat)) 0
    if n < 0x10000000000000000 then some n else none
  else none

def ValueKind.accept (kind : ValueKind) (value : String) : Except UsageError String :=
  match kind with
  | path => if value = "" then .error .emptyValue else .ok value
  | text => .ok value
  | number => if (readNumber? value).isSome then .ok value else .error .notNumber

namespace ArgumentState

def start (list : ArgumentList) : ArgumentState := ⟨[], none, list.places, false⟩

/-- Accepts an argument that has not been given before. -/
def add (s : ArgumentState) (name : String) (value : Except UsageError String) :
    Except UsageError ArgumentState := do
  if (s.given.lookup name).isSome then throw .conflict
  return { s with given := s.given ++ [(name, ← value)], pending? := none }

def settle (s : ArgumentState) : Except UsageError ArgumentState :=
  match s.pending? with
  | none => .ok s
  | some ⟨_, _, none⟩ => .error .emptyValue
  | some ⟨name, kind, some value⟩ => s.add name (kind.accept value)

def awaiting? (s : ArgumentState) : Option Pending :=
  if s.isLiteral then none else s.pending?.filter (·.value?.isNone)

/-- Reads an argument that is told apart by its order. A word like that of a command may be meant
for it. -/
def readPlace (list : ArgumentList) (s : ArgumentState) (word : String) :
    Except UsageError ArgumentState :=
  match s.free with
  | name :: free => do
    let s ← s.settle
    return { s with pending? := some ⟨name, .path, some word⟩, free }
  | [] =>
    if s.isLiteral && list.commands.contains word then .error .unknownArgument
    else if list.commands.any (Text.isSimilar word) then .error .unknownCommand
    else .error .unknownArgument

/-- Reads a flag, which carries its value behind an equals sign or is followed by it. -/
def readFlag (list : ArgumentList) (s : ArgumentState) (name : String) (attached? : Option String) :
    Except UsageError ArgumentState := do
  let asks := name = "help" || (name = "version" && list.hasVersion)
  if asks then
    if attached?.isSome then throw .surplusValue
    let _ ← s.settle
    throw (if name = "help" then .help else .version)
  match list.flags.find? (·.name == name) with
  | none => throw .unknownArgument
  | some ⟨_, none⟩ =>
    if attached?.isSome then throw .surplusValue
    (← s.settle).add name (.ok "")
  | some ⟨_, some kind⟩ =>
    let s ← s.settle
    match attached? with
    | some value => s.add name (kind.accept value)
    | none => return { s with pending? := some ⟨name, kind, none⟩ }

/-- Reads the letters behind a single dash. Only the first of them matters. -/
def readLetter (list : ArgumentList) (s : ArgumentState) (letter : Char) :
    Except UsageError ArgumentState := do
  if letter = 'h' then
    let _ ← s.settle
    throw .help
  else if letter = 'V' ∧ list.hasVersion then
    let _ ← s.settle
    throw .version
  else throw .unknownArgument

def readWord (list : ArgumentList) (s : ArgumentState) (word : String) :
    Except UsageError ArgumentState :=
  if s.isLiteral then s.readPlace list word
  else
    match word.toList with
    | ['-', '-'] => .ok { s with isLiteral := true }
    | '-' :: '-' :: cs =>
      let name := String.ofList (cs.takeWhile (· ≠ '='))
      match cs.dropWhile (· ≠ '=') with
      | _ :: value => s.readFlag list name (some (String.ofList value))
      | [] => s.readFlag list name none
    | '-' :: c :: _ => s.readLetter list c
    | _ =>
      match s.awaiting? with
      | some p => .ok { s with pending? := some { p with value? := some word } }
      | none => s.readPlace list word

/-- Reads words up to the first command. Gives the command and the words behind it, if there is
one. -/
def readAll (list : ArgumentList) (s : ArgumentState) :
    List String → Except UsageError (ArgumentState × Option (String × List String))
  | [] => .ok (s, none)
  | word :: rest =>
    if !s.isLiteral && s.awaiting?.isNone && list.commands.contains word then
      .ok (s, some (word, rest))
    else do
      let s ← s.readWord list word
      readAll list s rest

end ArgumentState

end ScriptToGo
