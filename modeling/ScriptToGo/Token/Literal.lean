import ScriptToGo.Text.Position
import ScriptToGo.Token.Escape

/-! The insides of string and template literals. -/
namespace ScriptToGo

/-- Static text of a literal, written as the inside of a Go string, with the faults found in it. -/
structure LiteralText where
  chars : List Char
  faults : List SyntaxError

namespace LiteralText

def nothing : LiteralText := ⟨[], []⟩

def faulty (fault : SyntaxFault) (start stop : Nat) : LiteralText := ⟨[], [⟨fault, ⟨start, stop⟩⟩]⟩

def write (cs : List Char) (t : LiteralText) : LiteralText := ⟨cs ++ t.chars, t.faults⟩

/-- Puts what an escape sequence stands for in front. The range of a faulty one starts at its
backslash. -/
def writeEscape (outcome : Except SyntaxFault (List Char)) (start stop : Nat) (t : LiteralText) :
    LiteralText :=
  match outcome with
  | .ok cs => t.write cs
  | .error fault => ⟨t.chars, ⟨fault, ⟨start, stop⟩⟩ :: t.faults⟩

end LiteralText

/-- A string literal read from its opening quote on. -/
structure StringScan where
  text : LiteralText
  pos : Nat
  rest : List Char

namespace StringScan

def write (cs : List Char) (s : StringScan) : StringScan :=
  ⟨s.text.write cs, s.pos, s.rest⟩

/-- Puts an escape sequence in front of the text. -/
def writeEscape (outcome : Except SyntaxFault (List Char)) (start stop : Nat) (s : StringScan) :
    StringScan :=
  ⟨s.text.writeEscape outcome start stop, s.pos, s.rest⟩

end StringScan

/-- Reads a string whose opening quote stands at `start` and whose inside begins at `pos`. It may
not run over the end of its line. -/
def scanString (start : Nat) (quote : Char) (pos : Nat) (cs : List Char) : StringScan :=
  match cs with
  | [] => ⟨.faulty .unterminatedString start pos, pos, []⟩
  | c :: rest =>
    if c = quote then ⟨.nothing, pos + 1, rest⟩
    else if c = '\\' then
      match rest with
      | [] => ⟨.faulty .unterminatedString start (pos + 1), pos + 1, []⟩
      | e :: rest =>
        let escape := Escape.read e rest
        let next := pos + 1 + e.utf8Size + escape.extra
        (scanString start quote next (rest.drop escape.extra)).writeEscape escape.outcome pos next
    else if c = '"' then (scanString start quote (pos + 1) rest).write ['\\', '"']
    else if c = '\n' then ⟨.faulty .unterminatedString start (pos + 1), pos + 1, rest⟩
    else (scanString start quote (pos + c.utf8Size) rest).write [c]
termination_by cs.length
decreasing_by all_goals simp only [List.length_cons, List.length_drop]; omega

/-- The text of an interpolation up to its closing brace, and what follows that brace. Braces
nest, and those between quotes do not count; `quote` is the quote that is open. -/
def splitHole (quote : Option Char) (depth : Nat) (cs : List Char) :
    Option (List Char × List Char) :=
  match cs with
  | [] => none
  | c :: rest =>
    match quote with
    | some q =>
      if c = '\\' then
        match rest with
        | [] => none
        | e :: rest => (splitHole quote depth rest).map fun (inner, after) => (c :: e :: inner, after)
      else
        (splitHole (if c = q then none else quote) depth rest).map fun (inner, after) =>
          (c :: inner, after)
    | none =>
      if c = '\x7d' ∧ depth = 0 then some ([], rest)
      else
        let quote := if c = '"' ∨ c = '\'' ∨ c = '\x60' then some c else none
        let depth := if c = '\x7b' then depth + 1 else if c = '\x7d' then depth - 1 else depth
        (splitHole quote depth rest).map fun (inner, after) => (c :: inner, after)

/-- The text of an interpolation is cut out of the text together with its closing brace. -/
theorem splitHole_eq {quote : Option Char} {depth : Nat} {cs inner after : List Char}
    (h : splitHole quote depth cs = some (inner, after)) : cs = inner ++ '\x7d' :: after := by
  fun_induction splitHole quote depth cs generalizing inner after with
  | case1 => simp at h
  | case2 => simp at h
  | case3 depth q e rest ih =>
    obtain ⟨⟨i, a⟩, hi, ha⟩ := Option.map_eq_some_iff.1 h
    obtain ⟨rfl, rfl⟩ := Prod.mk.inj ha
    simp [ih hi]
  | case4 depth c rest q hc ih =>
    obtain ⟨⟨i, a⟩, hi, ha⟩ := Option.map_eq_some_iff.1 h
    obtain ⟨rfl, rfl⟩ := Prod.mk.inj ha
    simp [ih hi]
  | case5 depth c rest hc =>
    obtain ⟨rfl, rfl⟩ := Prod.mk.inj (Option.some.inj h)
    simp [hc.1]
  | case6 depth c rest hc _ =>
    rename_i ih
    obtain ⟨⟨i, a⟩, hi, ha⟩ := Option.map_eq_some_iff.1 h
    obtain ⟨rfl, rfl⟩ := Prod.mk.inj ha
    simp [ih hi]

theorem splitHole_length {quote : Option Char} {depth : Nat} {cs inner after : List Char}
    (h : splitHole quote depth cs = some (inner, after)) :
    inner.length + after.length + 1 = cs.length := by
  rw [splitHole_eq h, List.length_append, List.length_cons, Nat.add_assoc]

/-- The text of an interpolation, and the static text after it. -/
structure HoleText where
  /-- The offset of the first character between the braces. -/
  pos : Nat
  chars : List Char
  after : LiteralText

/-- A template literal read from its opening backtick on. -/
structure TemplateScan where
  /-- The static text before the first interpolation. -/
  head : LiteralText
  holes : List HoleText
  pos : Nat
  rest : List Char

namespace TemplateScan

/-- Puts characters in front of the leading text. -/
def write (cs : List Char) (t : TemplateScan) : TemplateScan :=
  ⟨t.head.write cs, t.holes, t.pos, t.rest⟩

/-- Puts an escape sequence in front of the leading text. -/
def writeEscape (outcome : Except SyntaxFault (List Char)) (start stop : Nat) (t : TemplateScan) :
    TemplateScan :=
  ⟨t.head.writeEscape outcome start stop, t.holes, t.pos, t.rest⟩

/-- Puts an interpolation in front; the leading text so far is what follows it. -/
def openHole (pos : Nat) (chars : List Char) (t : TemplateScan) : TemplateScan :=
  ⟨.nothing, ⟨pos, chars, t.head⟩ :: t.holes, t.pos, t.rest⟩

end TemplateScan

/-- Reads a template whose opening backtick stands at `start` and whose inside begins at `pos`.
Raw line ends are kept as escapes. -/
def scanTemplate (start pos : Nat) (cs : List Char) : TemplateScan :=
  match cs with
  | [] => ⟨.faulty .unterminatedTemplate start pos, [], pos, []⟩
  | c :: rest =>
    if c = '\x60' then ⟨.nothing, [], pos + 1, rest⟩
    else if c = '\\' then
      match rest with
      | [] => ⟨.faulty .unterminatedTemplate start (pos + 1), [], pos + 1, []⟩
      | e :: rest =>
        let escape := Escape.read e rest
        let next := pos + 1 + e.utf8Size + escape.extra
        (scanTemplate start next (rest.drop escape.extra)).writeEscape escape.outcome pos next
    else if c = '$' ∧ rest.head? = some '\x7b' then
      match _h : splitHole none 0 (rest.drop 1) with
      | none =>
        let stop := pos + 2 + Text.byteLength (rest.drop 1)
        ⟨.faulty .unterminatedTemplate start stop, [], stop, []⟩
      | some (inner, after) =>
        let next := pos + 2 + Text.byteLength inner + 1
        (scanTemplate start next after).openHole (pos + 2) inner
    else if c = '"' then (scanTemplate start (pos + 1) rest).write ['\\', '"']
    else if c = '\n' then (scanTemplate start (pos + 1) rest).write ['\\', 'n']
    else (scanTemplate start (pos + c.utf8Size) rest).write [c]
termination_by cs.length
decreasing_by
  · simp only [List.length_cons, List.length_drop]; omega
  · have := splitHole_length _h
    simp only [List.length_drop] at this
    simp only [List.length_cons]; omega
  all_goals simp only [List.length_cons]; omega

/-- A string leaves no more than the text it was read from. -/
theorem scanString_rest_length (start : Nat) (quote : Char) (pos : Nat) (cs : List Char) :
    (scanString start quote pos cs).rest.length ≤ cs.length := by
  fun_induction scanString start quote pos cs <;>
    simp_all [StringScan.write, StringScan.writeEscape] <;> omega

/-- The characters inside interpolations, each counted with one of its braces. -/
def holesLength : List HoleText → Nat
  | [] => 0
  | hole :: holes => hole.chars.length + 1 + holesLength holes

/-- A template and its interpolations fit into the text they were read from. -/
theorem scanTemplate_length (start pos : Nat) (cs : List Char) :
    holesLength (scanTemplate start pos cs).holes + (scanTemplate start pos cs).rest.length
      ≤ cs.length := by
  fun_induction scanTemplate start pos cs with
  | case6 pos c rest h1 h2 h3 inner after h next ih =>
    have := splitHole_length h
    simp_all [holesLength, TemplateScan.openHole]
    omega
  | _ => simp_all [holesLength, TemplateScan.write, TemplateScan.writeEscape] <;> omega

end ScriptToGo
