import Mathlib.Data.List.Forall2
import ScriptToGo.Proofs.Text.Lines
import ScriptToGo.Proofs.Types.Proper
import ScriptToGo.Types.Target

/-! The Go names of types stay on one line. -/
namespace ScriptToGo
open Text (OneLine oneLine_append oneLine_toString)

/-- What is returned is good, if anything is returned. -/
def Returns {ε α : Type} (Good : α → Prop) : Except ε α → Prop
  | .ok a => Good a
  | .error _ => True

namespace Returns

variable {ε α β : Type} {Good : α → Prop} {Fine : β → Prop}

theorem of_ok {x : Except ε α} {a : α} (h : Returns Good x) (given : x = .ok a) : Good a := by
  rw [given] at h
  exact h

theorem self (x : Except ε α) : Returns (fun a => x = .ok a) x := by
  cases x <;> trivial

theorem mono {x : Except ε α} {Better : α → Prop} (h : Returns Good x)
    (implies : ∀ a, Good a → Better a) : Returns Better x := by
  cases x with
  | error e => trivial
  | ok a => exact implies a h

theorem bind {x : Except ε α} {f : α → Except ε β} (h : Returns Good x)
    (next : ∀ a, Good a → Returns Fine (f a)) : Returns Fine (x >>= f) := by
  cases x with
  | error e => trivial
  | ok a => exact next a h

/-- Where each result is good for what it comes from, the results are so one by one. -/
theorem mapM_forall₂ {R : α → β → Prop} {f : α → Except ε β} {list : List α}
    (h : ∀ a ∈ list, Returns (R a) (f a)) : Returns (List.Forall₂ R list) (list.mapM f) := by
  induction list with
  | nil => exact .nil
  | cons a rest ih =>
    obtain ⟨first, others⟩ := List.forall_mem_cons.1 h
    rw [List.mapM_cons]
    exact first.bind fun b good => (ih others).bind fun results fine => .cons good fine

theorem mapM {f : α → Except ε β} {list : List α} (h : ∀ a ∈ list, Returns Fine (f a)) :
    Returns (fun results => ∀ b ∈ results, Fine b) (list.mapM f) := by
  refine (mapM_forall₂ h).mono fun results each => ?_
  exact ((List.forall₂_and_left _ _).1 (each.flip.imp fun _ _ fine => ⟨fine, trivial⟩)).1

end Returns

namespace TypeSpelling

mutual

/-- All names of a shape stay on one line. -/
def InLine : TypeSpelling → Prop
  | named name => OneLine name
  | array element => element.InLine
  | generic name args => OneLine name ∧ AllInLine args

def AllInLine : List TypeSpelling → Prop
  | [] => True
  | t :: rest => t.InLine ∧ AllInLine rest

end

theorem not_mem_of_dropWhile {c : Char} {p : Char → Bool} {cs : List Char} (h : c ∉ cs) :
    c ∉ cs.dropWhile p := fun mem => h ((List.dropWhile_suffix p).subset mem)

theorem not_mem_of_takeWhile {c : Char} {p : Char → Bool} {cs : List Char} (h : c ∉ cs) :
    c ∉ cs.takeWhile p := fun mem => h ((List.takeWhile_prefix p).subset mem)

variable {cs rest : List Char}

theorem eat?_inLine {token : List Char} (line : '\n' ∉ cs) (h : eat? token cs = some rest) :
    '\n' ∉ rest := by
  rw [eat?] at h
  split at h
  · cases h
    exact fun mem => not_mem_of_dropWhile line (List.mem_of_mem_drop mem)
  · cases h

theorem readName?_inLine {name : List Char} (line : '\n' ∉ cs)
    (h : readName? cs = some (name, rest)) : '\n' ∉ name ∧ '\n' ∉ rest := by
  have left : '\n' ∉ cs.dropWhile Text.isBlank := not_mem_of_dropWhile line
  rw [readName?] at h
  split at h
  · cases h
  next c tail starts =>
    rw [starts, List.mem_cons, not_or] at left
    split at h
    · split at h
      · cases h
      next quote after stops =>
        have ends : '\n' ∉ tail.dropWhile (· ≠ c) := not_mem_of_dropWhile left.2
        rw [stops, List.mem_cons, not_or] at ends
        cases h
        simp [left.1, not_mem_of_takeWhile left.2, ends.2]
    · split at h
      · cases h
      · cases h
        exact ⟨by simp [left.1, not_mem_of_takeWhile left.2], not_mem_of_dropWhile left.2⟩

theorem suffixes_inLine {t : TypeSpelling} (shape : t.InLine) {cs : List Char} (line : '\n' ∉ cs) :
    (suffixes t cs).1.InLine ∧ '\n' ∉ (suffixes t cs).2.1 := by
  rw [suffixes]
  split
  · exact ⟨shape, line⟩
  next inner eaten =>
    have shorter := eat?_length eaten (by simp)
    exact suffixes_inLine (t := .array t) shape (eat?_inLine line eaten)
termination_by cs.length

mutual

theorem readType?_inLine {cs : List Char} (line : '\n' ∉ cs) {t : TypeSpelling}
    {rest : { rest : List Char // rest.length < cs.length }} (h : readType? cs = some (t, rest)) :
    t.InLine ∧ '\n' ∉ rest.1 := by
  rw [readType?] at h
  split at h
  next inner eaten =>
    have shorter := eat?_length eaten (by simp)
    split at h
    · cases h
    next first left lt read =>
      obtain ⟨shape, line⟩ := readType?_inLine (eat?_inLine line eaten) read
      cases h
      exact suffixes_inLine (t := .array first) shape line
  · split at h
    · cases h
    next first left lt read =>
      obtain ⟨shape, line⟩ := readAtom?_inLine line read
      cases h
      exact suffixes_inLine shape line
termination_by 2 * cs.length + 1

theorem readAtom?_inLine {cs : List Char} (line : '\n' ∉ cs) {t : TypeSpelling}
    {rest : { rest : List Char // rest.length < cs.length }} (h : readAtom? cs = some (t, rest)) :
    t.InLine ∧ '\n' ∉ rest.1 := by
  rw [readAtom?] at h
  split at h
  · cases h
  next name left read =>
    have shorter := readName?_length read
    obtain ⟨named, line⟩ := readName?_inLine line read
    split at h
    · cases h
      exact ⟨Text.oneLine_ofList.2 named, line⟩
    next inner eaten =>
      have inside := eat?_length eaten (by simp)
      split at h
      · cases h
      next args last lt found =>
        obtain ⟨shapes, line⟩ := readArgs?_inLine (eat?_inLine line eaten) found
        cases h
        exact ⟨⟨Text.oneLine_ofList.2 named, shapes⟩, line⟩
termination_by 2 * cs.length

theorem readArgs?_inLine {cs : List Char} (line : '\n' ∉ cs) {args : List TypeSpelling}
    {rest : { rest : List Char // rest.length < cs.length }}
    (h : readArgs? cs = some (args, rest)) : AllInLine args ∧ '\n' ∉ rest.1 := by
  rw [readArgs?] at h
  split at h
  · cases h
  next first left lt read =>
    obtain ⟨shape, line⟩ := readType?_inLine line read
    split at h
    next inner eaten =>
      have inside := eat?_length eaten (by simp)
      split at h
      · cases h
      next others last lt found =>
        obtain ⟨shapes, line⟩ := readArgs?_inLine (eat?_inLine line eaten) found
        cases h
        exact ⟨⟨shape, shapes⟩, line⟩
    · split at h
      · cases h
      next closed =>
        cases h
        exact ⟨⟨shape, trivial⟩, eat?_inLine line closed⟩
termination_by 2 * cs.length + 2

end

theorem parse_inLine {text : String} (line : OneLine text) : (parse text).InLine := by
  have trimmed : '\n' ∉ Text.trimBlanks text.toList := by
    rw [Text.trimBlanks, List.mem_reverse]
    apply not_mem_of_dropWhile
    rw [List.mem_reverse]
    exact not_mem_of_dropWhile line
  rw [parse]
  split
  next read =>
    split
    · exact (readType?_inLine trimmed read).1
    · exact Text.oneLine_ofList.2 trimmed
  · exact Text.oneLine_ofList.2 trimmed

theorem oneLine_pointer {name pointer : String} (h : Builtin.pointer? name = some pointer) :
    OneLine pointer := by
  rw [Builtin.pointer?] at h
  split at h
  · cases h
    decide
  · cases h

theorem goName_oneLine {name : String} (line : OneLine name) : OneLine (goName name) := by
  unfold goName
  extract_lets unsigned
  split
  · split <;> decide
  split
  · decide
  split
  · decide
  split
  · decide
  split
  · decide
  · cases pointer : Builtin.pointer? name with
    | none => exact line
    | some other => exact oneLine_pointer pointer

theorem innermost_inLine {t : TypeSpelling} (h : t.InLine) : t.innermost.InLine := by
  match t with
  | .array element =>
    rw [innermost]
    exact innermost_inLine (t := element) h
  | .named _ | .generic .. => exact h

theorem AllInLine.map_innermost {ts : List TypeSpelling} (h : AllInLine ts) :
    AllInLine (ts.map innermost) := by
  induction ts with
  | nil => trivial
  | cons t rest ih => exact ⟨innermost_inLine h.1, ih h.2⟩

mutual

theorem normalize_inLine {t : TypeSpelling} (h : InLine t) : InLine (normalize t) := by
  match t with
  | .named name => exact goName_oneLine h
  | .array element => exact (normalize_inLine (t := element) h :)
  | .generic name args =>
    have others : AllInLine (normalizeAll args) := normalizeAll_inLine h.2
    rw [normalize]
    split
    next one =>
      rw [one] at others
      exact others.1
    · split
      next pointer found => exact ⟨oneLine_pointer found, others.map_innermost⟩
      · exact ⟨h.1, others⟩

theorem normalizeAll_inLine {ts : List TypeSpelling} (h : AllInLine ts) :
    AllInLine (normalizeAll ts) := by
  match ts with
  | [] => trivial
  | _ :: _ => exact ⟨normalize_inLine h.1, normalizeAll_inLine h.2⟩

end

mutual

theorem text_oneLine {t : TypeSpelling} (h : InLine t) : OneLine (text t) := by
  match t with
  | .named name => exact h
  | .array element =>
    rw [text, oneLine_append]
    exact ⟨by decide, text_oneLine (t := element) h⟩
  | .generic name args =>
    rw [text]
    exact oneLine_append.2 ⟨oneLine_append.2 ⟨oneLine_append.2 ⟨h.1, by decide⟩,
      argsText_oneLine h.2⟩, by decide⟩

theorem argsText_oneLine {ts : List TypeSpelling} (h : AllInLine ts) : OneLine (argsText ts) := by
  match ts with
  | [] => decide
  | _ :: _ =>
    rw [argsText, oneLine_append]
    exact ⟨text_oneLine h.1, moreText_oneLine h.2⟩

theorem moreText_oneLine {ts : List TypeSpelling} (h : AllInLine ts) : OneLine (moreText ts) := by
  match ts with
  | [] => decide
  | _ :: _ =>
    rw [moreText]
    exact oneLine_append.2 ⟨oneLine_append.2 ⟨by decide, text_oneLine h.1⟩, moreText_oneLine h.2⟩

end

end TypeSpelling

theorem oneLine_normalizeTypeText {text : String} (line : OneLine text) :
    OneLine (normalizeTypeText text) :=
  TypeSpelling.text_oneLine (TypeSpelling.normalize_inLine (TypeSpelling.parse_inLine line))

namespace Ty

variable {failed : Prop}

mutual

theorem text_oneLine {type : Ty} (h : Ty.Proper OneLine failed type) : OneLine (text type) := by
  match type with
  | .number | .string | .boolean | .void | .null | .any | .unknown =>
    rw [text]
    decide
  | .booleanLit value =>
    rw [text]
    split <;> decide
  | .numberLit _ => exact h
  | .stringLit body =>
    have inside : OneLine body := h
    simp only [text, oneLine_append, oneLine_toString, inside]
    decide
  | .array element =>
    have proper : Ty.Proper OneLine failed element := h
    have inner := text_oneLine proper
    rw [text]
    split
    · simp only [oneLine_append, oneLine_toString, inner]
      decide
    · simp only [oneLine_append, oneLine_toString, inner]
      decide
  | .«alias» name _ => exact h.1
  | .reference name [] => exact h.1
  | .reference name (first :: rest) =>
    have first := text_oneLine h.2.1
    have rest := argsText_oneLine h.2.2
    simp only [text, oneLine_append, oneLine_toString, h.1, first, rest]
    decide
  | .object [] =>
    rw [text]
    decide
  | .object (field :: rest) =>
    have proper : Field.AllProper OneLine failed (field :: rest) := h
    have fields := fieldsText_oneLine proper
    simp only [text, oneLine_append, oneLine_toString, fields]
    decide
  | .function [] returns =>
    have returns := text_oneLine h.2
    simp only [text, oneLine_append, oneLine_toString, returns]
    decide
  | .function (.mk name type :: rest) returns =>
    have first := text_oneLine h.1.2.1
    have rest := paramsText_oneLine h.1.2.2
    have returns := text_oneLine h.2
    simp only [text, oneLine_append, oneLine_toString, h.1.1, first, rest, returns]
    decide

theorem argsText_oneLine {types : List Ty} (h : Ty.AllProper OneLine failed types) :
    OneLine (argsText types) := by
  match types with
  | [] => decide
  | _ :: _ =>
    have first := text_oneLine h.1
    have rest := argsText_oneLine h.2
    simp only [argsText, oneLine_append, oneLine_toString, first, rest]
    decide

theorem fieldsText_oneLine {fields : List Field} (h : Field.AllProper OneLine failed fields) :
    OneLine (fieldsText fields) := by
  match fields with
  | [] => decide
  | .mk _ _ :: _ =>
    have type := text_oneLine h.2.1
    have rest := fieldsText_oneLine h.2.2
    simp only [fieldsText, oneLine_append, oneLine_toString, h.1, type, rest]
    decide

theorem paramsText_oneLine {fields : List Field} (h : Field.AllProper OneLine failed fields) :
    OneLine (paramsText fields) := by
  match fields with
  | [] => decide
  | .mk _ _ :: _ =>
    have type := text_oneLine h.2.1
    have rest := paramsText_oneLine h.2.2
    simp only [paramsText, oneLine_append, oneLine_toString, h.1, type, rest]
    decide

end

mutual

theorem goName_oneLine {type : Ty} (h : Ty.Proper OneLine failed type) :
    Returns OneLine (goName type) := by
  match type with
  | .number | .numberLit _ =>
    rw [goName]
    change OneLine Target.int
    decide
  | .stringLit _ =>
    rw [goName]
    change OneLine Target.string
    decide
  | .any | .unknown =>
    rw [goName]
    trivial
  | .array element =>
    rw [goName]
    have proper : Ty.Proper OneLine failed element := h
    refine (goName_oneLine proper).bind fun name line => ?_
    exact oneLine_append.2 ⟨by decide, line⟩
  | .«alias» name target =>
    rw [goName]
    split
    · exact goName_oneLine h.2
    · exact oneLine_normalizeTypeText h.1
  | .object [] =>
    rw [goName]
    change OneLine "struct\x7b\x7d"
    decide
  | .object (.mk name type :: rest) =>
    rw [goName]
    refine (goName_oneLine h.2.1).bind fun first line => ?_
    refine (goFields_oneLine h.2.2).bind fun others lines => ?_
    have capital := Text.oneLine_capitalized h.1
    change OneLine _
    simp only [oneLine_append, oneLine_toString, capital, line, lines]
    decide
  | .function params returns =>
    rw [goName]
    refine (goParams_oneLine h.1).bind fun params lines => ?_
    refine (goName_oneLine h.2).bind fun result line => ?_
    have separator : OneLine ", " := by decide
    have list := Text.oneLine_intercalate separator lines
    change OneLine _
    simp only [oneLine_append, oneLine_toString, list]
    refine ⟨by decide, ?_⟩
    split
    · decide
    · exact oneLine_append.2 ⟨by decide, line⟩
  | .string | .boolean | .booleanLit _ | .void | .null | .reference .. =>
    rw [goName]
    · exact oneLine_normalizeTypeText (text_oneLine h)
    all_goals simp

theorem goFields_oneLine {fields : List Field} (h : Field.AllProper OneLine failed fields) :
    Returns OneLine (goFields fields) := by
  match fields with
  | [] => exact (by decide : OneLine "")
  | .mk name type :: rest =>
    rw [goFields]
    refine (goName_oneLine h.2.1).bind fun first line => ?_
    refine (goFields_oneLine h.2.2).bind fun others lines => ?_
    have capital := Text.oneLine_capitalized h.1
    change OneLine _
    simp only [oneLine_append, oneLine_toString, capital, line, lines]
    decide

theorem goParams_oneLine {params : List Field} (h : Field.AllProper OneLine failed params) :
    Returns (fun names => ∀ name ∈ names, OneLine name) (goParams params) := by
  match params with
  | [] => exact List.forall_mem_nil _
  | .mk _ type :: rest =>
    rw [goParams]
    refine (goName_oneLine h.2.1).bind fun first line => ?_
    exact (goParams_oneLine h.2.2).bind fun others lines => List.forall_mem_cons.2 ⟨line, lines⟩

end

end Ty

/-- When all recorded types are proper, the names that are read from the table stay on one line. -/
theorem TypeTable.goNameAt_oneLine {types : TypeTable} {failed : Prop} {file : FileId}
    {span : Span}
    (proper : ∀ type, types.typeAt file span = some type → type.Proper OneLine failed) :
    Returns OneLine (types.goNameAt file span) := by
  rw [goNameAt]
  split
  next type found => exact Ty.goName_oneLine (proper type found)
  · trivial

end ScriptToGo
