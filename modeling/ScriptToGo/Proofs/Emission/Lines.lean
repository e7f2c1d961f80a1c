import ScriptToGo.Proofs.Emission.Layout

/-! The layout of code is whole lines, each indented by the blocks around it. -/
namespace ScriptToGo

/-- A line of code: the number of blocks around it, and what it says. -/
structure CodeLine where
  depth : Nat
  text : String

theorem Segment.renderAll_append (first second : List Segment) :
    renderAll (first ++ second) = renderAll first ++ renderAll second := by
  induction first with
  | nil => rw [List.nil_append, renderAll, String.empty_append]
  | cons s first ih => rw [List.cons_append, renderAll, renderAll, ih, String.append_assoc]

namespace CodeLine

def blank : CodeLine := ⟨0, ""⟩

/-- A line as it is written: after one unit for each block around it. -/
def written (unit : String) (l : CodeLine) : String :=
  String.join (List.replicate l.depth unit) ++ l.text

/-- The text of lines, each of which is closed. -/
def textOf (unit : String) (lines : List CodeLine) : String :=
  String.join (lines.map fun l => l.written unit ++ "\n")

def segments (unit : String) (lines : List CodeLine) : List Segment :=
  lines.map fun l => .line (l.written unit)

variable {unit : String}

@[simp] theorem segments_nil : segments unit [] = [] := rfl

@[simp] theorem segments_cons (l : CodeLine) (rest : List CodeLine) :
    segments unit (l :: rest) = .line (l.written unit) :: segments unit rest := rfl

@[simp] theorem segments_append (first second : List CodeLine) :
    segments unit (first ++ second) = segments unit first ++ segments unit second :=
  List.map_append

theorem renderAll_segments (lines : List CodeLine) :
    Segment.renderAll (segments unit lines) = textOf unit lines := by
  induction lines with
  | nil => rfl
  | cons l rest ih =>
    rw [segments, List.map_cons, Segment.renderAll, Segment.render, textOf, List.map_cons,
      String.join_cons]
    exact congrArg _ ih

theorem textOf_append (first second : List CodeLine) :
    textOf unit (first ++ second) = textOf unit first ++ textOf unit second := by
  rw [textOf, List.map_append, String.join_append, textOf, textOf]

end CodeLine

namespace Code

mutual

/-- The lines of code that stands in a number of blocks. -/
def lines (depth : Nat) : Code → List CodeLine
  | line content => [⟨depth, content.text⟩]
  | block head body =>
    ⟨depth, head.text ++ "\x7b"⟩ :: (linesAll (depth + 1) body ++ [⟨depth, "\x7d"⟩])

def linesAll (depth : Nat) : List Code → List CodeLine
  | [] => []
  | c :: rest => c.lines depth ++ linesAll depth rest

end

end Code

/-- The lines that list imports, with an empty one after them. -/
def importLines (imports : List String) : List CodeLine :=
  if imports = [] then []
  else ⟨0, "import ("⟩ :: ((imports.map fun path => ⟨1, s!"\"{path}\""⟩) ++ [⟨0, ")"⟩, .blank])

/-- The package, the imports that the code of the functions needs, and that code, with an empty line
between functions. -/
def Options.document (o : Options) (codes : List Code) : List CodeLine :=
  [⟨0, s!"package {o.package}"⟩, .blank] ++ importLines (o.importsFor (codes.flatMap Code.imports))
    ++ [CodeLine.blank].intercalate (codes.map (Code.lines 0))

namespace TextTree
open CodeLine (written blank)

/-- A text without an open line. -/
def closed (segments : List Segment) (depth : Nat) (unit : String) : TextTree :=
  mk segments "" depth unit

variable {segments : List Segment} {depth : Nat} {unit : String}

theorem appendLine_closed {text : String} (some : text ≠ "") :
    (closed segments depth unit).appendLine text
      = closed (segments ++ CodeLine.segments unit [⟨depth, text⟩]) depth unit := by
  rw [appendLine, if_neg some]
  rfl

/-- The first text on a line comes after the margin, be it empty or not. -/
theorem append_appendLine_closed (first : String) {second : String} (some : second ≠ "") :
    ((closed segments depth unit).append first).appendLine second
      = closed (segments ++ CodeLine.segments unit [⟨depth, first ++ second⟩]) depth unit := by
  have opened : (closed segments depth unit).append first
      = mk segments (written unit ⟨depth, first⟩) depth unit := rfl
  rw [appendLine, if_neg some, opened, append]
  change closed (segments ++ [.line ((if written unit ⟨depth, first⟩ = "" then
    String.join (List.replicate depth unit) else _) ++ second)]) depth unit = _
  by_cases bare : written unit ⟨depth, first⟩ = ""
  · have nothing : first = "" := (String.append_eq_empty_iff.1 bare).2
    rw [if_pos bare, nothing, String.empty_append]
    rfl
  · rw [if_neg bare]
    change closed (segments ++ [.line (_ ++ first ++ second)]) depth unit = _
    rw [String.append_assoc]
    rfl

theorem removeLine_closed (text : String) :
    (closed (segments ++ [.line text]) depth unit).removeLine = closed segments depth unit := by
  simp [removeLine, closed, openLine, TextTree.segments, TextTree.depth, TextTree.unit]

theorem indent_closed : (closed segments depth unit).indent = closed segments (depth + 1) unit := rfl

theorem unindent_closed :
    (closed segments depth unit).unindent = closed segments (depth - 1) unit := rfl

theorem render_closed (lines : List CodeLine) :
    Segment.render (.slot (closed (CodeLine.segments unit lines) depth unit))
      = CodeLine.textOf unit lines := by
  rw [closed, Segment.render, if_pos rfl, String.append_empty, CodeLine.renderAll_segments]

theorem newLine_closed :
    (closed segments depth unit).newLine = closed (segments ++ CodeLine.segments unit [blank]) depth
      unit := rfl

end TextTree

namespace Code
open TextTree (closed)

mutual

/-- Code that is written to a text adds its lines to it. -/
theorem write_closed (c : Code) (segments : List Segment) (depth : Nat) (unit : String) :
    c.write (closed segments depth unit)
      = closed (segments ++ CodeLine.segments unit (c.lines depth)) depth unit := by
  match c with
  | .line content => rfl
  | .block head body =>
    rw [write, TextTree.append_appendLine_closed _ (by decide)]
    change ((writeAll body (closed _ (depth + 1) unit)).unindent.append "\x7d").newLine = _
    rw [writeAll_closed, lines]
    change closed (segments ++ [_] ++ _ ++ [.line (CodeLine.written unit ⟨depth, "\x7d"⟩)]) depth
      unit = _
    simp

theorem writeAll_closed (codes : List Code) (segments : List Segment) (depth : Nat)
    (unit : String) : writeAll codes (closed segments depth unit)
      = closed (segments ++ CodeLine.segments unit (linesAll depth codes)) depth unit := by
  match codes with
  | [] => simp [writeAll, linesAll]
  | c :: rest => simp [writeAll, linesAll, write_closed c, writeAll_closed rest]

end

end Code

namespace TextTree
open CodeLine (blank)

theorem foldl_place_closed (codes : List Code) (segments : List Segment) (unit : String) :
    codes.foldl place (closed segments 0 unit) = closed (segments ++
      CodeLine.segments unit (codes.flatMap fun c => c.lines 0 ++ [blank])) 0 unit := by
  induction codes generalizing segments with
  | nil => simp
  | cons c rest ih =>
    rw [List.foldl_cons, place, c.write_closed, newLine_closed, ih]
    simp

theorem foldl_appendLine_closed (paths : List String) (segments : List Segment) (unit : String) :
    paths.foldl (fun t path => t.appendLine s!"\"{path}\"") (closed segments 1 unit)
      = closed (segments ++ CodeLine.segments unit (paths.map fun path => ⟨1, s!"\"{path}\""⟩)) 1
          unit := by
  induction paths generalizing segments with
  | nil => simp
  | cons path rest ih =>
    have some : s!"\"{path}\"" ≠ "" := fun none =>
      absurd (String.append_eq_empty_iff.1 none).2 (by decide)
    rw [List.foldl_cons, appendLine_closed some, ih]
    simp

theorem render_writeImports (unit : String) (imports : List String) :
    Segment.render (.slot ((empty 0 unit).writeImports imports))
      = CodeLine.textOf unit (importLines imports) := by
  cases imports with
  | nil => rfl
  | cons path rest =>
    have start : empty 0 unit = closed [] 0 unit := rfl
    rw [writeImports, List.isEmpty_cons, if_neg Bool.false_ne_true, start,
      appendLine_closed (by decide), indent_closed]
    dsimp only
    rw [Nat.zero_add, foldl_appendLine_closed, unindent_closed, appendLine_closed (by decide),
      newLine_closed, importLines, if_neg (List.cons_ne_nil _ _),
      ← @render_closed 0]
    simp

end TextTree

theorem intercalate_concat {α : Type} (separator last : List α) (lists : List (List α)) :
    separator.intercalate (lists ++ [last]) = lists.flatMap (· ++ separator) ++ last := by
  induction lists with
  | nil => simp
  | cons list rest ih =>
    rw [List.cons_append, List.intercalate_cons_of_ne_nil (by simp), ih, List.flatMap_cons,
      List.append_assoc (list ++ separator)]

namespace Options
open TextTree (closed)

theorem opening_eq (o : Options) : o.opening
    = closed (CodeLine.segments o.indent [⟨0, s!"package {o.package}"⟩, .blank]
        ++ [.slot (.empty 0 o.indent)]) 0 o.indent := by
  have some : s!"package {o.package}" ≠ "" := fun none =>
    absurd (String.append_eq_empty_iff.1 none).1 (by decide)
  have start : TextTree.empty 0 o.indent = closed [] 0 o.indent := rfl
  rw [opening, start, TextTree.appendLine_closed some]
  rfl

/-- The empty line after the last function is taken back, and nothing else is. -/
theorem removeLine_opening (o : Options) (codes : List Code) :
    (codes.foldl TextTree.place o.opening).removeLine
      = closed (CodeLine.segments o.indent [⟨0, s!"package {o.package}"⟩, .blank]
          ++ .slot (.empty 0 o.indent) ::
            CodeLine.segments o.indent ([CodeLine.blank].intercalate (codes.map (Code.lines 0))))
          0 o.indent := by
  rw [opening_eq, TextTree.foldl_place_closed]
  rcases List.eq_nil_or_concat codes with rfl | ⟨others, last, rfl⟩
  · rfl
  · have whole : ((others ++ [last]).flatMap fun c => c.lines 0 ++ [.blank])
        = [CodeLine.blank].intercalate ((others ++ [last]).map (Code.lines 0)) ++ [.blank] := by
      simp [intercalate_concat, List.flatMap_map]
    rw [List.concat_eq_append, whole, CodeLine.segments_append, ← List.append_assoc]
    exact (TextTree.removeLine_closed _).trans (by rw [List.append_assoc, List.singleton_append])

/-- What is written is the text of whole lines, without an empty line at its end. -/
theorem layout_eq (o : Options) (codes : List Code) :
    o.layout codes = CodeLine.textOf o.indent (o.document codes) := by
  rw [layout, removeLine_opening]
  change Segment.renderAll (CodeLine.segments o.indent [⟨0, s!"package {o.package}"⟩, .blank]
    ++ .slot _ :: CodeLine.segments o.indent _) ++ "" = _
  rw [Segment.renderAll_append, Segment.renderAll, TextTree.render_writeImports, document]
  simp only [CodeLine.renderAll_segments, CodeLine.textOf_append, String.append_assoc,
    String.append_empty]

end Options

end ScriptToGo
