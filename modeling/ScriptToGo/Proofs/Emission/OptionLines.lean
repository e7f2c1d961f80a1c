import ScriptToGo.Proofs.Emission.Document
import ScriptToGo.Proofs.Text.Lines

/-! Options change nothing in generated code but the texts that they choose. -/
namespace ScriptToGo
open Text (OneLine)

namespace CodeLine

/-- The lines that a line of code takes when its text may go over several. Only the first of them
is indented. -/
def split (l : CodeLine) : List CodeLine :=
  match Text.lines l.text with
  | [] => []
  | first :: rest => ⟨l.depth, first⟩ :: rest.map fun text => ⟨0, text⟩

variable {unit : String}

theorem oneLine_of_mem_split {l part : CodeLine} (mem : part ∈ l.split) : OneLine part.text := by
  rw [split] at mem
  split at mem
  · cases mem
  next first rest lines =>
    have each : ∀ text ∈ first :: rest, OneLine text :=
      fun text mem => Text.oneLine_of_mem_lines (lines ▸ mem)
    obtain ⟨here, others⟩ := List.forall_mem_cons.1 each
    rcases List.mem_cons.1 mem with rfl | mem
    · exact here
    · obtain ⟨text, among, rfl⟩ := List.mem_map.1 mem
      exact others text among

theorem split_of_oneLine {l : CodeLine} (line : OneLine l.text) : l.split = [l] := by
  rw [split, Text.lines_of_oneLine line]
  rfl

theorem flatMap_split {list : List CodeLine} (line : ∀ l ∈ list, OneLine l.text) :
    list.flatMap split = list := by
  induction list with
  | nil => rfl
  | cons l rest ih =>
    obtain ⟨here, others⟩ := List.forall_mem_cons.1 line
    rw [List.flatMap_cons, split_of_oneLine here, ih others, List.singleton_append]

theorem lines_written (indent : OneLine unit) (l : CodeLine) :
    Text.lines (l.written unit) = l.split.map (written unit) := by
  obtain ⟨head, tail, lines, behind⟩ := Text.exists_lines_append l.text
  have margin : OneLine (String.join (List.replicate l.depth unit)) :=
    Text.oneLine_join fun text mem => by rwa [List.eq_of_mem_replicate mem]
  rw [written, behind _ margin, split, lines, List.map_cons, List.map_map]
  congr 1
  exact (List.map_id tail).symm.trans (List.map_congr_left fun text _ => by simp [written])

/-- The lines of a text are those that its lines of code take. -/
theorem lines_textOf (indent : OneLine unit) (list : List CodeLine) :
    Text.lines (textOf unit list) = (list.flatMap split).map (written unit) ++ [""] := by
  induction list with
  | nil => rfl
  | cons l rest ih =>
    have first : textOf unit (l :: rest) = l.written unit ++ "\n" ++ textOf unit rest := by
      rw [textOf, List.map_cons, String.join_cons, textOf]
    rw [first, Text.lines_closed, lines_written indent, ih, List.flatMap_cons, List.map_append,
      List.append_assoc]

end CodeLine

namespace Options

/-- The lines that list the imports which code needs, with an empty one after them. -/
def importBlock (o : Options) (needed : List String) : List String :=
  (importLines (o.importsFor needed)).map (CodeLine.written o.indent)

/-- A text is what is written of functions with some options: line by line the package, the imports
that the functions need, and the functions. -/
def Frames (o : Options) (needed : List String) (functions : List CodeLine) (code : String) : Prop :=
  Text.lines code = s!"package {o.package}" :: "" ::
    (o.importBlock needed ++ functions.map (CodeLine.written o.indent)) ++ [""]

theorem frames_layout {o : Options} (lines : o.InLine) (codes : List Code) :
    o.Frames (codes.flatMap Code.imports)
      (([CodeLine.blank].intercalate (codes.map (Code.lines 0))).flatMap CodeLine.split)
      (o.layout codes) := by
  have package : OneLine s!"package {o.package}" :=
    Text.oneLine_append.2 ⟨by decide, lines.package⟩
  have head : ∀ l ∈ [⟨0, s!"package {o.package}"⟩, CodeLine.blank], OneLine l.text :=
    List.forall_mem_cons.2 ⟨package, by decide⟩
  have needed : ∀ path ∈ o.importsFor (codes.flatMap Code.imports), OneLine path :=
    fun path mem => lines.imports path (List.mem_of_mem_filter mem)
  have front := List.forall_mem_append.2 ⟨head, oneLine_importLines needed⟩
  rw [Frames, layout_eq, CodeLine.lines_textOf lines.indent, document, List.flatMap_append,
    CodeLine.flatMap_split front, List.map_append, List.map_append, List.append_assoc, importBlock]
  simp [CodeLine.written, CodeLine.blank]

end Options

namespace ModuleGraph

/-- A program is written with all options or with none, and then for the same reason. What is
written of its functions differs from options to options in nothing but the unit of indentation;
their package is on the first line alone, and which imports they list matters in the block of
imports alone. -/
theorem toGo_lines (g : ModuleGraph) (types : TypeTable) {first second : Options}
    (one : first.InLine) (other : second.InLine) :
    (∃ failure, g.toGo types first = .error failure ∧ g.toGo types second = .error failure) ∨
      ∃ needed functions firstCode secondCode,
        g.toGo types first = .ok firstCode ∧ g.toGo types second = .ok secondCode ∧
        (∀ l ∈ functions, OneLine l.text) ∧
        first.Frames needed functions firstCode ∧ second.Frames needed functions secondCode := by
  rw [toGo_eq, toGo_eq]
  cases codesOf types g.written with
  | error failure => exact .inl ⟨failure, rfl, rfl⟩
  | ok codes =>
    refine .inr ⟨_, _, _, _, rfl, rfl, fun l mem => ?_, Options.frames_layout one codes,
      Options.frames_layout other codes⟩
    obtain ⟨whole, _, part⟩ := List.mem_flatMap.1 mem
    exact CodeLine.oneLine_of_mem_split part

/-- Another package, two blanks for each block, and only those imports that are needed. -/
def spacedOptions : Options := ⟨"app", ["fmt", "ts2go/console"], "  ", true⟩

/-- Three functions, indented by tabs under all imports, and by blanks where they need none. -/
theorem halves_lines : Options.standard.InLine ∧ spacedOptions.InLine ∧
    ∃ needed functions code, halvesGraph.toGo halvesTypes spacedOptions = .ok code ∧
      (∀ l ∈ functions, OneLine l.text) ∧
      Options.standard.Frames needed functions halvesCode ∧
      spacedOptions.Frames needed functions code := by
  have one : Options.standard.InLine := ⟨by decide, by decide, by decide⟩
  have other : spacedOptions.InLine := ⟨by decide, by decide, by decide⟩
  rcases halvesGraph.toGo_lines halvesTypes one other with ⟨failure, failed, _⟩ |
    ⟨needed, functions, firstCode, code, first, second, lines, framed, otherFramed⟩
  · rw [halves_emits] at failed
    cases failed
  · rw [halves_emits] at first
    cases first
    exact ⟨one, other, needed, functions, code, second, lines, framed, otherFramed⟩

end ModuleGraph

end ScriptToGo
