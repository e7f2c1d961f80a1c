import ScriptToGo.Proofs.Check.Inferred
import ScriptToGo.Proofs.Emission.Printing
import ScriptToGo.Proofs.Grammar.ProgramTexts
import ScriptToGo.Proofs.Module.TwoFiles

/-! The code of a program is a document: the package, the imports and the functions that are met
when every import is replaced by what it imports. -/
namespace ScriptToGo
open Text (OneLine oneLine_append oneLine_toString)

namespace ModuleGraph

variable {g : ModuleGraph}

/-- The statements that are met, each with its module, when those of a module are read in order and
each import is replaced by the statements of the module that it names, unless that one is on the
chain of imports already. -/
inductive Meets (g : ModuleGraph) :
    List FileId → Module → List Statement → List (Module × Statement) → Prop
  | nil {chain m} : Meets g chain m [] []
  | other {chain m s rest met} : s.import? = none → Meets g chain m rest met →
      Meets g chain m (s :: rest) ((m, s) :: met)
  | entered {chain m s rest decl target inner met} : s.import? = some decl →
      g.resolveImport m.id decl.specifier.text = some target → target.id ∉ chain →
      Meets g (target.id :: chain) target target.program inner → Meets g chain m rest met →
      Meets g chain m (s :: rest) (inner ++ met)
  | skipped {chain m s rest decl target met} : s.import? = some decl →
      g.resolveImport m.id decl.specifier.text = some target → target.id ∈ chain →
      Meets g chain m rest met → Meets g chain m (s :: rest) met

theorem Meets.eq_written {chain : List FileId} {m : Module} {statements : List Statement}
    {met : List (Module × Statement)} (h : g.Meets chain m statements met) :
    met = WalkStep.written m [] (g.walkFrom chain m statements) := by
  induction h with
  | nil => rw [walkFrom_nil, WalkStep.written]
  | other plain _ ih => rw [walkFrom_other plain, WalkStep.written, ← ih]
  | entered importing resolved new _ _ inner ih =>
    rw [walkFrom_entered importing resolved new, WalkStep.written_enter, ← inner, ← ih]
  | skipped importing resolved seen _ ih => rw [walkFrom_skipped importing resolved seen, ← ih]

/-- What a walk writes is what is met, if all imports lead somewhere. -/
theorem meets_written {chain : List FileId} {m : Module} {statements : List Statement}
    (plain : ∀ w ∈ WalkStep.written m [] (g.walkFrom chain m statements), w.2.import? = none) :
    g.Meets chain m statements (WalkStep.written m [] (g.walkFrom chain m statements)) := by
  induction chain, m, statements using walkFrom.induct g with
  | case1 chain m =>
    rw [walkFrom_nil]
    exact .nil
  | case2 chain m s others other ih =>
    rw [walkFrom_other other, WalkStep.written] at plain ⊢
    exact .other other (ih (List.forall_mem_cons.1 plain).2)
  | case3 chain m s others decl importing unresolved ih =>
    rw [walkFrom_unresolved importing unresolved, WalkStep.written] at plain
    have := (List.forall_mem_cons.1 plain).1
    simp [importing] at this
  | case4 chain m s others decl importing target resolved new ihInner ih =>
    rw [walkFrom_entered importing resolved new, WalkStep.written_enter] at plain ⊢
    obtain ⟨inner, rest⟩ := List.forall_mem_append.1 plain
    exact .entered importing resolved new (ihInner inner) (ih rest)
  | case5 chain m s others decl importing target resolved seen ih =>
    have seen := Decidable.not_not.1 seen
    rw [walkFrom_skipped importing resolved seen] at plain ⊢
    exact .skipped importing resolved seen (ih plain)

end ModuleGraph

/-- Options whose texts stay on one line each. -/
structure Options.InLine (o : Options) : Prop where
  package : OneLine o.package
  imports : ∀ path ∈ o.imports, OneLine path
  indent : OneLine o.indent

namespace CodeLine

theorem oneLine_written {unit : String} (indent : OneLine unit) {l : CodeLine}
    (line : OneLine l.text) : OneLine (l.written unit) := by
  refine oneLine_append.2 ⟨Text.oneLine_join fun text mem => ?_, line⟩
  rwa [List.eq_of_mem_replicate mem]

end CodeLine

theorem forall_mem_intercalate {α : Type} {p : α → Prop} {separator : List α}
    {lists : List (List α)} (between : ∀ a ∈ separator, p a)
    (each : ∀ list ∈ lists, ∀ a ∈ list, p a) : ∀ a ∈ separator.intercalate lists, p a := by
  induction lists with
  | nil => exact List.forall_mem_nil _
  | cons first rest ih =>
    obtain ⟨here, others⟩ := List.forall_mem_cons.1 each
    rcases rest with _ | ⟨second, rest⟩
    · simpa using here
    · rw [List.intercalate_cons_of_ne_nil (List.cons_ne_nil _ _)]
      exact List.forall_mem_append.2 ⟨List.forall_mem_append.2 ⟨here, between⟩, ih others⟩

theorem oneLine_importLines {imports : List String} (h : ∀ path ∈ imports, OneLine path) :
    ∀ l ∈ importLines imports, OneLine l.text := by
  have quoted : ∀ l ∈ imports.map fun path => (⟨1, s!"\"{path}\""⟩ : CodeLine), OneLine l.text := by
    refine List.forall_mem_map.2 fun path mem => ?_
    simp only [oneLine_append, oneLine_toString, h path mem]
    decide
  have opening : OneLine "import (" := by decide
  have closing : OneLine ")" := by decide
  have nothing : OneLine CodeLine.blank.text := by decide
  rw [importLines]
  split
  · exact List.forall_mem_nil _
  · simp only [List.forall_mem_cons, List.forall_mem_append]
    exact ⟨opening, quoted, closing, nothing, List.forall_mem_nil _⟩

theorem Options.oneLine_document {o : Options} (lines : o.InLine) {codes : List Code}
    (functions : ∀ code ∈ codes, ∀ l ∈ code.lines 0, OneLine l.text) :
    ∀ l ∈ o.document codes, OneLine (l.written o.indent) := by
  have package : OneLine s!"package {o.package}" := oneLine_append.2 ⟨by decide, lines.package⟩
  have nothing : ∀ l ∈ [CodeLine.blank], OneLine l.text := by decide
  have needed : ∀ path ∈ o.importsFor (codes.flatMap Code.imports), OneLine path :=
    fun path mem => lines.imports path (List.mem_of_mem_filter mem)
  have imports := oneLine_importLines needed
  have body := forall_mem_intercalate nothing (List.forall_mem_map.2 functions)
  intro l mem
  refine CodeLine.oneLine_written lines.indent ?_
  simp only [document, List.mem_append, List.mem_cons, List.not_mem_nil, or_false] at mem
  rcases mem with ((rfl | rfl) | listed) | inside
  · exact package
  · exact nothing _ List.mem_cons_self
  · exact imports l listed
  · exact body l inside

theorem SymbolTable.inLine_builtins : ∀ entry ∈ builtins, entry.2.Proper OneLine False :=
  proper_builtins (by decide) (by decide)

theorem Statement.PrintsFunction.import?_eq_none {v : View} {s : Statement} {lines : List CodeLine}
    (h : s.PrintsFunction v lines) : s.import? = none := by
  cases h
  rfl

theorem printsFunctions_of_codesOf {types : TypeTable} {statements : List (Module × Statement)}
    {codes : List Code} (h : codesOf types statements = .ok codes) :
    List.Forall₂ (fun w c => w.2.PrintsFunction ⟨w.1, types⟩ (c.lines 0)) statements codes :=
  (Returns.mapM_forall₂ fun w _ => w.2.printsFunction).of_ok h

/-- No import has code. -/
theorem import?_of_codesOf {types : TypeTable} {statements : List (Module × Statement)}
    {codes : List Code} (h : codesOf types statements = .ok codes) :
    ∀ w ∈ statements, w.2.import? = none := by
  have functions := (printsFunctions_of_codesOf h).imp
    fun _ _ prints => And.intro prints.import?_eq_none trivial
  exact ((List.forall₂_and_left _ _).1 functions).1

namespace ModuleGraph

variable {s : Sources} {entry : Path} {g : ModuleGraph} {types : TypeTable}

theorem inLine_of_check (loaded : load s entry = .ok g) (checked : g.check = .ok types)
    (m : Module) : View.InLine ⟨m, types⟩ := by
  have texts : ∀ m ∈ g.modules, Statement.AllTextsOf OneLine m.program := fun m mem =>
    Program.oneLine_ofSource (isFrom_of_load loaded mem).program
  have proper := proper_of_check ignoresSign_oneLine SymbolTable.inLine_builtins texts checked
  exact fun span => TypeTable.goNameAt_oneLine (proper m.id span)

theorem allTexts_of_written (loaded : load s entry = .ok g) {w : Module × Statement}
    (mem : w ∈ g.written) : w.2.AllTexts OneLine := by
  have written := isWritten mem
  have parsed := (isFrom_of_load loaded written.mem).program
  exact (Program.oneLine_ofSource parsed).of_mem _ written.statement

theorem oneLine_of_codesOf (loaded : load s entry = .ok g) (checked : g.check = .ok types)
    {codes : List Code} (h : codesOf types g.written = .ok codes) :
    ∀ code ∈ codes, ∀ l ∈ code.lines 0, OneLine l.text := by
  refine (Returns.mapM fun w mem => ?_).of_ok h
  refine w.2.printsFunction.mono fun code prints => ?_
  exact prints.inLine (inLine_of_check loaded checked w.1) (allTexts_of_written loaded mem)

/-- A program that has been loaded and checked is written when all functions that are met have code,
and then its text is the document of their code, line for line: each function starts and ends at the
margin, and what is inside of it is indented by the blocks around it. -/
theorem toGo_document (loaded : load s entry = .ok g) (checked : g.check = .ok types)
    {options : Options} (lines : options.InLine) {code : String} :
    g.toGo types options = .ok code ↔
      ∃ met codes, g.Meets [g.entry.id] g.entry g.entry.program met ∧
        codesOf types met = .ok codes ∧
        List.Forall₂ (fun w c => w.2.PrintsFunction ⟨w.1, types⟩ (c.lines 0)) met codes ∧
        code = CodeLine.textOf options.indent (options.document codes) ∧
        ∀ l ∈ options.document codes, OneLine (l.written options.indent) := by
  rw [toGo_eq]
  constructor
  · intro emitted
    cases written : codesOf types g.written with
    | error failure =>
      rw [written] at emitted
      cases emitted
    | ok codes =>
      rw [written] at emitted
      cases emitted
      have each := oneLine_of_codesOf loaded checked written
      exact ⟨g.written, codes, meets_written (import?_of_codesOf written), written,
        printsFunctions_of_codesOf written, options.layout_eq codes,
        Options.oneLine_document lines each⟩
  · rintro ⟨met, codes, meets, written, _, rfl, _⟩
    obtain rfl : met = g.written := meets.eq_written
    rw [written, ← options.layout_eq]
    rfl

/-- A file that imports another one and calls its function in a loop. -/
def halvesSource : String :=
  "import './half';\nfunction count(n: number): void \x7b\n  for (let i = 0; i < n; i++) \x7b half(i); " ++
    "\x7d\n\x7d\nfunction main(): void \x7b count(2); \x7d\n"

def halfSource : String := "export function half(n: number): number \x7b return n / 2; \x7d\n"

def halvesGraph : ModuleGraph :=
  .ofTexts ⟨"main.ts"⟩ halvesSource "./half" ⟨"half.ts"⟩ halfSource

def halvesTypes : TypeTable := halvesGraph.check.toOption.getD .empty

theorem halves_loads :
    load (.ofFiles [(⟨"main.ts"⟩, halvesSource), (⟨"half.ts"⟩, halfSource)] []) ⟨"main.ts"⟩
      = .ok halvesGraph :=
  load_ofTexts rfl rfl (by decide +kernel) rfl (by decide +kernel) rfl (by decide +kernel)

theorem halves_checks : halvesGraph.check = .ok halvesTypes :=
  eq_ok_of_isSome TypeTable.empty (by decide +kernel)

def halvesCode : String :=
  "package main\n\nimport (\n\t\"fmt\"\n\t\"ts2go/console\"\n)\n\n" ++
    "func half(n int) int \x7b\n\treturn n / 2\n\x7d\n\n" ++
    "func count(n int) \x7b\n\tfor i := int(0); i < n; i++ \x7b\n\t\thalf(i)\n\t\x7d\n\x7d\n\n" ++
    "func main() \x7b\n\tcount(2)\n\x7d\n"

theorem halves_emits : halvesGraph.toGo halvesTypes .standard = .ok halvesCode :=
  toGo_eq_ok (by decide +kernel)

/-- The document of three functions, that of the imported file first, with the imports that are written
unless told otherwise. -/
theorem halves_document :
    load (.ofFiles [(⟨"main.ts"⟩, halvesSource), (⟨"half.ts"⟩, halfSource)] []) ⟨"main.ts"⟩
        = .ok halvesGraph ∧
      halvesGraph.check = .ok halvesTypes ∧ Options.standard.InLine ∧
      halvesGraph.toGo halvesTypes .standard = .ok halvesCode ∧
      ∃ met codes, met.map (·.1.path.text) = ["half.ts", "main.ts", "main.ts"] ∧
        codesOf halvesTypes met = .ok codes ∧
        List.Forall₂ (fun w c => w.2.PrintsFunction ⟨w.1, halvesTypes⟩ (c.lines 0)) met codes ∧
        halvesCode = CodeLine.textOf "\t" (Options.standard.document codes) := by
  have inLine : Options.standard.InLine := ⟨by decide, by decide, by decide⟩
  obtain ⟨met, codes, meets, written, functions, document, _⟩ :=
    (toGo_document halves_loads halves_checks inLine).1 halves_emits
  have places : met.map (·.1.path.text) = ["half.ts", "main.ts", "main.ts"] := by
    rw [meets.eq_written, ← ModuleGraph.walk, walk_eq]
    decide +kernel
  exact ⟨halves_loads, halves_checks, inLine, halves_emits, met, codes, places, written, functions,
    document⟩

end ModuleGraph

end ScriptToGo
