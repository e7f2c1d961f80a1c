import ScriptToGo.Proofs.Check.Noted
import ScriptToGo.Proofs.Module.TwoFiles

/-! An accepted program only writes to what may be written to. -/
namespace ScriptToGo

namespace Binding

def isParameter : Binding → Bool
  | .variable none => true
  | _ => false

theorem eq_of_isParameter {binding : Binding} (is : binding.isParameter = true) :
    binding = .variable none := by
  cases binding with
  | «variable» keyword? =>
    cases keyword? with
    | none => rfl
    | some keyword => cases is
  | _ => cases is

/-- An imported type that has another name. -/
def isRenamed : Binding → Bool
  | .renamed _ => true
  | _ => false

theorem eq_of_isRenamed {binding : Binding} (is : binding.isRenamed = true) :
    ∃ own, binding = .renamed own := by
  cases binding with
  | renamed own => exact ⟨own, rfl⟩
  | _ => cases is

end Binding

/-- The name that an expression is but for parentheses. -/
def Expr.name? : Expr → Option String
  | .ident _ name => some name
  | .paren _ inner => inner.name?
  | _ => none

namespace ModuleGraph

/-- Each expression of a module is seen from one place, and what it writes to may be written to
there. -/
structure WritesChecked (g : ModuleGraph) (m : Module) : Prop where
  covered : ∀ e, Node.expression e ∈ m.program.nodes →
    ∃ sight, (sight, .expression e) ∈ g.outlooks m
  once : ((g.outlooks m).map fun v => v.2.span).Nodup
  allowed : ∀ sight e target, (sight, .expression e) ∈ g.outlooks m → e.written? = some target →
    g.MayWrite sight target

variable {g : ModuleGraph}

/-- All modules of a program that has been loaded and is accepted only write to what may be written
to. -/
theorem writes_checked {s : Sources} {entry : Path} (loaded : load s entry = .ok g)
    {types : TypeTable} (accepted : g.check = .ok types) {m : Module} (hm : m ∈ g.modules) :
    g.WritesChecked m where
  covered _ := exists_sight
  once := (isNumbered_of_load loaded).outlooks_distinct hm
  allowed sight e target seen written := by
    obtain ⟨_, _, suits⟩ := outlooks_hold loaded accepted hm seen
    exact suits.writes target written

/-- A module writes to a name that stands for something. -/
def WritesTo (g : ModuleGraph) (m : Module) (name : String) (binding : Binding) : Prop :=
  ∃ sight n target, (sight, n) ∈ g.outlooks m ∧ n.written? = some target ∧
    target.name? = some name ∧ g.binding? sight name = some binding

/-- An outermost node of a module writes to a name that stands for what is told. -/
def writesAny (g : ModuleGraph) (m : Module) (told : Binding → Bool) : Bool :=
  (g.outerOutlooks m.id [[]] m.program).any fun v =>
    (v.2.written?.bind Expr.name?).any fun name => (g.binding? v.1 name).any told

theorem exists_writesTo {m : Module} {told : Binding → Bool} (writes : g.writesAny m told = true) :
    ∃ name binding, g.WritesTo m name binding ∧ told binding = true := by
  obtain ⟨⟨sight, n⟩, outer, writes⟩ := List.any_eq_true.1 writes
  obtain ⟨name, named, stands⟩ := (Option.any_eq_true _ _).1 writes
  obtain ⟨target, written, named⟩ := Option.bind_eq_some_iff.1 named
  obtain ⟨binding, stands, told⟩ := (Option.any_eq_true _ _).1 stands
  exact ⟨name, binding, ⟨sight, n, target, mem_outlooks outer, written, named, stands⟩, told⟩

/-- A function with a parameter that hides a constant, and writes to it. -/
def hidingSource : String :=
  "const n = 1;\nfunction f(n: number): void \x7b\n  (n) += 1;\n\x7d\n"

def hidingGraph : ModuleGraph := .ofFile ⟨"main.ts"⟩ hidingSource (programOf hidingSource)

def hidingTypes : TypeTable := hidingGraph.check.toOption.getD .empty

theorem hiding_loads :
    load (.ofFiles [(⟨"main.ts"⟩, hidingSource)] []) ⟨"main.ts"⟩ = .ok hidingGraph :=
  load_ofText rfl (by decide +kernel)

theorem hiding_checks : hidingGraph.check = .ok hidingTypes :=
  eq_ok_of_isSome TypeTable.empty (by decide +kernel)

/-- The parameter is what is written to. -/
theorem hiding_writes :
    load (.ofFiles [(⟨"main.ts"⟩, hidingSource)] []) ⟨"main.ts"⟩ = .ok hidingGraph ∧
      hidingGraph.check = .ok hidingTypes ∧ hidingGraph.WritesChecked hidingGraph.entry ∧
      ∃ name, hidingGraph.WritesTo hidingGraph.entry name (.variable none) := by
  refine ⟨hiding_loads, hiding_checks,
    writes_checked hiding_loads hiding_checks List.mem_cons_self, ?_⟩
  have writes : hidingGraph.writesAny hidingGraph.entry Binding.isParameter = true := by
    decide +kernel
  obtain ⟨name, binding, writes, is⟩ := exists_writesTo writes
  exact ⟨name, Binding.eq_of_isParameter is ▸ writes⟩

/-- A file that imports a type under another name, where a variable hides it. -/
def renamingSource : String := "let T = 1;\nimport \x7b T as U \x7d from './b';\nU = 2;\n"

def renamedSource : String := "export interface T \x7b\x7d\n"

def renamingGraph : ModuleGraph :=
  .ofTexts ⟨"main.ts"⟩ renamingSource "./b" ⟨"b.ts"⟩ renamedSource

def renamingTypes : TypeTable := renamingGraph.check.toOption.getD .empty

theorem renaming_loads :
    load (.ofFiles [(⟨"main.ts"⟩, renamingSource), (⟨"b.ts"⟩, renamedSource)] []) ⟨"main.ts"⟩
      = .ok renamingGraph :=
  load_ofTexts rfl rfl (by decide +kernel) rfl (by decide +kernel) rfl (by decide +kernel)

theorem renaming_checks : renamingGraph.check = .ok renamingTypes :=
  eq_ok_of_isSome TypeTable.empty (by decide +kernel)

/-- The other name stands for the variable, and is written to although it is that of a type. -/
theorem renamed_type_written :
    load (.ofFiles [(⟨"main.ts"⟩, renamingSource), (⟨"b.ts"⟩, renamedSource)] []) ⟨"main.ts"⟩
        = .ok renamingGraph ∧
      renamingGraph.check = .ok renamingTypes ∧
      ∃ name own, renamingGraph.WritesTo renamingGraph.entry name (.renamed own) := by
  refine ⟨renaming_loads, renaming_checks, ?_⟩
  have writes : renamingGraph.writesAny renamingGraph.entry Binding.isRenamed = true := by
    decide +kernel
  obtain ⟨name, binding, writes, is⟩ := exists_writesTo writes
  obtain ⟨own, rfl⟩ := Binding.eq_of_isRenamed is
  exact ⟨name, own, writes⟩

end ModuleGraph

end ScriptToGo
