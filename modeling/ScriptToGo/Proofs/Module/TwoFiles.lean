import ScriptToGo.Proofs.Module.Preorder

/-! Programs that are in one file, or in an entry file and another one that it imports. -/
namespace ScriptToGo.ModuleGraph
open Discovery

/-- The graph of a file that imports nothing. -/
def ofFile (path : Path) (text : String) (program : Program) : ModuleGraph where
  modules := [⟨0, path, text, program, []⟩]
  names := [(path.steps, 0)]
  ne_nil := List.cons_ne_nil _ _

variable {s : Sources} {entry : Path} {text : String} {program : Program}

/-- A file that imports nothing is all that is loaded. -/
theorem load_ofFile (readable : s.read (s.canonical entry) = .ok text)
    (parsed : Program.ofSource text = .ok program) (alone : program.imports = []) :
    load s entry = .ok (ofFile (s.canonical entry) text program) := by
  let file : Module := ⟨0, s.canonical entry, text, program, []⟩
  have nowhere : file.targets = [] := List.map_eq_nil_iff.2 alone
  have isFrom : file.IsFrom s := ⟨readable, parsed, (congrArg (List.map _) nowhere).symm⟩
  have inner : Follows s file.targets (nothing.register file) (nothing.register file) := by
    rw [nowhere]
    exact .done _
  exact load_eq_ok_iff.2 ⟨_, _, .fresh rfl rfl rfl isFrom inner, rfl, rfl⟩

/-- The program that a text holds, or else an empty one. -/
def programOf (text : String) : Program := (Program.ofSource text).toOption.getD []

/-- A text of which the imports are known holds a program. -/
theorem ofSource_programOf {text : String} {specifiers : List String}
    (h : (Program.ofSource text).toOption.map (·.imports.map (·.specifier.text)) = some specifiers) :
    Program.ofSource text = .ok (programOf text) ∧
      (programOf text).imports.map (·.specifier.text) = specifiers := by
  obtain ⟨program, parsed, rfl⟩ := Option.map_eq_some_iff.1 h
  have is : programOf text = program := by rw [programOf, parsed, Option.getD_some]
  refine ⟨eq_ok_of_isSome [] (Option.isSome_of_eq_some parsed), ?_⟩
  rw [is]

/-- A text that imports nothing is all that is loaded. -/
theorem load_ofText (readable : s.read (s.canonical entry) = .ok text)
    (alone : (Program.ofSource text).toOption.map (·.imports.map (·.specifier.text)) = some []) :
    load s entry = .ok (ofFile (s.canonical entry) text (programOf text)) := by
  obtain ⟨parsed, imports⟩ := ofSource_programOf alone
  exact load_ofFile readable parsed (List.map_eq_nil_iff.1 imports)

/-- The graph of a file that imports another one by some path. -/
def ofPair (path : Path) (text : String) (program : Program) (named other : Path) (text' : String)
    (program' : Program) : ModuleGraph where
  modules := [⟨0, path, text, program, [other]⟩, ⟨1, other, text', program', []⟩]
  names := [(other.steps, 1), (path.steps, 0), (named.steps, 1)]
  ne_nil := List.cons_ne_nil _ _

variable {path other : Path} {text' specifier : String} {program' : Program}

/-- The two files are all that is loaded, the entry first. -/
theorem load_ofPair (canonical : s.canonical entry = path) (readable : s.read path = .ok text)
    (parsed : Program.ofSource text = .ok program)
    (imports : program.imports.map (·.specifier.text) = [specifier])
    (leads : s.canonical (path.resolve specifier) = other) (differ : other.steps ≠ path.steps)
    (readable' : s.read other = .ok text') (parsed' : Program.ofSource text' = .ok program')
    (alone : program'.imports = []) :
    load s entry = .ok (ofPair path text program (path.resolve specifier) other text' program') := by
  let first : Module := ⟨0, path, text, program, [other]⟩
  let second : Module := ⟨1, other, text', program', []⟩
  have targets : first.targets = [path.resolve specifier] := by
    have mapped := congrArg (List.map path.resolve) imports
    rwa [List.map_map] at mapped
  have nowhere : second.targets = [] := List.map_eq_nil_iff.2 alone
  have isFrom : first.IsFrom s := ⟨readable, parsed, by rw [targets, List.map_singleton, leads]⟩
  have isFrom' : second.IsFrom s := ⟨readable', parsed', (congrArg (List.map _) nowhere).symm⟩
  have unknown : (nothing.register first).names.lookup other.steps = none := by
    rw [register, List.lookup_cons, beq_false_of_ne differ]
    rfl
  let both := (nothing.register first).register second
  have inner : Follows s second.targets both both := by
    rw [nowhere]
    exact .done _
  have follows : Follows s first.targets (nothing.register first)
      (both.addName (path.resolve specifier) 1 (Nat.lt_succ_self 1)) := by
    rw [targets]
    exact .fresh (m := second) unknown rfl leads.symm isFrom' inner (Nat.lt_succ_self 1) (.done _)
  exact load_eq_ok_iff.2 ⟨_, _, .fresh (m := first) rfl rfl canonical.symm isFrom follows, rfl, rfl⟩

/-- The graph of a text that imports another one, which imports nothing. -/
def ofTexts (path : Path) (text specifier : String) (other : Path) (text' : String) : ModuleGraph :=
  ofPair path text (programOf text) (path.resolve specifier) other text' (programOf text')

theorem load_ofTexts (canonical : s.canonical entry = path) (readable : s.read path = .ok text)
    (imports : (Program.ofSource text).toOption.map (·.imports.map (·.specifier.text))
      = some [specifier])
    (leads : s.canonical (path.resolve specifier) = other) (differ : other.steps ≠ path.steps)
    (readable' : s.read other = .ok text')
    (alone : (Program.ofSource text').toOption.map (·.imports.map (·.specifier.text)) = some []) :
    load s entry = .ok (ofTexts path text specifier other text') := by
  obtain ⟨parsed, imports⟩ := ofSource_programOf imports
  obtain ⟨parsed', alone⟩ := ofSource_programOf alone
  exact load_ofPair canonical readable parsed imports leads differ readable' parsed'
    (List.map_eq_nil_iff.1 alone)

end ScriptToGo.ModuleGraph
