import ScriptToGo.Proofs.Emission.FunctionCode

/-! A pruned list of imports holds just those that some part of the program needs. -/
namespace ScriptToGo

namespace Node

variable {v : View} {n : Node}

/-- A node puts values into a text: it is a template, or an operation whose right side becomes a
string because its left side is one. -/
def CallsSprintf (v : View) : Node → Prop
  | expression (.template ..) => True
  | expression (.binary _ left _ _ right) =>
    v.isString left.span = true ∧ v.isString right.span = false
  | _ => False

/-- A node is the name `console`, as an expression or as a property, and means the global value. -/
def NamesConsole (v : View) (n : Node) : Prop :=
  ∃ span args, v.typeAt span = some (.reference "Console" args) ∧
    (n = .expression (.ident span "console") ∨ n = .shorthand ⟨"console", span⟩)

/-- What a node needs by itself: a module, and why. -/
def NeedsFor (v : View) (n : Node) (path : String) : Prop :=
  path = "fmt" ∧ n.CallsSprintf v ∨ path = "ts2go/console" ∧ n.NamesConsole v

theorem mem_importsOfName {name path : String} {span : Span} :
    path ∈ v.importsOfName name span ↔ path = "ts2go/console" ∧ name = "console" ∧
      ∃ args, v.typeAt span = some (.reference "Console" args) := by
  by_cases named : name = "console"
  · subst named
    have found : Builtin.global? "console" = some Builtin.console := rfl
    rw [View.importsOfName, found]
    cases v.typeAt span with
    | none => simp
    | some type =>
      cases type with
      | reference typeName args =>
        by_cases is : typeName = "Console"
        · simp [is, Builtin.console]
        · simp [is, Builtin.console]
      | _ => simp
  · have unknown : Builtin.global? name = none := by
      simp [Builtin.global?, Builtin.globals, Builtin.console, Ne.symm named]
    simp [View.importsOfName, unknown, named]

theorem namesConsole_ident {span : Span} {name : String} :
    (expression (.ident span name)).NamesConsole v ↔
      name = "console" ∧ ∃ args, v.typeAt span = some (.reference "Console" args) := by
  constructor
  · rintro ⟨_, args, typed, is | is⟩
    · cases is
      exact ⟨rfl, args, typed⟩
    · cases is
  · rintro ⟨rfl, args, typed⟩
    exact ⟨span, args, typed, .inl rfl⟩

theorem namesConsole_shorthand {name : Name} :
    (shorthand name).NamesConsole v ↔
      name.text = "console" ∧ ∃ args, v.typeAt name.span = some (.reference "Console" args) := by
  constructor
  · rintro ⟨_, args, typed, is | is⟩
    · cases is
    · cases is
      exact ⟨rfl, args, typed⟩
  · obtain ⟨text, span⟩ := name
    rintro ⟨rfl, args, typed⟩
    exact ⟨span, args, typed, .inr rfl⟩

/-- What the code of a node needs besides that of the nodes inside of it. -/
theorem mem_needs {path : String} : path ∈ n.needs v ↔ n.NeedsFor v path := by
  rw [NeedsFor]
  cases n with
  | writtenType | param | declarator => simp [needs, CallsSprintf, NamesConsole]
  | shorthand name =>
    rw [needs, mem_importsOfName, namesConsole_shorthand]
    simp [CallsSprintf]
  | expression e =>
    cases e with
    | ident span name =>
      rw [needs, mem_importsOfName, namesConsole_ident]
      simp [CallsSprintf]
    | template => simp [needs, CallsSprintf, NamesConsole, Target.fmtModule]
    | binary => simp [needs, CallsSprintf, NamesConsole, Target.fmtModule, and_comm]
    | _ => simp [needs, CallsSprintf, NamesConsole]

theorem GoCode.calls {code : Snippet} (h : n.GoCode v code) (calls : n.CallsSprintf v) :
    "fmt.Sprintf(".toList <:+: code.text.toList := by
  have opens (format : String) (items : List Snippet) :
      "fmt.Sprintf(".toList <:+: (Snippet.sprintf format items).text.toList :=
    (((Snippet.Within.refl ⟨"fmt.Sprintf(", [Target.fmtModule]⟩).left _).left _).text
  cases h with
  | param | declarator | shorthand => cases calls
  | @expression e _ given =>
    cases e with
    | template span head holes =>
      have written : Returns (fun code => "fmt.Sprintf(".toList <:+: code.text.toList)
          ((Expr.template span head holes).toGo v) := by
        rw [Expr.toGo]
        exact (Returns.self _).bind fun items _ => opens _ items
      exact written.of_ok given
    | binary span left op opSpan right =>
      have written : Returns (fun code => "fmt.Sprintf(".toList <:+: code.text.toList)
          ((Expr.binary span left op opSpan right).toGo v) := by
        rw [Expr.toGo]
        split
        · refine (Returns.self _).bind fun first _ => (Returns.self _).bind fun second _ => ?_
          have wrapped : (v.isString left.span && !v.isString right.span) = true := by
            simp [calls.1, calls.2]
          rw [if_pos wrapped]
          have within := (Snippet.Within.refl (.sprintf Target.verb [second])).right
            (first ++ s!" {op.spelling} ")
          exact (opens _ _).trans within.text
        · exact View.returns_refuse_bind
      exact written.of_ok given
    | _ => cases calls

theorem GoCode.says_console {code : Snippet} (h : n.GoCode v code) (names : n.NamesConsole v) :
    "console".toList <:+: code.text.toList := by
  obtain ⟨span, args, typed, rfl | rfl⟩ := names
  · cases h with
    | expression given =>
      have written : Returns (fun code => "console".toList <:+: code.text.toList)
          ((Expr.ident span "console").toGo v) := by
        rw [Expr.toGo]
        refine (View.plainName_self "console").bind ?_
        rintro _ rfl
        exact List.infix_rfl
      exact written.of_ok given
  · cases h with
    | shorthand =>
      exact ((Snippet.Within.refl ⟨"console", v.importsOfName "console" span⟩).right _).text

end Node

/-- A text uses a module: it calls `Sprintf`, or it says `console`. -/
def UsedIn (path text : String) : Prop :=
  path = "fmt" ∧ "fmt.Sprintf(".toList <:+: text.toList ∨
    path = "ts2go/console" ∧ "console".toList <:+: text.toList

/-- A written type needs no module. -/
theorem Node.NeedsFor.isType_eq_false {v : View} {n : Node} {path : String}
    (h : n.NeedsFor v path) : n.isType = false := by
  cases n with
  | writtenType =>
    rw [← Node.mem_needs] at h
    cases h
  | _ => rfl

/-- The code of a node that needs a module uses it. -/
theorem Node.NeedsFor.used {v : View} {n : Node} {path : String} (h : n.NeedsFor v path)
    {code : Snippet} (given : n.GoCode v code) : UsedIn path code.text := by
  rcases h with ⟨is, calls⟩ | ⟨is, names⟩
  · exact .inl ⟨is, given.calls calls⟩
  · exact .inr ⟨is, given.says_console names⟩

theorem UsedIn.mono {path text whole : String} (h : UsedIn path text)
    (within : text.toList <:+: whole.toList) : UsedIn path whole := by
  rcases h with ⟨is, here⟩ | ⟨is, here⟩
  · exact .inl ⟨is, here.trans within⟩
  · exact .inr ⟨is, here.trans within⟩

namespace ModuleGraph

/-- Some part of what is written of a program needs a module. -/
def Needs (g : ModuleGraph) (types : TypeTable) (path : String) : Prop :=
  ∃ w ∈ g.written, ∃ n ∈ w.2.outerNodes.flatMap Node.all, n.NeedsFor ⟨w.1, types⟩ path

theorem fills_of_codesOf {types : TypeTable} {statements : List (Module × Statement)}
    {codes : List Code} (h : codesOf types statements = .ok codes) :
    List.Forall₂ (fun w c => Fill ⟨w.1, types⟩ w.2.outerNodes [c]) statements codes :=
  (Returns.mapM_forall₂ fun w _ => w.2.fillsTopLevel).of_ok h

/-- What the code of statements needs is what the nodes inside of them need by themselves. -/
theorem mem_imports_iff {types : TypeTable} {statements : List (Module × Statement)}
    {codes : List Code} (h : List.Forall₂ (fun w c => Fill ⟨w.1, types⟩ w.2.outerNodes [c]) statements codes)
    {path : String} : path ∈ codes.flatMap Code.imports ↔
      ∃ w ∈ statements, ∃ n ∈ w.2.outerNodes.flatMap Node.all, n.NeedsFor ⟨w.1, types⟩ path := by
  induction h with
  | nil => simp
  | @cons w code rest codes fill _ ih =>
    have first := fill.deep.2 path
    rw [Code.importsAll_singleton] at first
    simp only [Node.mem_needs] at first
    rw [List.flatMap_cons, List.mem_append, first, ih]
    simp only [List.mem_cons, exists_eq_or_imp]

/-- The code of each node stands in a line of the function that it is in. -/
theorem exists_line_of_fills {types : TypeTable} {statements : List (Module × Statement)}
    {codes : List Code}
    (h : List.Forall₂ (fun w c => Fill ⟨w.1, types⟩ w.2.outerNodes [c]) statements codes)
    {w : Module × Statement} (among : w ∈ statements) {n : Node}
    (inside : n ∈ w.2.outerNodes.flatMap Node.all) (value : n.isType = false) :
    ∃ inner, n.GoCode ⟨w.1, types⟩ inner ∧
      ∃ lines ∈ codes.map (Code.lines 0), ∃ l ∈ lines, inner.text.toList <:+: l.text.toList := by
  induction h with
  | nil => cases among
  | @cons first code rest codes fill _ ih =>
    rcases List.mem_cons.1 among with rfl | among
    · obtain ⟨inner, given, stands⟩ := fill.deep.1 n inside value
      obtain ⟨l, line, here⟩ := stands 0
      rw [Code.linesAll_singleton] at line
      exact ⟨inner, given, code.lines 0, List.mem_cons_self, l, line, here⟩
    · obtain ⟨inner, given, lines, mem, l, line, here⟩ := ih among
      exact ⟨inner, given, lines, List.mem_cons_of_mem _ mem, l, line, here⟩

/-- When imports are pruned, those that stand in the code are the configured ones that some node
needs, in the order in which they are configured. Each of them is used in a line of the code. The code
of every node stands in a line, and where it calls `Sprintf` the module for that is listed, unless it
is not configured. -/
theorem toGo_pruned {g : ModuleGraph} {types : TypeTable} {options : Options} {code : String}
    (prune : options.prune = true) (emitted : g.toGo types options = .ok code) :
    ∃ (needed : String → Bool) (functions : List (List CodeLine)),
      (∀ path, needed path = true ↔ g.Needs types path) ∧
      List.Forall₂ (fun w lines => w.2.PrintsFunction ⟨w.1, types⟩ lines) g.written functions ∧
      code = CodeLine.textOf options.indent ([⟨0, s!"package {options.package}"⟩, .blank]
        ++ importLines (options.imports.filter needed) ++ [CodeLine.blank].intercalate functions) ∧
      (∀ path ∈ options.imports.filter needed, ∃ lines ∈ functions, ∃ l ∈ lines,
        UsedIn path l.text) ∧
      ∀ w ∈ g.written, ∀ n ∈ w.2.outerNodes.flatMap Node.all, n.isType = false →
        ∃ inner, n.GoCode ⟨w.1, types⟩ inner ∧
          (∃ lines ∈ functions, ∃ l ∈ lines, inner.text.toList <:+: l.text.toList) ∧
          (n.CallsSprintf ⟨w.1, types⟩ → "fmt.Sprintf(".toList <:+: inner.text.toList ∧
            ("fmt" ∈ options.imports → "fmt" ∈ options.imports.filter needed)) := by
  obtain ⟨codes, written, rfl⟩ := exists_codes_of_toGo emitted
  have fills := fills_of_codesOf written
  have needs (path : String) : (codes.flatMap Code.imports).contains path = true ↔
      g.Needs types path := List.contains_iff_mem.trans (mem_imports_iff fills)
  refine ⟨(codes.flatMap Code.imports).contains, codes.map (Code.lines 0), needs, ?_, ?_, ?_, ?_⟩
  · exact List.forall₂_map_right_iff.2 (printsFunctions_of_codesOf written)
  · rw [options.layout_eq, Options.document, Options.importsFor, prune]
    rfl
  · intro path listed
    obtain ⟨w, among, n, inside, needed⟩ := (needs path).1 (List.mem_filter.1 listed).2
    obtain ⟨inner, given, lines, function, l, line, here⟩ :=
      exists_line_of_fills fills among inside needed.isType_eq_false
    exact ⟨lines, function, l, line, (needed.used given).mono here⟩
  · intro w among n inside value
    obtain ⟨inner, given, stands⟩ := exists_line_of_fills fills among inside value
    refine ⟨inner, given, stands, fun calls => ⟨given.calls calls, fun configured => ?_⟩⟩
    exact List.mem_filter.2 ⟨configured, (needs "fmt").2 ⟨w, among, n, inside, .inl ⟨rfl, calls⟩⟩⟩

/-- A file that names the console and puts nothing into a text. -/
def loggingSource : String := "function f(): number \x7b console; \x60a\x60; return 1; \x7d"

def loggingGraph : ModuleGraph := .ofFile ⟨"main.ts"⟩ loggingSource (programOf loggingSource)

def loggingTypes : TypeTable := loggingGraph.check.toOption.getD .empty

/-- Three modules, of which one is not needed. -/
def loggingOptions : Options := ⟨"main", ["os", "ts2go/console", "fmt"], "\t", true⟩

def loggingCode : String :=
  "package main\n\nimport (\n\t\"ts2go/console\"\n\t\"fmt\"\n)\n\n" ++
    "func f() int \x7b\n\tconsole\n\tfmt.Sprintf(\"a\")\n\treturn 1\n\x7d\n"

theorem logging_loads :
    load (.ofFiles [(⟨"main.ts"⟩, loggingSource)] []) ⟨"main.ts"⟩ = .ok loggingGraph :=
  load_ofText rfl (by decide +kernel)

theorem logging_checks : loggingGraph.check = .ok loggingTypes :=
  eq_ok_of_isSome TypeTable.empty (by decide +kernel)

theorem logging_emits : loggingGraph.toGo loggingTypes loggingOptions = .ok loggingCode :=
  toGo_eq_ok (by decide +kernel)

/-- Two of three modules are listed. -/
theorem logging_pruned :
    load (.ofFiles [(⟨"main.ts"⟩, loggingSource)] []) ⟨"main.ts"⟩ = .ok loggingGraph ∧
      loggingGraph.check = .ok loggingTypes ∧ loggingOptions.prune = true ∧
      loggingGraph.toGo loggingTypes loggingOptions = .ok loggingCode ∧
      ∃ (needed : String → Bool) (functions : List (List CodeLine)),
        (∀ path, needed path = true ↔ loggingGraph.Needs loggingTypes path) ∧
        loggingCode = CodeLine.textOf "\t" ([⟨0, "package main"⟩, .blank]
          ++ importLines (loggingOptions.imports.filter needed)
          ++ [CodeLine.blank].intercalate functions) := by
  obtain ⟨needed, functions, needs, _, document, _⟩ := toGo_pruned rfl logging_emits
  exact ⟨logging_loads, logging_checks, rfl, logging_emits, needed, functions, needs, document⟩

end ModuleGraph

end ScriptToGo
