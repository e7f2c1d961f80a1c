import ScriptToGo.Proofs.Emission.NeededImports
import ScriptToGo.Proofs.Emission.Supported
import ScriptToGo.Proofs.Emission.TemplateFormat
import ScriptToGo.Proofs.Grammar.NameTokens

/-! Which of the names that are written from a program are identifiers in Go. -/
namespace ScriptToGo

/-- The reserved words of Go. -/
def goKeywords : List String :=
  ["break", "case", "chan", "const", "continue", "default", "defer", "else", "fallthrough", "for",
   "func", "go", "goto", "if", "import", "interface", "map", "package", "range", "return", "select",
   "struct", "switch", "type", "var"]

/-- Those of them that the source language leaves free. -/
def freeGoKeywords : List String :=
  ["break", "case", "chan", "continue", "defer", "fallthrough", "func", "go", "goto", "map",
   "package", "range", "select", "struct", "switch"]

/-- A letter of Go, as far as ASCII has them. -/
def isGoLetter (c : Char) : Bool := ('a' ≤ c && c ≤ 'z') || ('A' ≤ c && c ≤ 'Z') || c == '_'

/-- A text has the shape of an identifier. -/
def GoSpelled (text : String) : Prop :=
  ∃ first rest, text.toList = first :: rest ∧ isGoLetter first = true ∧
    ∀ c ∈ rest, (isGoLetter c || Text.isDigit c) = true

structure IsGoIdentifier (text : String) : Prop where
  spelled : GoSpelled text
  unreserved : text ∉ goKeywords

/-- A text has the shape of an identifier of Go, and is one unless Go reserves it alone. -/
structure NearlyFitsGo (text : String) : Prop where
  spelled : GoSpelled text
  isIdentifier_iff : IsGoIdentifier text ↔ text ∉ freeGoKeywords

theorem freeGoKeywords_eq :
    freeGoKeywords = goKeywords.filter fun word => (Keyword.ofSpelling? word).isNone := by
  decide +kernel

theorem mem_freeGoKeywords {text : String} (free : Keyword.ofSpelling? text = none) :
    text ∈ freeGoKeywords ↔ text ∈ goKeywords := by
  rw [freeGoKeywords_eq, List.mem_filter, free]
  exact and_iff_left rfl

/-- Without a dollar sign, what starts a word starts one in Go. -/
theorem isGoLetter_of_isWordStart {c : Char} (start : isWordStart c = true) (plain : c ≠ '$') :
    isGoLetter c = true := by
  rw [isWordStart, Bool.or_eq_true, beq_iff_eq] at start
  exact start.resolve_right plain

/-- Only a dollar sign keeps an identifier from the shape of those of Go. -/
theorem TokenKind.IsSpeltRight.inGo {text : String} (spelt : (ident text).IsSpeltRight)
    (free : Keyword.ofSpelling? text = none) (plain : IsPlain text) : NearlyFitsGo text := by
  have spelled : GoSpelled text := by
    obtain ⟨first, rest, whole, start, parts⟩ := spelt
    rw [IsPlain, whole, List.mem_cons, not_or] at plain
    refine ⟨first, rest, whole, isGoLetter_of_isWordStart start (Ne.symm plain.1), fun c mem => ?_⟩
    rcases Bool.or_eq_true_iff.1 (parts c mem) with letter | digit
    · have other : c ≠ '$' := fun is => plain.2 (is ▸ mem)
      rw [isGoLetter_of_isWordStart letter other, Bool.true_or]
    · rw [digit, Bool.or_true]
  refine ⟨spelled, ?_⟩
  rw [mem_freeGoKeywords free]
  exact ⟨fun h => h.unreserved, fun unreserved => ⟨spelled, unreserved⟩⟩

/-- What is known of each identifier of a text. -/
theorem inGo_of_tokenize {source : String} {base : Nat} {tokens : List Token}
    (lexed : tokenize source base = .ok tokens) {name : Name}
    (mem : name.token ∈ allTokens tokens) (plain : IsPlain name.text) : NearlyFitsGo name.text := by
  have free := (lexical_of_tokenize lexed).1 _ mem
  obtain ⟨-, rfl⟩ := tokenize_eq_ok_iff.1 lexed
  exact (lexFrom_isSpeltRight base source.toList _ mem).inGo free plain

section

variable {v : View}

theorem View.plainName_plain (name : String) (span : Span) :
    Returns (fun text => text = name ∧ IsPlain name) (v.plainName name span) := by
  rw [plainName]
  split
  · exact returns_refuse
  next plain => exact ⟨rfl, fun dollar => plain (List.contains_iff_mem.2 dollar)⟩

/-- A text stands in what is put together from it and others. -/
theorem infix_of_eq {text whole : String} (front rest : String)
    (is : whole = front ++ (text ++ rest)) : text.toList <:+: whole.toList := by
  rw [is, String.toList_append, String.toList_append, ← List.append_assoc]
  exact List.infix_append _ _ _

theorem Param.holds_name (p : Param) :
    Returns (fun text => IsPlain p.name.text ∧ p.name.text.toList <:+: text.toList) (p.toGo v) := by
  rw [Param.toGo]
  refine (View.plainName_plain p.name.text p.name.span).bind ?_
  rintro _ ⟨rfl, plain⟩
  refine (Returns.self _).bind fun type _ => ⟨plain, infix_of_eq "" s!" {type}" ?_⟩
  simp only [String.append_assoc, String.empty_append]
  rfl

theorem Declarator.holds_name (d : Declarator) :
    Returns (fun code => IsPlain d.name.text ∧ d.name.text.toList <:+: code.text.toList)
      (d.toGo v) := by
  have opens {text : String} (rest : String) (is : text = d.name.text ++ rest) :
      d.name.text.toList <:+: text.toList :=
    infix_of_eq "" rest (is.trans String.empty_append.symm)
  rw [Declarator.toGo]
  refine (View.plainName_plain d.name.text d.name.span).bind ?_
  rintro _ ⟨rfl, plain⟩
  dsimp only
  split
  · split
    · refine (Returns.self _).bind fun type _ => (Returns.self _).bind fun value _ => ?_
      refine ⟨plain, opens (s!" {Target.shortDeclaration} {type}(" ++ (value.text ++ ")")) ?_⟩
      simp only [Snippet.text_append, Snippet.ofText, String.append_assoc]
      rfl
    · refine (Returns.self _).bind fun value _ => ?_
      refine ⟨plain, opens (s!" {Target.shortDeclaration} " ++ value.text) ?_⟩
      simp only [Snippet.text_append, Snippet.ofText, String.append_assoc]
      rfl
  · refine (Returns.self _).bind fun type _ => ⟨plain, infix_of_eq s!"{Target.var} " s!" {type}" ?_⟩
    simp only [Snippet.ofText, String.append_assoc]
    rfl

/-- The code of a node that has a name holds it, and the name is plain. -/
theorem Node.GoCode.holds_name {n : Node} {code : Snippet} (h : n.GoCode v code) {name : Name}
    (named : n.name? = some name) :
    IsPlain name.text ∧ name.text.toList <:+: code.text.toList := by
  cases h with
  | shorthand plain =>
    obtain rfl := Option.some.inj named
    refine ⟨((View.plainName_plain _ _).of_ok plain).2, ?_⟩
    exact ((Snippet.Within.refl ⟨_, _⟩).right _).text
  | @param p _ given =>
    obtain rfl := Option.some.inj named
    exact p.holds_name.of_ok given
  | @declarator d _ given =>
    obtain rfl := Option.some.inj named
    exact d.holds_name.of_ok given
  | @expression e _ given =>
    cases e with
    | ident span text =>
      obtain rfl := Option.some.inj named
      have written : Returns (fun code => IsPlain text ∧ text.toList <:+: code.text.toList)
          ((Expr.ident span text).toGo v) := by
        rw [Expr.toGo]
        refine (View.plainName_plain text span).bind ?_
        rintro _ ⟨rfl, plain⟩
        exact ⟨plain, List.infix_rfl⟩
      exact written.of_ok given
    | _ => cases named

theorem Node.isType_of_name? {n : Node} {name : Name} (named : n.name? = some name) :
    n.isType = false := by
  cases n with
  | writtenType => cases named
  | _ => rfl

/-- The line on which a function starts has its name, which is plain. -/
theorem Statement.starts_with_name (s : Statement) :
    Returns (fun code => ∀ name ∈ s.functionName?, IsPlain name.text ∧
      ∃ rest more, code.lines 0 = ⟨0, s!"func {name.text}(" ++ rest⟩ :: more)
      (s.toGoTopLevel v) := by
  match s with
  | .function _ head _ body =>
    rw [Statement.toGoTopLevel, FunctionHead.toGo]
    split
    next name named =>
      refine (View.plainName_plain name.text name.span).bind ?_
      rintro _ ⟨rfl, plain⟩
      split
      next returns declared =>
        refine (Returns.self _).bind fun params _ => (Returns.self _).bind fun result _ => ?_
        refine (Returns.self _).bind fun codes _ => ?_
        rintro other same
        obtain rfl : name = other := Option.some.inj (named.symm.trans same)
        generalize (if result = Target.void then "" else result ++ " ") = tail
        generalize ", ".intercalate params = list
        refine ⟨plain, s!"{list}) {tail}\x7b", Code.linesAll 1 codes ++ [⟨0, "\x7d"⟩], ?_⟩
        rw [Code.lines_block, bracedLines]
        simp only [Snippet.ofText, String.append_assoc]
        rfl
      · exact View.returns_refuse
    · exact View.returns_refuse
  | .overload _ head => exact head.refused_bodiless
  | .importing .. | .interface .. | .typeAlias .. | .empty .. | .block .. | .expression .. |
    .forLoop .. | .returning .. | .«variables» .. | .ifThen .. | .ifElse .. | .whileLoop .. |
    .doLoop .. => exact View.returns_refuse

end

namespace ModuleGraph

variable {s : Sources} {entry : Path} {g : ModuleGraph} {types : TypeTable}

/-- The names of what is written are identifiers of the text that it comes from. -/
theorem tokens_of_written (loaded : load s entry = .ok g) {w : Module × Statement}
    (among : w ∈ g.written) : ∃ tokens, tokenize w.1.source 0 = .ok tokens ∧
      (∀ name ∈ w.2.functionName?, name.token ∈ allTokens tokens) ∧
      ∀ n ∈ w.2.outerNodes.flatMap Node.all, ∀ name ∈ n.name?, name.token ∈ allTokens tokens := by
  have written := isWritten among
  obtain ⟨tokens, lexed, parsed⟩ :=
    Program.ofSource_eq_ok_iff.1 (isFrom_of_load loaded written.mem).program
  obtain ⟨functions, nodes⟩ := Program.name_mem lexed parsed
  exact ⟨tokens, lexed, functions w.2 written.statement,
    fun n mem => nodes n (Statement.nodes_subset written.statement mem)⟩

/-- A program is written with names that have the shape of identifiers in Go: that of each function
on the line on which it starts, and those of its parameters and variables in the code of the nodes
that have them. Such a name is an identifier of Go unless it is one of the words that Go reserves and
the source language does not. -/
theorem toGo_names (loaded : load s entry = .ok g) {options : Options} {code : String}
    (emitted : g.toGo types options = .ok code) :
    ∃ codes, codesOf types g.written = .ok codes ∧
      code = CodeLine.textOf options.indent (options.document codes) ∧
      List.Forall₂ (fun w c =>
        (∀ name ∈ w.2.functionName?, NearlyFitsGo name.text ∧
          ∃ rest more, c.lines 0 = ⟨0, s!"func {name.text}(" ++ rest⟩ :: more) ∧
        ∀ n ∈ w.2.outerNodes.flatMap Node.all, ∀ name ∈ n.name?, NearlyFitsGo name.text ∧
          ∃ inner, n.GoCode ⟨w.1, types⟩ inner ∧ name.text.toList <:+: inner.text.toList ∧
            ∃ l ∈ c.lines 0, inner.text.toList <:+: l.text.toList) g.written codes := by
  obtain ⟨codes, written, rfl⟩ := exists_codes_of_toGo emitted
  refine ⟨codes, written, options.layout_eq codes, (Returns.mapM_forall₂ fun w among => ?_).of_ok written⟩
  obtain ⟨tokens, lexed, functions, nodes⟩ := tokens_of_written loaded among
  refine (Returns.self _).mono fun c given => ⟨fun name named => ?_, fun n mem name named => ?_⟩
  · obtain ⟨plain, starts⟩ := w.2.starts_with_name.of_ok given name named
    exact ⟨inGo_of_tokenize lexed (functions name named) plain, starts⟩
  · have fill := w.2.fillsTopLevel.of_ok given
    obtain ⟨inner, coded, stands⟩ := fill.deep.1 n mem (Node.isType_of_name? named)
    obtain ⟨plain, holds⟩ := coded.holds_name named
    obtain ⟨l, line, here⟩ := stands 0
    rw [Code.linesAll_singleton] at line
    exact ⟨inGo_of_tokenize lexed (nodes n mem name named) plain, inner, coded, holds, l, line, here⟩

/-- A function and a variable with names that only Go reserves. -/
def rangeSource : String := "function range(): number \x7b let go = 1; return go; \x7d"

def rangeGraph : ModuleGraph := .ofFile ⟨"main.ts"⟩ rangeSource (programOf rangeSource)

def rangeTypes : TypeTable := rangeGraph.check.toOption.getD .empty

def rangeCode : String :=
  "package main\n\nimport (\n\t\"fmt\"\n\t\"ts2go/console\"\n)\n\n" ++
    "func range() int \x7b\n\tgo := int(1)\n\treturn go\n\x7d\n"

theorem range_loads :
    load (.ofFiles [(⟨"main.ts"⟩, rangeSource)] []) ⟨"main.ts"⟩ = .ok rangeGraph :=
  load_ofText rfl (by decide +kernel)

theorem range_checks : rangeGraph.check = .ok rangeTypes :=
  eq_ok_of_isSome TypeTable.empty (by decide +kernel)

theorem range_emits : rangeGraph.toGo rangeTypes .standard = .ok rangeCode :=
  toGo_eq_ok (by decide +kernel)

theorem range_written : ∃ w, rangeGraph.written = [w] ∧
    w.2.functionName?.map Name.text = some "range" ∧
    ∃ n ∈ w.2.outerNodes.flatMap Node.all, n.name?.map Name.text = some "go" := by
  have alone : rangeGraph.written.length = 1 := by
    rw [written, walk_eq]
    decide +kernel
  have named : ∀ w ∈ rangeGraph.written, w.2.functionName?.map Name.text = some "range" ∧
      ∃ n ∈ w.2.outerNodes.flatMap Node.all, n.name?.map Name.text = some "go" := by
    rw [written, walk_eq]
    decide +kernel
  obtain ⟨w, only⟩ := List.length_eq_one_iff.1 alone
  exact ⟨w, only, named w (only ▸ List.mem_singleton_self w)⟩

/-- Two words that Go reserves are written as names. -/
theorem range_names :
    load (.ofFiles [(⟨"main.ts"⟩, rangeSource)] []) ⟨"main.ts"⟩ = .ok rangeGraph ∧
      rangeGraph.check = .ok rangeTypes ∧
      rangeGraph.toGo rangeTypes .standard = .ok rangeCode ∧
      (∃ w, rangeGraph.written = [w] ∧ w.2.functionName?.map Name.text = some "range" ∧
        ∃ n ∈ w.2.outerNodes.flatMap Node.all, n.name?.map Name.text = some "go") ∧
      (GoSpelled "range" ∧ ¬IsGoIdentifier "range") ∧ GoSpelled "go" ∧ ¬IsGoIdentifier "go" := by
  obtain ⟨codes, -, -, each⟩ := toGo_names range_loads range_emits
  obtain ⟨w, only, function, n, inside, found⟩ := range_written
  rw [only] at each
  obtain ⟨c, _, ⟨functions, nodes⟩, -, -⟩ := List.forall₂_cons_left_iff.1 each
  obtain ⟨name, named, text⟩ := Option.map_eq_some_iff.1 function
  obtain ⟨name', named', text'⟩ := Option.map_eq_some_iff.1 found
  obtain ⟨⟨spelled, free⟩, -⟩ := functions name named
  obtain ⟨⟨spelled', free'⟩, -⟩ := nodes n inside name' named'
  rw [text] at spelled free
  rw [text'] at spelled' free'
  refine ⟨range_loads, range_checks, range_emits, range_written, ⟨spelled, fun is => ?_⟩, spelled',
    fun is => ?_⟩
  · exact free.1 is (by decide)
  · exact free'.1 is (by decide)

end ModuleGraph

end ScriptToGo
