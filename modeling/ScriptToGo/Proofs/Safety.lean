import ScriptToGo.Compile
import ScriptToGo.Proofs.Check.Traversal
import ScriptToGo.Proofs.Emission.Layout
import ScriptToGo.Proofs.Emission.Refusals
import ScriptToGo.Proofs.Grammar.Program
import ScriptToGo.Proofs.Module.Preorder
import ScriptToGo.Proofs.Text.Position

/-! Nothing that is relied on while a program is compiled can fail. -/
namespace ScriptToGo
open Text (IsBoundary byteLength)

/-- A list of tokens can be parsed without asking for a token that it does not have. Each place
that parsing gets to lies in the list, which has a token to read there. -/
structure SafeToParse (tokens : List Token) : Prop where
  opens : ∃ start, Cursor.ofTokens? tokens = some start ∧ start.In tokens
  peek : ∀ c : Cursor, c.In tokens → c.peek ∈ tokens
  statement : ∀ c : Cursor, c.In tokens →
    (Grammar.statement c).StaysIn tokens fun s => StartIn tokens s.spans
  recover : ∀ c : Cursor, c.In tokens → (Grammar.recover c).In tokens

/-- A source text can be cut into tokens and parsed without cutting through a character. -/
structure SafeToRead (source : String) : Prop where
  /-- Looking ahead from where a lexeme is read stops between two characters. -/
  lookahead : ∀ pos done left, LexesAt source pos (done ++ left) →
    IsBoundary source (pos + byteLength done)
  tokens : ∀ tokens, tokenize source 0 = .ok tokens → SafeToParse tokens ∧
    ∀ token ∈ allTokens tokens, IsBoundary source token.span.start ∧
      IsBoundary source token.span.stop ∧
      ∀ head holes, token.kind = .template head holes → ∀ hole ∈ holes, SafeToParse hole.tokens
  /-- What the text says has a line and a column wherever it starts. -/
  spans : ∀ program, Program.ofSource source = .ok program →
    ∀ span ∈ Statement.allSpans program, ∃ position,
      Text.position? source span.start = some position

/-- Every number that stands for a module belongs to one, and checking closes the scopes that it
opens. -/
structure ModuleGraph.SafeToCheck (g : ModuleGraph) : Prop where
  modules : ∀ m ∈ g.modules, g.module? m.id = some m
  names : ∀ steps id, g.names.lookup steps = some id → ∃ m, g.module? id = some m
  imports : ∀ importer specifier m, g.resolveImport importer specifier = some m →
    g.module? m.id = some m
  scopes : ((Check.checkModules g).run .initial).2.symbols.currentId = 0

theorem safeToParse {tokens : List Token} (closed : endsInEof tokens = true) :
    SafeToParse tokens where
  opens := by
    obtain ⟨start, opened⟩ := Cursor.exists_ofTokens? closed
    exact ⟨start, opened, Cursor.in_ofTokens? opened⟩
  peek c inside := inside.rest.subset c.peek_mem
  statement _ inside := Grammar.statement_staysIn inside
  recover _ inside := Grammar.recover_in inside

/-- What a text says starts between two characters. -/
theorem isBoundary_of_ofSource {source : String} {program : Program}
    (parsed : Program.ofSource source = .ok program) {span : Span}
    (mem : span ∈ Statement.allSpans program) : IsBoundary source span.start := by
  obtain ⟨tokens, tokenized, read⟩ := Program.ofSource_eq_ok_iff.1 parsed
  obtain ⟨token, inside, same⟩ := Program.starts_ofTokens read span mem
  have starts := ((isFrom_of_tokenize tokenized).2 token inside).isBoundary.1
  rwa [same] at starts

theorem safeToRead (source : String) : SafeToRead source where
  lookahead _ _ _ here := here.isBoundary
  tokens tokens h := by
    obtain ⟨closed, all⟩ := isFrom_of_tokenize h
    refine ⟨safeToParse closed, fun token mem => ?_⟩
    obtain ⟨starts, stops⟩ := (all token mem).isBoundary
    exact ⟨starts, stops, fun head holes kind hole inside =>
      safeToParse ((all token mem).closed head holes kind hole inside)⟩
  spans _ parsed _ mem := Text.exists_position (isBoundary_of_ofSource parsed mem)

namespace ModuleGraph

variable {s : Sources} {entry : Path} {g : ModuleGraph}

theorem safeToCheck (h : load s entry = .ok g) : g.SafeToCheck where
  modules _ mem := module?_of_load h mem
  names _ _ found := ⟨_, List.getElem?_eq_getElem (names_of_load h found)⟩
  imports _ _ _ found := module?_of_load h (mem_of_resolveImport found)
  scopes := currentId_checkModules g

/-- A refusal at a part of what a module says has a place in the file of the module. -/
theorem refuse_ne_misused (h : load s entry = .ok g) {m : Module} (hm : m ∈ g.modules)
    {types : TypeTable} {span : Span} (mem : span ∈ Statement.allSpans m.program)
    (cause : RefusalCause) (misuse : Misuse) {α : Type} :
    View.refuse ⟨m, types⟩ span cause ≠ (.error (.misused misuse) : Except Failure α) := by
  obtain ⟨position, found⟩ :=
    (safeToRead m.source).spans m.program (isFrom_of_load h hm).program span mem
  rw [View.refuse, View.location, found]
  intro same
  cases same

theorem toGo_ne_misused (h : load s entry = .ok g) (types : TypeTable) (options : Options)
    (misuse : Misuse) : g.toGo types options ≠ .error (.misused misuse) := by
  intro misused
  obtain ⟨w, written, failed⟩ := exists_of_toGo_error misused
  obtain ⟨part, mem, cause, _, refused⟩ := Statement.refusedPart ⟨w.1, types⟩ failed
  have inside : part.span ∈ Statement.allSpans w.1.program :=
    Statement.spans_subset written.statement (w.2.parts_sublist.subset (List.mem_map_of_mem mem))
  exact refuse_ne_misused h written.mem inside cause misuse refused

end ModuleGraph

open ModuleGraph

/-- A program is not compiled because of what one of the three steps makes of it. -/
inductive CompileFailure.ComesFrom (s : Sources) (entry : Path) (options : Options) :
    CompileFailure → Prop
  | load {failure : LoadFailure} (failed : ModuleGraph.load s entry = .error failure) :
      ComesFrom s entry options (.load failure)
  | check {g : ModuleGraph} {errors : List TypeError} (loaded : ModuleGraph.load s entry = .ok g)
      (failed : g.check = .error errors) : ComesFrom s entry options (.check g errors)
  | write {g : ModuleGraph} {types : TypeTable} {failure : Failure}
      (loaded : ModuleGraph.load s entry = .ok g) (failed : g.toGo types options = .error failure) :
      ComesFrom s entry options (.write g failure)

theorem CompileFailure.comesFrom {s : Sources} {entry : Path} {options : Options}
    {failure : CompileFailure} (failed : compile s entry options = .error failure) :
    failure.ComesFrom s entry options := by
  rw [compile, checkProgram] at failed
  cases loaded : ModuleGraph.load s entry with
  | error reason =>
    rw [loaded] at failed
    cases failed
    exact .load loaded
  | ok g =>
    rw [loaded] at failed
    dsimp only at failed
    cases checked : g.check with
    | error errors =>
      rw [checked] at failed
      cases failed
      exact .check loaded checked
    | ok types =>
      rw [checked] at failed
      dsimp only [bind, Except.bind] at failed
      split at failed
      next reason written =>
        cases failed
        exact .write loaded written
      · cases failed

theorem compile_ne_misused (s : Sources) (entry : Path) (options : Options) (program : ModuleGraph)
    (misuse : Misuse) : compile s entry options ≠ .error (.write program (.misused misuse)) := by
  intro misused
  cases CompileFailure.comesFrom misused with
  | write loaded stopped => exact toGo_ne_misused loaded _ options misuse stopped

/-- Nothing that compiling relies on can fail, whatever the sources. Every text can be cut into
tokens and parsed; every name that is found has a symbol and every array an element; operators,
punctuation, keywords and primitive types are all listed with their spellings; and once a program is
loaded, its modules are found, its scopes are closed and its output is not misused, be the types those
that checking gives or any others. -/
theorem compile_safe (s : Sources) (entry : Path) :
    (∀ source, SafeToRead source) ∧
      (∀ (symbols : SymbolTable) name id, symbols.lookup name = some id →
        ∃ symbol, symbols.symbol? id = some symbol) ∧
      (∀ type : Ty, type.isArrayLike = true → ∃ element, type.element? = some element ∧
        type.goName = do return Target.slice ++ (← element.goName)) ∧
      ((∀ op, op ∈ Operator.all) ∧ (∀ mark, mark ∈ Punctuation.all) ∧
        (∀ word, word ∈ Keyword.all) ∧ ∀ primitive, primitive ∈ Primitive.all) ∧
      (∀ g, load s entry = .ok g → g.SafeToCheck ∧
        ∀ types options misuse, g.toGo types options ≠ .error (.misused misuse)) ∧
      ∀ options g misuse, compile s entry options ≠ .error (.write g (.misused misuse)) := by
  refine ⟨safeToRead, ?_, Ty.goName_of_isArrayLike, ⟨?_, ?_, ?_, ?_⟩, ?_, ?_⟩
  · intro symbols name id found
    exact SymbolTable.exists_symbol found
  · intro op
    cases op <;> decide
  · intro mark
    cases mark <;> decide
  · intro word
    cases word <;> decide
  · intro primitive
    cases primitive <;> decide
  · intro g loaded
    exact ⟨safeToCheck loaded, toGo_ne_misused loaded⟩
  · intro options g misuse
    exact compile_ne_misused s entry options g misuse

/-- Four files, the last of which imports the entry, are loaded, and then written without misuse. -/
theorem diamond_compile_safe :
    load diamond ⟨"main.ts"⟩ = .ok diamondGraph ∧ diamondGraph.SafeToCheck ∧
      ∀ types options misuse, diamondGraph.toGo types options ≠ .error (.misused misuse) := by
  obtain ⟨_, _, _, _, safe, _⟩ := compile_safe diamond ⟨"main.ts"⟩
  exact ⟨diamond_loads, safe diamondGraph diamond_loads⟩

end ScriptToGo
