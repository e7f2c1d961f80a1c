import ScriptToGo.CommandLine
import ScriptToGo.Compile

/-! The program as it runs: it reads and writes files, and talks to the user. -/
namespace ScriptToGo.Main

/-- Files read from the disk, and links among them. -/
structure Disk where
  files : List (Path × String)
  links : List (Path × Path)

/-- The largest number of files in one program. -/
def maxFiles : Nat := 100000

def realPath (path : String) : IO String := do
  match ← (IO.FS.realPath path).toBaseIO with
  | .ok real => return real.toString
  | .error _ => return path

/-- The text of a file, or the reason why there is none. -/
def readText (path : String) : IO (Except String String) := do
  match ← (IO.FS.readFile path).toBaseIO with
  | .ok text => return .ok text
  | .error e => return .error (toString e)

/-- Reads the files of a program, one after the other, as its modules ask for them. -/
def readProgram (entry : Path) : Nat → Disk → IO (Except LoadFailure Sources)
  | 0, disk => return .ok (.ofFiles disk.files disk.links)
  | more + 1, disk => do
    let sources := Sources.ofFiles disk.files disk.links
    match ModuleGraph.load sources entry with
    | .error (.unreadable path _) =>
      let real ← realPath path.text
      if Path.steps ⟨real⟩ ≠ path.steps ∧ disk.links.all (·.1.steps ≠ path.steps) then
        readProgram entry more { disk with links := (path, ⟨real⟩) :: disk.links }
      else
        match ← readText path.text with
        | .ok text => readProgram entry more { disk with files := (path, text) :: disk.files }
        | .error reason => return .error (.unreadable path reason)
    | _ => return .ok sources

/-- The text of an excerpt: the place that it shows, the message and what may help. -/
def showExcerpt (e : Diagnostic.Excerpt) : String :=
  let place := match Text.position? e.source e.offset with
    | some p => s!"{e.file}:{p.line}:{p.column}"
    | none => e.file
  match e.help with
  | some help => s!"{place}: {e.message}\n  help: {help}"
  | none => s!"{place}: {e.message}"

def showReport : Report → String
  | .excerpt shown => showExcerpt shown
  | .line text => text

/-- The text of a failure, one line or more for each error. -/
def showFailure (failure : CompileFailure) : String :=
  "\n".intercalate (failure.reports.map showReport)

def failWith (message : String) : IO UInt32 := do
  IO.eprintln message
  return 1

/-- Works on a program that is read from the disk. -/
def withProgram {α : Type} (file : String) (work : Sources → Path → Except CompileFailure α)
    (next : α → IO UInt32) : IO UInt32 := do
  let entry : Path := ⟨← realPath file⟩
  match ← readProgram entry maxFiles ⟨[], []⟩ with
  | .error failure => failWith (showFailure (.load failure))
  | .ok sources =>
    match work sources entry with
    | .error failure => failWith (showFailure failure)
    | .ok a => next a

def withText (file : String) (work : String → IO UInt32) : IO UInt32 := do
  match ← readText file with
  | .error reason => failWith s!"Cannot read file '{file}': {reason}"
  | .ok text => work text

def check (file : String) : IO UInt32 :=
  withProgram file checkProgram fun program => do
    IO.println s!"✓ Type check passed! ({program.graph.modules.length} module(s))"
    return 0

def emit (file : String) (options : Options) : IO UInt32 :=
  withProgram file (compile · · options) fun code => do
    IO.print code
    return 0

/-- The directory for generated code, unless told otherwise. -/
def defaultOutput : String := "ts2go_output"

/-- Writes the Go code of a program to a file. -/
def build (file : String) (output : String) (options : Options) : IO UInt32 :=
  withProgram file (compile · · options) fun code => do
    let out := output ++ "/" ++ Target.outputFile
    match ← (IO.FS.createDirAll output).toBaseIO with
    | .error e => failWith s!"Cannot create output directory '{output}': {e}"
    | .ok _ =>
      match ← (IO.FS.writeFile out code).toBaseIO with
      | .error e => failWith s!"Cannot write '{out}': {e}"
      | .ok _ =>
        IO.println s!"✓ Generated {out}"
        return 0

/-- Prints the tokens of a file, one on each line. -/
def lex (file : String) : IO UInt32 :=
  withText file fun text => do
    match tokenize text 0 with
    | .error errors => failWith (showFailure (.load (.malformed ⟨file⟩ text errors)))
    | .ok tokens =>
      for t in tokens do
        IO.println s!"{t.span.start}..{t.span.stop} {t.kind.describe}"
      return 0

/-- Prints the statements of a file, one on each line. -/
def parse (file : String) : IO UInt32 :=
  withText file fun text => do
    match Program.ofSource text with
    | .error errors => failWith (showFailure (.load (.malformed ⟨file⟩ text errors)))
    | .ok program =>
      for s in program do
        IO.println s!"{s.span.start}..{s.span.stop} {s.kindName}"
      return 0

def usage : String :=
  "Generate Go source from a TypeScript subset\n\n" ++
  "Usage: ts2go [OPTIONS] [FILE] [COMMAND]\n\n" ++
  "Commands:\n" ++
  "  build <FILE> [OUTPUT_DIR]  Generate Go and write it to <OUTPUT_DIR>/main.go\n" ++
  "  emit <FILE>                Generate Go and print it to stdout\n" ++
  "  help                       Print this message\n\n" ++
  "Options:\n" ++
  "      --lex <FILE>           Tokenize only (debug)\n" ++
  "      --parse <FILE>         Parse only (debug)\n" ++
  "      --check <FILE>         Type check only (debug)\n" ++
  "      --package <NAME>       Name of the generated package (build, emit)\n" ++
  "      --indent-width <N>     Indent with N spaces instead of tabs (build, emit)\n" ++
  "      --prune-imports        Only import runtime modules the generated code uses (build, emit)\n" ++
  "  -h, --help                 Print help\n" ++
  "  -V, --version              Print version"

def versionText : String := "ts2go 0.1.0-alpha.1"

/-- The text for arguments that are not accepted. -/
def usageMessage : UsageError → String
  | .unknownArgument => "error: unexpected argument"
  | .missingArgument => "error: a required argument was not provided"
  | .emptyValue => "error: a value is required but none was supplied"
  | .surplusValue => "error: unexpected value for an argument that takes none"
  | .notNumber => "error: invalid number"
  | .conflict => "error: arguments cannot be used together or more than once"
  | .unknownCommand => "error: unrecognized subcommand"
  | .help => usage
  | .version => versionText

/-- Does what the command line asks for. The flags that look at a single file go first. -/
def run (c : CommandLine) : IO UInt32 :=
  match c.lex?, c.parse?, c.check?, c.command?, c.file? with
  | some file, _, _, _, _ => lex file
  | none, some file, _, _, _ => parse file
  | none, none, some file, _, _ => check file
  | none, none, none, some (.build file output? options), _ =>
    build file (output?.getD defaultOutput) options
  | none, none, none, some (.emit file options), _ => emit file options
  | none, none, none, none, some file => check file
  | none, none, none, none, none =>
    failWith "Error: expected a subcommand or a file to check (see --help)"

/-- Reads the command line and does what it asks for. -/
def start (args : List String) : IO UInt32 := do
  match CommandLine.parse args with
  | .ok line => run line
  | .error e =>
    if e = .help ∨ e = .version then
      IO.println (usageMessage e)
      return 0
    else
      IO.eprintln (usageMessage e ++ "\n\nFor more information, try '--help'.")
      return 2

end ScriptToGo.Main

def main (args : List String) : IO UInt32 := ScriptToGo.Main.start args
