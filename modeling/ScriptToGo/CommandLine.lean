import ScriptToGo.CommandLine.Arguments
import ScriptToGo.Output.Options

/-! What the user asks for on the command line. -/
namespace ScriptToGo

/-- The commands that write Go code. -/
inductive Command
  | build (file : String) (outputDir? : Option String) (options : Options)
  | emit (file : String) (options : Options)

/-- Everything that the command line asks for. -/
structure CommandLine where
  command? : Option Command
  file? : Option String
  lex? : Option String
  parse? : Option String
  check? : Option String

namespace CommandLine

/-- What may stand in front of a command, or without one. -/
def topLevel : ArgumentList where
  flags := ["lex", "parse", "check"].map fun name => ⟨name, some .path⟩
  places := ["file"]
  commands := ["build", "emit", "help"]
  hasVersion := true

def optionFlags : List Flag :=
  [⟨"package", some .text⟩, ⟨"indent-width", some .number⟩, ⟨"prune-imports", none⟩]

def buildArguments : ArgumentList := ⟨optionFlags, ["file", "output"], [], false⟩

/-- The arguments of the command to print code. -/
def emitArguments : ArgumentList := ⟨optionFlags, ["file"], [], false⟩

def optionsOf (given : Given) : Options :=
  let o := { Options.standard with prune := (given.lookup "prune-imports").isSome }
  let o := match given.lookup "package" with
    | some package => { o with package }
    | none => o
  match (given.lookup "indent-width").bind readNumber? with
  | some width => o.withIndentWidth width
  | none => o

/-- Reads the arguments of a command that needs a file. -/
def readCommand (list : ArgumentList) (words : List String) :
    Except UsageError (String × Given) := do
  let (s, _) ← (ArgumentState.start list).readAll list words
  let s ← s.settle
  match s.given.lookup "file" with
  | some file => return (file, s.given)
  | none => throw .missingArgument

/-- Reads a command and its arguments. The command for help takes the name of a command. -/
def readNamed (name : String) (words : List String) : Except UsageError Command := do
  match name with
  | "build" =>
    let (file, given) ← readCommand buildArguments words
    return .build file (given.lookup "output") (optionsOf given)
  | "emit" =>
    let (file, given) ← readCommand emitArguments words
    return .emit file (optionsOf given)
  | _ =>
    match words with
    | [] => throw .help
    | [command] => throw (if topLevel.commands.contains command then .help else .unknownCommand)
    | _ => throw .unknownCommand

/-- Reads the words behind the name of the program. A file without a command excludes the flags
that name one. -/
def parse (words : List String) : Except UsageError CommandLine := do
  let (s, command) ← (ArgumentState.start topLevel).readAll topLevel words
  let command? ← command.mapM fun (name, words) => readNamed name words
  let given := (← s.settle).given
  let file? := given.lookup "file"
  let flags := ["lex", "parse", "check"].filter fun name => (given.lookup name).isSome
  if file?.isSome && !flags.isEmpty then throw .conflict
  return ⟨command?, file?, given.lookup "lex", given.lookup "parse", given.lookup "check"⟩

end CommandLine

end ScriptToGo
