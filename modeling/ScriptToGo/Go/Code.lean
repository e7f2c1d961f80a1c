import ScriptToGo.Output.TextTree
import ScriptToGo.Vocabulary.Target

/-! Go code: pieces of a line, and lines in nested blocks. -/
namespace ScriptToGo

/-- A piece of Go code on one line, and the modules that it needs. -/
structure Snippet where
  text : String
  /-- The modules that it needs, as often as it needs them. -/
  imports : List String

namespace Snippet

def ofText (text : String) : Snippet := ⟨text, []⟩

instance : Coe String Snippet := ⟨ofText⟩

instance : Append Snippet := ⟨fun a b => ⟨a.text ++ b.text, a.imports ++ b.imports⟩⟩

def commaSeparated : List Snippet → Snippet
  | [] => ofText ""
  | [s] => s
  | s :: rest => s ++ ofText ", " ++ commaSeparated rest

def sprintf (format : String) (args : List Snippet) : Snippet :=
  ⟨s!"{Target.sprintf}(", [Target.fmtModule]⟩
    ++ commaSeparated (ofText s!"\"{format}\"" :: args) ++ ofText ")"

end Snippet

/-- Go code on lines of its own. -/
inductive Code
  | line (content : Snippet)
  /-- Code inside of braces, the first of them behind the head. -/
  | block (head : Snippet) (body : List Code)

namespace Code

mutual

def imports : Code → List String
  | line content => content.imports
  | block head body => head.imports ++ importsAll body

def importsAll : List Code → List String
  | [] => []
  | c :: rest => c.imports ++ importsAll rest

end

mutual

/-- Writes code at the end of a text. What stands inside of braces is one level deeper. -/
def write : Code → TextTree → TextTree
  | line content, t => (t.append content.text).newLine
  | block head body, t =>
    let opened := ((t.append head.text).appendLine "\x7b").indent
    ((writeAll body opened).unindent.append "\x7d").newLine

/-- Writes pieces of code, one after the other. -/
def writeAll : List Code → TextTree → TextTree
  | [], t => t
  | c :: rest, t => writeAll rest (c.write t)

end

end Code

end ScriptToGo
