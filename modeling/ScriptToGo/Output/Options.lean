import ScriptToGo.Output.TextTree
import ScriptToGo.Vocabulary.Target

/-! What the user may choose about generated code. -/
namespace ScriptToGo

/-- Choices about generated code. -/
structure Options where
  package : String
  /-- The modules that the code may import, in order. -/
  imports : List String
  /-- What is written once for each level of depth. -/
  indent : String
  /-- Whether to leave out imports that the code does not need. -/
  prune : Bool
deriving DecidableEq

namespace Options

/-- What is chosen if the user chooses nothing. -/
def standard : Options := ⟨Target.defaultPackage, Target.defaultImports, TextTree.tab, false⟩

def withIndentWidth (width : Nat) (o : Options) : Options :=
  { o with indent := String.ofList (List.replicate width ' ') }

/-- The imports to write when the code needs the given ones. -/
def importsFor (o : Options) (needed : List String) : List String :=
  o.imports.filter fun path => !o.prune || needed.contains path

end Options

end ScriptToGo
