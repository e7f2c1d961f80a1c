import ScriptToGo.Main
import ScriptToGo.Proofs.Module.NameIndex
import ScriptToGo.Proofs.Module.AnyProvider
import ScriptToGo.Proofs.Module.ResolvedPath
import ScriptToGo.Proofs.Module.Preorder
import ScriptToGo.Proofs.Emission.Layout
import ScriptToGo.Proofs.Module.ImportChains
import ScriptToGo.Proofs.Emission.Inlining
import ScriptToGo.Proofs.Program.Spans
import ScriptToGo.Proofs.Emission.Refusals
import ScriptToGo.Proofs.Check.Steps
import ScriptToGo.Proofs.Check.Traversal
import ScriptToGo.Proofs.ImportResolution
import ScriptToGo.Proofs.Text.Position
import ScriptToGo.Proofs.Token.Ascii
import ScriptToGo.Proofs.Token.Places
import ScriptToGo.Proofs.Grammar.Places
import ScriptToGo.Proofs.Grammar.Expr
import ScriptToGo.Proofs.Grammar.Program
import ScriptToGo.Proofs.Safety
import ScriptToGo.Proofs.Text.Literal
import ScriptToGo.Proofs.Text.Format
import ScriptToGo.Proofs.Token.Steps
import ScriptToGo.Proofs.Token.LiteralSteps
import ScriptToGo.Proofs.Token.Shift
import ScriptToGo.Proofs.Token.EscapeForms
import ScriptToGo.Proofs.Token.LiteralValue
import ScriptToGo.Proofs.Token.Tiling
import ScriptToGo.Proofs.Token.Symbols
import ScriptToGo.Proofs.Token.Coverage
import ScriptToGo.Proofs.Token.Locality
import ScriptToGo.Proofs.Token.LiteralTokens
import ScriptToGo.Proofs.Emission.FormatParts
import ScriptToGo.Proofs.Emission.TemplateFormat
import ScriptToGo.Proofs.Grammar.Passage
import ScriptToGo.Proofs.Grammar.WrittenTypes
import ScriptToGo.Proofs.Token.Lexical
import ScriptToGo.Proofs.Grammar.WrittenExprs
import ScriptToGo.Proofs.Grammar.Strength
import ScriptToGo.Proofs.Program.Nodes
import ScriptToGo.Proofs.Grammar.NodeTokens
import ScriptToGo.Proofs.Grammar.WrittenProgram
import ScriptToGo.Proofs.Token.Spacing
import ScriptToGo.Proofs.Grammar.NodePlaces
import ScriptToGo.Proofs.Grammar.NodeSpans
import ScriptToGo.Proofs.Grammar.Rules
import ScriptToGo.Proofs.Grammar.Completeness
import ScriptToGo.Proofs.Program.Bare
import ScriptToGo.Proofs.Grammar.ReadBack
import ScriptToGo.Proofs.Emission.Lines
import ScriptToGo.Proofs.Text.Lines
import ScriptToGo.Proofs.Token.Alphabet
import ScriptToGo.Proofs.Program.Texts
import ScriptToGo.Proofs.Grammar.ProgramTexts
import ScriptToGo.Proofs.Types.Proper
import ScriptToGo.Proofs.Check.Sound
import ScriptToGo.Proofs.Check.Yields
import ScriptToGo.Proofs.Check.Declared
import ScriptToGo.Proofs.Check.Inferred
import ScriptToGo.Proofs.Types.GoNames
import ScriptToGo.Proofs.Emission.InLine
import ScriptToGo.Proofs.Emission.Printing
import ScriptToGo.Proofs.Module.TwoFiles
import ScriptToGo.Proofs.Emission.Document
import ScriptToGo.Proofs.Check.Recorded
import ScriptToGo.Proofs.Emission.Supported
import ScriptToGo.Proofs.Emission.Emitted
import ScriptToGo.Proofs.Check.AliasNames
import ScriptToGo.Proofs.Check.Unknown
import ScriptToGo.Proofs.Token.Numerals
import ScriptToGo.Proofs.Token.Rereading
import ScriptToGo.Proofs.Emission.Pieces
import ScriptToGo.Proofs.Emission.Boundaries
import ScriptToGo.Proofs.Emission.PieceTokens
import ScriptToGo.Proofs.Emission.Reparsing
import ScriptToGo.Proofs.Emission.OptionLines
import ScriptToGo.Proofs.Types.NormalSpelling
import ScriptToGo.Proofs.Output.Slots
import ScriptToGo.Proofs.Output.Growth
import ScriptToGo.Proofs.Output.FillOrder
import ScriptToGo.Proofs.Check.Renumbering
import ScriptToGo.Proofs.Program.Signatures
import ScriptToGo.Proofs.Check.Parallel
import ScriptToGo.Proofs.Check.Collected
import ScriptToGo.Proofs.Check.Independence
import ScriptToGo.Proofs.Token.HoleEnd
import ScriptToGo.Proofs.Token.TemplateAround
import ScriptToGo.Proofs.Check.Meaning
import ScriptToGo.Proofs.Check.SymbolNames
import ScriptToGo.Proofs.Check.AliasSearch
import ScriptToGo.Proofs.Check.Gathered
import ScriptToGo.Proofs.Check.CircularAliases
import ScriptToGo.Proofs.Check.Outlook
import ScriptToGo.Proofs.Check.Visible
import ScriptToGo.Proofs.Check.Followed
import ScriptToGo.Proofs.Check.Noted
import ScriptToGo.Proofs.Check.WrittenTargets
import ScriptToGo.Proofs.Check.FunctionNames
import ScriptToGo.Proofs.Check.ErrorOrder
import ScriptToGo.Proofs.Check.ScopeStack
import ScriptToGo.Proofs.Program.Shift
import ScriptToGo.Proofs.Grammar.Continuation
import ScriptToGo.Proofs.Grammar.ContinuedExprs
import ScriptToGo.Proofs.Grammar.ContinuedProgram
import ScriptToGo.Proofs.Grammar.StatementBoundary
import ScriptToGo.Proofs.Emission.RefusalPlaces
import ScriptToGo.Proofs.Emission.NodeCode
import ScriptToGo.Proofs.Emission.FunctionCode
import ScriptToGo.Proofs.Emission.NeededImports
import ScriptToGo.Proofs.Grammar.NameTokens
import ScriptToGo.Proofs.Emission.WrittenNames
import ScriptToGo.Proofs.Emission.ObjectCode
import ScriptToGo.Proofs.Types.Parts
import ScriptToGo.Proofs.Types.Transparency
import ScriptToGo.Proofs.Types.Widening
import ScriptToGo.Proofs.Types.NameKinds
import ScriptToGo.Proofs.Types.Shape
import ScriptToGo.Proofs.Program.Renaming
import ScriptToGo.Proofs.Check.ImportedNames
import ScriptToGo.Proofs.Check.Reruns
import ScriptToGo.Proofs.Check.RenamedExprs
import ScriptToGo.Proofs.Check.RenamedStatements
import ScriptToGo.Proofs.Check.Unmoved
import ScriptToGo.Proofs.Check.Untouched
import ScriptToGo.Proofs.Check.LocalNames
import ScriptToGo.Proofs.Types.TypeGrammar
import ScriptToGo.Proofs.Types.WrappedSpelling
import ScriptToGo.Proofs.Module.PathJoin
import ScriptToGo.Proofs.Module.FirstFailure
import ScriptToGo.Proofs.Grammar.ErrorPlaces
import ScriptToGo.Proofs.Output.StackHistory
import ScriptToGo.Proofs.Output.SessionHistory
import ScriptToGo.Proofs.Output.Placement
import ScriptToGo.Proofs.Token.Cutting
import ScriptToGo.Proofs.Grammar.PrintedTypes
import ScriptToGo.Proofs.Grammar.TypesReadBack
import ScriptToGo.Proofs.Types.ShapesRead
import ScriptToGo.Proofs.Token.NumeralForms
import ScriptToGo.Proofs.Token.NumeralTexts
