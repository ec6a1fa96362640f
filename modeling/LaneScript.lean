import LaneScript.Import.FileTree
import LaneScript.Main
import LaneScript.Proofs.TreeLines
import LaneScript.Tree.Same
import LaneScript.Proofs.Lexemes
import LaneScript.Proofs.Spelling
import LaneScript.Proofs.Fragment
import LaneScript.Proofs.FragmentTokens
import LaneScript.Proofs.ReaderRuns
import LaneScript.Proofs.ReadOperations
import LaneScript.Proofs.ReadSequences
import LaneScript.Proofs.ReadPrimaries
import LaneScript.Proofs.ReadFragment
import LaneScript.Proofs.RoundTrip
import LaneScript.Proofs.CapitalCalls
import LaneScript.Proofs.PathNormal
import LaneScript.Proofs.LoaderRuns
import LaneScript.Proofs.Confinement
import LaneScript.Proofs.ImportGraph
import LaneScript.Proofs.StringBodies
import LaneScript.Proofs.WrittenTokens
import LaneScript.Proofs.WellFormedActions
import LaneScript.Proofs.DocumentSchema
import LaneScript.Proofs.TextExtents
import LaneScript.Proofs.TextReading
import LaneScript.Proofs.Positions
import LaneScript.Proofs.PositionLexemes
import LaneScript.Proofs.PositionLexer
import LaneScript.Proofs.WriterOrders
import LaneScript.Proofs.FrontEndSafety
import LaneScript.Proofs.FlatDocument
import LaneScript.Proofs.LexerRounds
import LaneScript.Proofs.TokenWeights
import LaneScript.Proofs.TokenLines
import LaneScript.Proofs.ReadersInStep
import LaneScript.Proofs.RulesInStep
import LaneScript.Proofs.FrontEndProgress
import LaneScript.Proofs.LineIndependence
import LaneScript.Proofs.LineLocality
import LaneScript.Proofs.LineComposition
import LaneScript.Proofs.OperatorLevels
import LaneScript.Proofs.VariableScopes
import LaneScript.Proofs.ScopedRules
import LaneScript.Proofs.ForkedRuns
import LaneScript.Proofs.BarrenTokens
import LaneScript.Proofs.ForkedConstructs
import LaneScript.Proofs.ForkedRules
import LaneScript.Proofs.AppendedLines
import LaneScript.Proofs.BlockForms
import LaneScript.Proofs.WellFormedTokens
import LaneScript.Proofs.TokenPlaces
import LaneScript.Proofs.LiteralNesting
import LaneScript.Proofs.StateDiscipline
import LaneScript.Proofs.ReaderDiscipline
import LaneScript.Proofs.DisciplinedConstructs
import LaneScript.Proofs.DisciplinedRules
import LaneScript.Proofs.ReaderOperations
import LaneScript.Proofs.NestingLimit
import LaneScript.Proofs.Numerals
import LaneScript.Proofs.WrittenStrings
import LaneScript.Proofs.HeredocQueue
import LaneScript.Proofs.IntegerLiterals
import LaneScript.Proofs.ImportRequests
import LaneScript.Proofs.InterpolationEnd
import LaneScript.Proofs.StoredScripts
import LaneScript.Proofs.KeywordArguments
import LaneScript.Proofs.AdjacentStrings
import LaneScript.Proofs.StringLiterals
import LaneScript.Proofs.SharedIndentation
