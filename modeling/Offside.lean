import Offside.Compile
import Offside.CommandLine
import Offside.Tree.Equality
import Offside.Tree.Reference
import Offside.Main
import Offside.Proofs.ExpressionGrammar
import Offside.Proofs.BlockStructure
import Offside.Proofs.TypeSoundness
import Offside.Proofs.NameResolution
import Offside.Proofs.LexemeReading
import Offside.Proofs.Scanning
import Offside.Proofs.SourceSpans
import Offside.Proofs.LineComposition
import Offside.Proofs.Reprinting
import Offside.Proofs.FrameGrowth
import Offside.Proofs.StatementFrames
import Offside.Proofs.BlockFrames
import Offside.Proofs.BlockDepth
import Offside.Proofs.DeclaredTypes
import Offside.Proofs.FrameBalance
import Offside.Proofs.Indentation
import Offside.Proofs.Likeness
import Offside.Proofs.Variation
import Offside.Proofs.ExpressionVariation
import Offside.Proofs.LineVariation
import Offside.Proofs.TopLevelComma
import Offside.Proofs.BlockVariation
import Offside.Proofs.FirstFault
import Offside.Proofs.LineEnds
import Offside.Proofs.CarriageReturns
import Offside.Proofs.FaultPlaces
import Offside.Proofs.WriteTargets
import Offside.Proofs.LiteralValues
import Offside.Proofs.Relocation
import Offside.Proofs.ExpressionTokens
import Offside.Proofs.Lookahead
import Offside.Proofs.TreePlaces
import Offside.Proofs.References
import Offside.Proofs.Unrolling
import Offside.Proofs.Coupling
import Offside.Proofs.CoupledRuns
import Offside.Proofs.ReachedStates
import Offside.Proofs.Totality
import Offside.Proofs.TextLines
import Offside.Proofs.ReportedPlaces
import Offside.Proofs.TokenRows
import Offside.Proofs.TextPieces
import Offside.Proofs.ScanFaults
import Offside.Proofs.LineStarts
import Offside.Proofs.BlankLines
import Offside.Proofs.LineLevels
import Offside.Proofs.ConstantValues
import Offside.Proofs.WrittenLiterals
import Offside.Proofs.ReachedPlaces
import Offside.Proofs.MaximalMunch
import Offside.Proofs.Comments
import Offside.Proofs.ConstantFailures
import Offside.Proofs.WholeNumbers
import Offside.Proofs.DeeperBlocks
import Offside.Proofs.ScopeStack
import Offside.Proofs.ExpressionFrame
import Offside.Proofs.Excerpts
import Offside.Proofs.MachineRuns
import Offside.Proofs.DumpLayout
import Offside.Proofs.ExpressionStacks
import Offside.Proofs.ByteOffsets
