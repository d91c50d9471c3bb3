import IndicatorCompiler.CommandLine.Directory
import IndicatorCompiler.Main
import IndicatorCompiler.Proofs.CleanRuns
import IndicatorCompiler.Proofs.CompleteDeclarations
import IndicatorCompiler.Proofs.Destructurings
import IndicatorCompiler.Proofs.EqualityFree
import IndicatorCompiler.Proofs.Fallbacks
import IndicatorCompiler.Proofs.Hygiene
import IndicatorCompiler.Proofs.IdPaths
import IndicatorCompiler.Proofs.IfChains
import IndicatorCompiler.Proofs.Indentation
import IndicatorCompiler.Proofs.LiftedScopes
import IndicatorCompiler.Proofs.LineEndings
import IndicatorCompiler.Proofs.LoweredRanges
import IndicatorCompiler.Proofs.LoweredSwitches
import IndicatorCompiler.Proofs.NormalWalks
import IndicatorCompiler.Proofs.OperatorGrouping
import IndicatorCompiler.Proofs.Progress
import IndicatorCompiler.Proofs.ScopeRuns
import IndicatorCompiler.Proofs.Sessions
import IndicatorCompiler.Proofs.SilentLines
import IndicatorCompiler.Proofs.SlotMeaning
import IndicatorCompiler.Proofs.TokenSpans
import IndicatorCompiler.Proofs.UnitSlots
