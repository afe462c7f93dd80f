import MiniC.Machine.Interpreter
import MiniC.Grammar.TranslationUnit
import MiniC.Console.Terminal
import MiniC.Command.Basic
import MiniC.Main
import MiniC.Proofs.DefiniteBinding
import MiniC.Proofs.GlobalInitialisation
import MiniC.Proofs.Limits
import MiniC.Proofs.LocalIsolation
import MiniC.Proofs.NameResolution
import MiniC.Proofs.ProgramStructure
import MiniC.Proofs.RedundantParentheses
import MiniC.Proofs.StoreSeparation
import MiniC.Proofs.Strictness
import MiniC.Proofs.Transparency
import MiniC.Proofs.Contract
import MiniC.Proofs.OperationContract
import MiniC.Proofs.Termination
import MiniC.Proofs.BoundValues
import MiniC.Proofs.Conversions
import MiniC.Proofs.ArrayIds
import MiniC.Proofs.TokenCoverage
import MiniC.Proofs.Locations
import MiniC.Proofs.ConsoleAgreement
import MiniC.Proofs.RoundTrip
import MiniC.Proofs.Precedence
import MiniC.Proofs.CallDepth
import MiniC.Proofs.WatchedRuns
import MiniC.Proofs.LayoutAndNames
import MiniC.Proofs.FailedOperations
import MiniC.Proofs.ReportedConstructs
import MiniC.Proofs.AssignedTargets
import MiniC.Proofs.ElementAccesses
import MiniC.Proofs.PointerArithmetic
import MiniC.Proofs.HeapHistory
import MiniC.Proofs.ArrayHistory
import MiniC.Proofs.FailingPlaces
import MiniC.Proofs.CompleteTypes
import MiniC.Proofs.WhileForm
import MiniC.Proofs.SharedFunctions
import MiniC.Proofs.IntegerOperators
import MiniC.Proofs.SpacedTokens
import MiniC.Proofs.ParserProgress
