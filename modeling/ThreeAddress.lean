import ThreeAddress.Main
import ThreeAddress.Proofs.CommandLines
import ThreeAddress.Proofs.CompilationStages
import ThreeAddress.Proofs.Decomposition
import ThreeAddress.Proofs.GeneratorSessions
import ThreeAddress.Proofs.Grammar
import ThreeAddress.Proofs.Layout
import ThreeAddress.Proofs.Lexemes
import ThreeAddress.Proofs.LexicalLanguage
import ThreeAddress.Proofs.Literals
import ThreeAddress.Proofs.LoweringCorrectness
import ThreeAddress.Proofs.Outcomes
import ThreeAddress.Proofs.ParserErrors
import ThreeAddress.Proofs.ParserGrammar
import ThreeAddress.Proofs.ParserMachine
import ThreeAddress.Proofs.ParserSessions
import ThreeAddress.Proofs.PipelineCorrectness
import ThreeAddress.Proofs.PrintingRoundTrip
import ThreeAddress.Proofs.Renaming
import ThreeAddress.Proofs.RunEffects
import ThreeAddress.Proofs.Scanning
import ThreeAddress.Proofs.SourceGrammar
import ThreeAddress.Proofs.SourcePositions
import ThreeAddress.Proofs.SourceSpans
import ThreeAddress.Proofs.TreeMeaning
import ThreeAddress.Proofs.ListingPaths
import ThreeAddress.Proofs.Expansion
import ThreeAddress.Proofs.SourceKept
import ThreeAddress.Proofs.StageViews
import ThreeAddress.Proofs.ReadableListings
import ThreeAddress.Proofs.ConstantFolding
import ThreeAddress.Proofs.OperatorPrecedence
import ThreeAddress.Proofs.LazyScanning
import ThreeAddress.Proofs.Conservation
import ThreeAddress.Proofs.BoundedListings
import ThreeAddress.Proofs.JoinedSources
import ThreeAddress.Proofs.DefinedTemporaries
import ThreeAddress.Proofs.NameIndependence
import ThreeAddress.Proofs.InstructionOrder
import ThreeAddress.Proofs.TokenListings
