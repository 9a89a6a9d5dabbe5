import CurriedLambda.Main
import CurriedLambda.Report.Loading
import CurriedLambda.Report.Schema
import CurriedLambda.Proofs.Grammar
import CurriedLambda.Proofs.Reading
import CurriedLambda.Proofs.LegalMoves
import CurriedLambda.Proofs.Completion
import CurriedLambda.Proofs.Programs
import CurriedLambda.Proofs.Acceptance
import CurriedLambda.Proofs.FirstFault
import CurriedLambda.Proofs.Lexemes
import CurriedLambda.Proofs.LexerStates
import CurriedLambda.Proofs.Lexing
import CurriedLambda.Proofs.BracketMatching
import CurriedLambda.Proofs.JsonText
import CurriedLambda.Proofs.ReportRoundTrip
import CurriedLambda.Proofs.Anchors
import CurriedLambda.Proofs.OpenBrackets
import CurriedLambda.Proofs.BodyEnds
import CurriedLambda.Proofs.SkippedBrackets
import CurriedLambda.Proofs.Deletion
import CurriedLambda.Proofs.Concatenation
import CurriedLambda.Proofs.Layout
import CurriedLambda.Proofs.ReportOrder
import CurriedLambda.Proofs.Renaming
import CurriedLambda.Proofs.CommandRuns
import CurriedLambda.Proofs.SchemaConformance
import CurriedLambda.Proofs.FileEffects
import CurriedLambda.Proofs.LexedConcatenation
import CurriedLambda.Proofs.NameResolution
import CurriedLambda.Proofs.Recovery
import CurriedLambda.Proofs.LineStarts
import CurriedLambda.Proofs.StaleRanges
import CurriedLambda.Proofs.StrayBrackets
import CurriedLambda.Proofs.Descent
import CurriedLambda.Proofs.DescentReading
import CurriedLambda.Proofs.ProblemCount
import CurriedLambda.Proofs.ArgumentOrder
import CurriedLambda.Proofs.AddedOptions
import CurriedLambda.Proofs.TokenTable
import CurriedLambda.Proofs.SwallowedTokens
import CurriedLambda.Proofs.DiagnosticBlocks
import CurriedLambda.Proofs.Lookahead
import CurriedLambda.Proofs.Restarting
