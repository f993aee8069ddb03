import Frontend.Main
import Frontend.Proofs.ExprReading
import Frontend.Proofs.Segments
import Frontend.Proofs.TypeArguments
import Frontend.Proofs.Bisimulation
import Frontend.Proofs.Cursor
import Frontend.Proofs.NodeGrammar
import Frontend.Proofs.NodeCompleteness
import Frontend.Proofs.NodeSoundness
import Frontend.Proofs.ProgramReading
import Frontend.Proofs.Edits
import Frontend.Proofs.Entering
import Frontend.Proofs.Growth
import Frontend.Proofs.Lookups
import Frontend.Proofs.WellTyped
import Frontend.Proofs.WrittenForm
import Frontend.Proofs.WellShaped
import Frontend.Proofs.AcceptedForms
import Frontend.Proofs.Structure
import Frontend.Proofs.TypeSoundness
import Frontend.Proofs.Accessors
import Frontend.Proofs.Scanning
import Frontend.Proofs.TokenValues
import Frontend.Proofs.AlikeTokens
import Frontend.Proofs.ExprTail
import Frontend.Proofs.Setting
import Frontend.Proofs.Parts
import Frontend.Proofs.ExprContexts
import Frontend.Proofs.Concatenation
import Frontend.Proofs.PrintedTrees
import Frontend.Proofs.ScopeRules
import Frontend.Proofs.PrintedMeanings
import Frontend.Proofs.LaterDeclarations
import Frontend.Proofs.DeclaredEntries
import Frontend.Proofs.SourceTiling
import Frontend.Proofs.Comparison
import Frontend.Proofs.RecordedTypes
import Frontend.Proofs.EnumValues
import Frontend.Proofs.ExprRefusals
import Frontend.Proofs.NodeRefusals
import Frontend.Proofs.Separation
import Frontend.Proofs.LeavingSegments
import Frontend.Proofs.Recovery
import Frontend.Proofs.CompactRanges
import Frontend.Proofs.TokenTexts
import Frontend.Proofs.Continuations
import Frontend.Proofs.TokenEnds
import Frontend.Proofs.FirstFaults
import Frontend.Proofs.ExprVerdicts
import Frontend.Proofs.MetExpressions
import Frontend.Proofs.Parentheses
import Frontend.Proofs.Implementations
import Frontend.Proofs.EndOfInput
import Frontend.Proofs.ListingLengths
import Frontend.Proofs.ClosedStrings
import Frontend.Proofs.RememberedPosition
