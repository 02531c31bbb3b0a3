import ProseWrap.Lint.Rule
import ProseWrap.Session
import ProseWrap.Proofs.Groups
import ProseWrap.Proofs.Leaves
import ProseWrap.Proofs.Partition
import ProseWrap.Proofs.Deletion
import ProseWrap.Proofs.Markers
import ProseWrap.Proofs.Fragments
import ProseWrap.Proofs.Tokens
import ProseWrap.Proofs.Content
import ProseWrap.Proofs.Lookahead
import ProseWrap.Proofs.Rereading
import ProseWrap.Proofs.Structure
import ProseWrap.Proofs.Weight
import ProseWrap.Proofs.Stability
import ProseWrap.Proofs.PackedLines
import ProseWrap.Proofs.Pairing
import ProseWrap.Proofs.Nesting
import ProseWrap.Proofs.Floors
import ProseWrap.Proofs.LineEnds
import ProseWrap.Proofs.HardBreaks
import ProseWrap.Proofs.Newlines
import ProseWrap.Proofs.Mending
import ProseWrap.Proofs.InPlace
import ProseWrap.Proofs.Fitting
import ProseWrap.Proofs.Strictness
import ProseWrap.Proofs.Sessions
import ProseWrap.Proofs.LineWidths
import ProseWrap.Proofs.LineBreaks
import ProseWrap.Proofs.FixedConfigs
import ProseWrap.Proofs.FewestLines
import ProseWrap.Proofs.SpanEdges
import ProseWrap.Proofs.SentenceEnds
import ProseWrap.Proofs.Sentences
import ProseWrap.Proofs.TokenCuts
import ProseWrap.Proofs.MarkerRuns
import ProseWrap.Proofs.Continuation
import ProseWrap.Proofs.SentenceLines
import ProseWrap.Proofs.Definitions
import ProseWrap.Proofs.ProseLines
import ProseWrap.Proofs.FirstWords
import ProseWrap.Proofs.Leads
import ProseWrap.Proofs.MarkerRanges
import ProseWrap.Proofs.Escapes
import ProseWrap.Proofs.SpanSearch
import ProseWrap.Proofs.CodePairs
import ProseWrap.Proofs.SingleLines
import ProseWrap.Proofs.LetterCase
import ProseWrap.Proofs.NormalForms
import ProseWrap.Proofs.Lookups
import ProseWrap.Proofs.ActiveCharacters
import ProseWrap.Proofs.BracketPairs
import ProseWrap.Proofs.GluedWords
import ProseWrap.Proofs.LineInverse
import ProseWrap.Proofs.WrittenWidths
