import LexicalRuns.Artifact.Document.Reader
import LexicalRuns.Main
import LexicalRuns.TableFile
import LexicalRuns.Proofs.CheckedOrder
import LexicalRuns.Proofs.TableLookup
import LexicalRuns.Proofs.TableExpansion
import LexicalRuns.Proofs.VerificationVerdict
import LexicalRuns.Proofs.EditedRuns
import LexicalRuns.Proofs.CanonicalRuns
import LexicalRuns.Proofs.EncodingInvariant
import LexicalRuns.Proofs.FewestRuns
import LexicalRuns.Proofs.LongestRun
import LexicalRuns.Proofs.CanonicalEncoding
import LexicalRuns.Proofs.EncodedParts
import LexicalRuns.Proofs.WordArithmetic
import LexicalRuns.Proofs.WordEncoding
import LexicalRuns.Proofs.BinaryArtifact
import LexicalRuns.Proofs.BinaryRecords
import LexicalRuns.Proofs.BuiltTable
import LexicalRuns.Proofs.BuiltArtifact
import LexicalRuns.Proofs.HexNumerals
import LexicalRuns.Proofs.TrimmedTexts
import LexicalRuns.Proofs.ContentLines
import LexicalRuns.Proofs.CharacterData
import LexicalRuns.Proofs.LineSteps
import LexicalRuns.Proofs.JoinedTexts
import LexicalRuns.Proofs.LineEnds
import LexicalRuns.Proofs.FirstFault
import LexicalRuns.Proofs.FileWrites
import LexicalRuns.Proofs.FileNames
import LexicalRuns.Proofs.GeneratedFiles
import LexicalRuns.Proofs.EncodedText
import LexicalRuns.Proofs.SpelledTokens
import LexicalRuns.Proofs.WrittenDocument
import LexicalRuns.Proofs.RecordNames
import LexicalRuns.Proofs.SourceLines
import LexicalRuns.Proofs.SourceComments
import LexicalRuns.Proofs.RelaidTexts
import LexicalRuns.Proofs.PatchedRecords
import LexicalRuns.Proofs.DumpedEntries
import LexicalRuns.Proofs.SkippedValues
import LexicalRuns.Proofs.SpacedTokens
import LexicalRuns.Proofs.ObjectMembers
import LexicalRuns.Proofs.DocumentValues
import LexicalRuns.Proofs.DocumentObjects
import LexicalRuns.Proofs.RearrangedDocument
import LexicalRuns.Proofs.QuotedTexts
import LexicalRuns.Proofs.RequestedSettings
