import Classdesk.Archive.Crc32
import Classdesk.Archive.Inflate
import Classdesk.Archive.Zip
import Classdesk.Bytes
import Classdesk.CommandLine.Execute
import Classdesk.Declaration
import Classdesk.Descriptor
import Classdesk.Editor.Session
import Classdesk.Files.FileTree
import Classdesk.Files.SavedClass
import Classdesk.Format.ClassFile
import Classdesk.Format.Codec
import Classdesk.Highlight.Dialect
import Classdesk.Highlight.Gate
import Classdesk.Listing.Printer
import Classdesk.Main
import Classdesk.Name
import Classdesk.Pattern.Regex
import Classdesk.Proofs.Bytecode.Encoding
import Classdesk.Proofs.Bytecode.Labels
import Classdesk.Proofs.Bytecode.Operands
import Classdesk.Proofs.Bytecode.Tiling
import Classdesk.Proofs.Format.Codecs
import Classdesk.Proofs.Format.NormalForm
import Classdesk.Proofs.Format.PoolGrowth
import Classdesk.Proofs.Format.PoolLookup
import Classdesk.Proofs.Format.PoolSharing
import Classdesk.Proofs.Format.RoundTrip
import Classdesk.Proofs.Format.StoredForm
import Classdesk.Proofs.Highlight.Freshness
import Classdesk.Proofs.Highlight.Quiescence
import Classdesk.Proofs.Highlight.Ranges
import Classdesk.Proofs.Highlight.Runs
import Classdesk.Proofs.Highlight.Sweep
import Classdesk.Proofs.Reading
import Classdesk.Proofs.Text.CanonicalForm
import Classdesk.Proofs.Text.ModifiedUtf8
import Classdesk.Proofs.Text.StoredText
import Classdesk.Proofs.Text.UnitForm
import Classdesk.Text.CaseFold
import Classdesk.Text.Escaped
import Classdesk.Text.Hex
import Classdesk.Text.ModifiedUtf8
import Classdesk.Text.Split
import Classdesk.Text.Utf8
import Classdesk.Text.WordChar
import Classdesk.Standin.BytePatch
import Classdesk.Standin.Rehearsal
import Classdesk.Standin.Shell
import Classdesk.Tools.Program
import Classdesk.Proofs.Format.PoolCapacity
import Classdesk.Proofs.Format.PoolRecall
import Classdesk.Proofs.Listing.Indentation
import Classdesk.Proofs.Listing.Wording
import Classdesk.Proofs.Listing.Layout
import Classdesk.Proofs.Listing.LineCount
import Classdesk.Proofs.Editor.Steps
import Classdesk.Proofs.Editor.Recomputation
import Classdesk.Proofs.Highlight.Staffing
import Classdesk.Proofs.Highlight.Overtaking
import Classdesk.Proofs.Highlight.Survival
import Classdesk.Proofs.Descriptor.Spelling
import Classdesk.Proofs.Bytecode.Handlers
import Classdesk.Proofs.Highlight.EventOrder
import Classdesk.Proofs.Highlight.Appending
import Classdesk.Proofs.Format.PoolFailure
import Classdesk.Proofs.Format.Truncation
import Classdesk.Proofs.Format.AttributeLookup
import Classdesk.Proofs.Listing.Chunking
import Classdesk.Proofs.Editor.EntryNames
import Classdesk.Proofs.Files.Storing
import Classdesk.Proofs.Editor.SavedFlag
import Classdesk.Proofs.Listing.Passing
import Classdesk.Proofs.Editor.LineBreaks
import Classdesk.Proofs.Listing.Refusal
import Classdesk.Proofs.Text.Replacing
import Classdesk.Proofs.Listing.StringConstants
import Classdesk.Proofs.CommandLine.Separation
import Classdesk.Proofs.Pattern.Repetition
import Classdesk.Proofs.Highlight.Dialects
import Classdesk.Proofs.Highlight.BlockComments
import Classdesk.Proofs.Number.Rounding
import Classdesk.Proofs.Number.Shortest
import Classdesk.Proofs.Number.Numerals
import Classdesk.Proofs.Number.ReadBack
import Classdesk.Proofs.Bytecode.SwitchGuards
