import Stencil.Main
import Stencil.Text.Enumeration
import Stencil.Value.Arguments
import Stencil.Value.OrderedMap
import Stencil.Proofs.Lowering
import Stencil.Proofs.Meaning
import Stencil.Proofs.Nesting
import Stencil.Proofs.Acceptance
import Stencil.Proofs.Glyphs
import Stencil.Proofs.Escaping
import Stencil.Proofs.Cursors
import Stencil.Proofs.Words
import Stencil.Proofs.Places
import Stencil.Proofs.Scanning
import Stencil.Proofs.Rebuilding
import Stencil.Proofs.TemplateMarkup
import Stencil.Proofs.RoundTrip
import Stencil.Proofs.Spelling
import Stencil.Proofs.JoinedLines
import Stencil.Proofs.Listing
import Stencil.Proofs.LineEndings
import Stencil.Proofs.BlankErasure
import Stencil.Proofs.BlankRemoval
import Stencil.Proofs.Utf8
import Stencil.Proofs.InertBlanks
import Stencil.Proofs.FreeNames
import Stencil.Proofs.SameForest
import Stencil.Proofs.Locations
import Stencil.Proofs.Names
import Stencil.Proofs.Quoting
import Stencil.Proofs.ListingLines
import Stencil.Proofs.FaithfulListing
import Stencil.Proofs.Declarations
import Stencil.Proofs.TokenGrammar
import Stencil.Proofs.Bracketing
import Stencil.Proofs.Flattening
import Stencil.Proofs.TagMarks
import Stencil.Proofs.FirstDefect
import Stencil.Proofs.LoopHeaders
import Stencil.Proofs.SourceMarkup
import Stencil.Proofs.KeptContent
import Stencil.Proofs.VerbatimContent
import Stencil.Proofs.Renaming
import Stencil.Proofs.LoopBindings
import Stencil.Proofs.BlankExpressions
import Stencil.Proofs.MarkupSpans
import Stencil.Proofs.TemplateSpans
import Stencil.Proofs.Balance
import Stencil.Proofs.Gathering
import Stencil.Proofs.NestedSpans
import Stencil.Proofs.CheckedReader
import Stencil.Proofs.ReaderSteps
import Stencil.Proofs.Progress
import Stencil.Proofs.DocumentOrder
import Stencil.Proofs.NormalForm
import Stencil.Proofs.References
import Stencil.Proofs.VisitedEntries
import Stencil.Proofs.MergePrecedence
import Stencil.Proofs.PathLanguage
import Stencil.Proofs.SettledBlanks
import Stencil.Proofs.PatternReading
import Stencil.Proofs.DiskTrees
import Stencil.Proofs.Discovery
import Stencil.Proofs.ValidatedPatterns
import Stencil.Proofs.GuardedLoops
import Stencil.Proofs.OrderedMaps
import Stencil.Proofs.Excerpts
