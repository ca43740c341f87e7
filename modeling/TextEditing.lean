import TextEditing.Buffer.Basic
import TextEditing.Buffer.Document
import TextEditing.Buffer.Plain
import TextEditing.Buffer.Rationed
import TextEditing.Buffer.Rope
import TextEditing.Dictionary
import TextEditing.Edit.Apply
import TextEditing.Edit.Change
import TextEditing.Edit.Conversion
import TextEditing.Edit.Delta
import TextEditing.Edit.Failure
import TextEditing.Edit.Interchange
import TextEditing.Edit.OffsetTable
import TextEditing.Edit.Operation
import TextEditing.Edit.Order
import TextEditing.Edit.Span
import TextEditing.Format.Editing
import TextEditing.Format.Failure
import TextEditing.Format.Formatter
import TextEditing.Format.Service
import TextEditing.Format.Session
import TextEditing.Json.Codec
import TextEditing.Json.Failure
import TextEditing.Json.Flattened
import TextEditing.Json.Number
import TextEditing.Json.Printer
import TextEditing.Json.Record
import TextEditing.Json.Token
import TextEditing.Json.Tree
import TextEditing.Json.Value
import TextEditing.Numeric.Binary64
import TextEditing.Numeric.Integer
import TextEditing.Numeric.Shortest
import TextEditing.Options.Choice
import TextEditing.Options.Choices
import TextEditing.Options.CompilerOptions
import TextEditing.Options.Defaults
import TextEditing.Options.EditorOptions
import TextEditing.Options.Failure
import TextEditing.Options.FormatOptions
import TextEditing.Options.History
import TextEditing.Options.Preference
import TextEditing.Options.Preferences
import TextEditing.Options.ProjectLayout
import TextEditing.Options.Wiring
import TextEditing.Proofs.Boundaries
import TextEditing.Proofs.ByteOrder
import TextEditing.Proofs.CanonicalDocuments
import TextEditing.Proofs.CompactTexts
import TextEditing.Proofs.Conflicts
import TextEditing.Proofs.Correspondence
import TextEditing.Proofs.Dictionaries
import TextEditing.Proofs.DocumentLayers
import TextEditing.Proofs.EditReadings
import TextEditing.Proofs.EncodedSubstitution
import TextEditing.Proofs.EntryPoints
import TextEditing.Proofs.ErrorReports
import TextEditing.Proofs.ExchangedEdits
import TextEditing.Proofs.ExchangedOptions
import TextEditing.Proofs.FaithfulBuffer
import TextEditing.Proofs.FlattenedMembers
import TextEditing.Proofs.FormattingAgreement
import TextEditing.Proofs.FormattingFrame
import TextEditing.Proofs.FormattingRequests
import TextEditing.Proofs.FormattingRuns
import TextEditing.Proofs.InsertedRanges
import TextEditing.Proofs.IntegerLiterals
import TextEditing.Proofs.Interchangeability
import TextEditing.Proofs.Interruptions
import TextEditing.Proofs.LiteralEntries
import TextEditing.Proofs.MirroredOrders
import TextEditing.Proofs.MisplacedChanges
import TextEditing.Proofs.ModificationStamps
import TextEditing.Proofs.OffsetTable
import TextEditing.Proofs.OptionWiring
import TextEditing.Proofs.OutputLocation
import TextEditing.Proofs.PartialProgress
import TextEditing.Proofs.PlainSpellings
import TextEditing.Proofs.PreferenceHistories
import TextEditing.Proofs.PreferenceReadings
import TextEditing.Proofs.RecordMembers
import TextEditing.Proofs.Renumbering
import TextEditing.Proofs.Reordering
import TextEditing.Proofs.Replay
import TextEditing.Proofs.ReportedRanges
import TextEditing.Proofs.RespelledNames
import TextEditing.Proofs.Restatement
import TextEditing.Proofs.RestoredRecords
import TextEditing.Proofs.Rounding
import TextEditing.Proofs.Runs
import TextEditing.Proofs.ScanOrder
import TextEditing.Proofs.SharedPositions
import TextEditing.Proofs.ShuffledMembers
import TextEditing.Proofs.SiftedEntries
import TextEditing.Proofs.SpelledLayers
import TextEditing.Proofs.Spellings
import TextEditing.Proofs.Splicing
import TextEditing.Proofs.StoredPreferences
import TextEditing.Proofs.StrippedEnds
import TextEditing.Proofs.Substitution
import TextEditing.Proofs.Traversals
import TextEditing.Proofs.TreeValues
import TextEditing.Proofs.Undo
import TextEditing.Proofs.ValueReadings
import TextEditing.Proofs.WrittenTokens
import TextEditing.Proofs.WrittenTrees
import TextEditing.Text.Blank
import TextEditing.Text.Encoded
import TextEditing.Text.Hidden
import TextEditing.Text.Quoted
import TextEditing.Text.Units
