import FlatRecord.Main
import FlatRecord.Session
import FlatRecord.Proofs.Placement
import FlatRecord.Proofs.FieldReading
import FlatRecord.Proofs.ReaderSteps
import FlatRecord.Proofs.EndOfText
import FlatRecord.Proofs.WellFormed
import FlatRecord.Proofs.Compilation
import FlatRecord.Proofs.Restated
import FlatRecord.Proofs.Storage
import FlatRecord.Proofs.Grammar
import FlatRecord.Proofs.FieldPrinting
import FlatRecord.Proofs.Printing
import FlatRecord.Proofs.RoundTrip
import FlatRecord.Proofs.ClassText
import FlatRecord.Proofs.ClassNames
import FlatRecord.Proofs.Comments
import FlatRecord.Proofs.Documentation
import FlatRecord.Proofs.Inclusion
import FlatRecord.Proofs.Concatenation
import FlatRecord.Proofs.Directories
import FlatRecord.Proofs.Generation
import FlatRecord.Proofs.OutputFiles
import FlatRecord.Proofs.Repetition
import FlatRecord.Proofs.SourceReading
import FlatRecord.Proofs.ReadBack
import FlatRecord.Proofs.OptionEffects
import FlatRecord.Proofs.JsonReading
import FlatRecord.Proofs.Printout
import FlatRecord.Proofs.FirstRejected
import FlatRecord.Proofs.NameRules
import FlatRecord.Proofs.ByteCursor
import FlatRecord.Proofs.TypeTokenGrammar
import FlatRecord.Proofs.ErrorLines
import FlatRecord.Proofs.Messages
import FlatRecord.Proofs.Growth
import FlatRecord.Proofs.Recovery
import FlatRecord.Proofs.Spacing
import FlatRecord.Proofs.StoredFields
