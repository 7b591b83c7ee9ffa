import Ttk91.Text.Basic
import Ttk91.Text.UpperCase
import Ttk91.Text.Decimal
import Ttk91.Text.Quoted
import Ttk91.Table
import Ttk91.Machine
import Ttk91.Diagnostic
import Ttk91.Source.Operand
import Ttk91.Source.Statement
import Ttk91.Failure
import Ttk91.Layout
import Ttk91.Encoding
import Ttk91.Listing
import Ttk91.Image.Basic
import Ttk91.Image.Reader
import Ttk91.Assembly
import Ttk91.Command.Arguments
import Ttk91.Command.FileTree
import Ttk91.Command.Run
import Ttk91.Main
import Ttk91.Proofs.Splitting
import Ttk91.Proofs.Numeral
import Ttk91.Proofs.Tables
import Ttk91.Proofs.SourceReader
import Ttk91.Proofs.Faults
import Ttk91.Proofs.Placement
import Ttk91.Proofs.Passes
import Ttk91.Proofs.Agreement
import Ttk91.Proofs.ImageReader
import Ttk91.Proofs.Container
import Ttk91.Proofs.Encoder
import Ttk91.Proofs.EncoderDomain
import Ttk91.Proofs.AssembledImage
import Ttk91.Proofs.ListedInstruction
import Ttk91.Proofs.Reassembly
import Ttk91.Proofs.RelistedWord
import Ttk91.Proofs.KindSequences
import Ttk91.Proofs.Interleaving
import Ttk91.Proofs.Relocation
import Ttk91.Proofs.EncoderImage
import Ttk91.Proofs.ImageGrammar
import Ttk91.Proofs.TornImage
import Ttk91.Proofs.NormalForm
import Ttk91.Proofs.FailureReports
import Ttk91.Proofs.ImageShape
import Ttk91.Proofs.CanonicalLine
import Ttk91.Proofs.WrittenFile
import Ttk91.Proofs.CommandEffect
import Ttk91.Proofs.StableCase
import Ttk91.Proofs.KnownKeywords
import Ttk91.Proofs.SourceGrammar
import Ttk91.Proofs.OperandGrammar
import Ttk91.Proofs.LiteralGrammar
import Ttk91.Proofs.NegativeLiteral
import Ttk91.Proofs.StrictListing
import Ttk91.Proofs.ReaderLocality
import Ttk91.Proofs.PredictedSize
import Ttk91.Proofs.CommentPlaces
import Ttk91.Proofs.BitOperations
import Ttk91.Proofs.PackedFields
import Ttk91.Proofs.ListingVariants
import Ttk91.Proofs.RepeatedLabels
