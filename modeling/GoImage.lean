import GoImage.BuildInfo.Basic
import GoImage.BuildInfo.Blob
import GoImage.BuildInfo.Lines
import GoImage.Bytes.Cursor
import GoImage.Bytes.Decoder
import GoImage.Bytes.Utf8
import GoImage.Bytes.Word
import GoImage.Error
import GoImage.Extraction
import GoImage.FunctionTable.Files
import GoImage.FunctionTable.Functions
import GoImage.FunctionTable.Header
import GoImage.FunctionTable.Search
import GoImage.Image.Basic
import GoImage.Image.Coff
import GoImage.Image.Elf
import GoImage.Image.Load
import GoImage.Image.MachO
import GoImage.Image.Pe
import GoImage.Image.Scan
import GoImage.Image.Section
import GoImage.Layout
import GoImage.ModuleData.Basic
import GoImage.ModuleData.Search
import GoImage.Package
import GoImage.Proofs.BuildInfo.Beginning
import GoImage.Proofs.BuildInfo.Encoding
import GoImage.Proofs.BuildInfo.Frame
import GoImage.Proofs.BuildInfo.Lines
import GoImage.Proofs.BuildInfo.Outcome
import GoImage.Proofs.BuildInfo.Printing
import GoImage.Proofs.BuildInfo.Provenance
import GoImage.Proofs.BuildInfo.Targets
import GoImage.Proofs.BuildInfo.Truncation
import GoImage.Proofs.Bytes.Checked
import GoImage.Proofs.Bytes.Cursor
import GoImage.Proofs.Bytes.Groups
import GoImage.Proofs.Bytes.Reads
import GoImage.Proofs.Bytes.Text
import GoImage.Proofs.Bytes.Utf8
import GoImage.Proofs.Bytes.Varint
import GoImage.Proofs.Bytes.Word
import GoImage.Proofs.Extraction.Functions
import GoImage.Proofs.Extraction.Options
import GoImage.Proofs.Extraction.Release
import GoImage.Proofs.Extraction.Stages
import GoImage.Proofs.FunctionTable.Candidates
import GoImage.Proofs.FunctionTable.Files
import GoImage.Proofs.FunctionTable.RoundTrip
import GoImage.Proofs.FunctionTable.Search
import GoImage.Proofs.FunctionTable.Walk
import GoImage.Proofs.Image.Coff
import GoImage.Proofs.Image.Content
import GoImage.Proofs.Image.Fields
import GoImage.Proofs.Image.Load
import GoImage.Proofs.Image.Named
import GoImage.Proofs.Image.Normal
import GoImage.Proofs.Image.Offset
import GoImage.Proofs.Image.Scan
import GoImage.Proofs.Image.Sums
import GoImage.Proofs.Image.Translation
import GoImage.Proofs.Image.Written
import GoImage.Proofs.ModuleData.Search
import GoImage.Proofs.ModuleData.Slots
import GoImage.Proofs.Package
import GoImage.Proofs.Release
import GoImage.Proofs.Run
import GoImage.Proofs.Text.Append
import GoImage.Proofs.Text.Literal
import GoImage.Proofs.Text.Unquote
import GoImage.Proofs.TypeInfo.BackReferences
import GoImage.Proofs.TypeInfo.CutFree
import GoImage.Proofs.TypeInfo.CutOrder
import GoImage.Proofs.TypeInfo.Discovery
import GoImage.Proofs.TypeInfo.Faults
import GoImage.Proofs.TypeInfo.Finishing
import GoImage.Proofs.TypeInfo.Fuller
import GoImage.Proofs.TypeInfo.Fullest
import GoImage.Proofs.TypeInfo.History
import GoImage.Proofs.TypeInfo.Listing
import GoImage.Proofs.TypeInfo.Memo
import GoImage.Proofs.TypeInfo.Name
import GoImage.Proofs.TypeInfo.NameProbe
import GoImage.Proofs.TypeInfo.Nesting
import GoImage.Proofs.TypeInfo.Parametricity
import GoImage.Proofs.TypeInfo.PartTexts
import GoImage.Proofs.TypeInfo.PlainText
import GoImage.Proofs.TypeInfo.PointerChain
import GoImage.Proofs.TypeInfo.RenderCache
import GoImage.Proofs.TypeInfo.RoundTrip
import GoImage.Proofs.TypeInfo.Search
import GoImage.Proofs.TypeInfo.VisitOrder
import GoImage.Release
import GoImage.Text.Escape
import GoImage.Text.Literal
import GoImage.Text.Pieces
import GoImage.TypeInfo.Catalogue
import GoImage.TypeInfo.Descriptor
import GoImage.TypeInfo.Enumeration
import GoImage.TypeInfo.Kind
import GoImage.TypeInfo.Name
import GoImage.TypeInfo.Reader
import GoImage.TypeInfo.Spelling
import GoImage.Warning
