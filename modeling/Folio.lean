import Folio.Bytes
import Folio.Delivery.Channel
import Folio.Delivery.Producer
import Folio.Delivery.Transfer
import Folio.Document.Options
import Folio.Document.Size
import Folio.Json
import Folio.Layout.Line
import Folio.Layout.Page
import Folio.Main
import Folio.Markup.Document
import Folio.Markup.Element
import Folio.Markup.Fault
import Folio.Markup.Node
import Folio.Markup.Reader
import Folio.Markup.Reference
import Folio.Markup.Token
import Folio.Number.Binary
import Folio.Number.Duration
import Folio.Number.Form
import Folio.Number.Numeral
import Folio.Number.Shortest
import Folio.Ordered
import Folio.Pdf.File
import Folio.Pdf.Object
import Folio.Pdf.Output
import Folio.Proofs.Delivery.CallOff
import Folio.Proofs.Delivery.Exchange
import Folio.Proofs.Delivery.Plan
import Folio.Proofs.Delivery.Protocol
import Folio.Proofs.Delivery.Receipt
import Folio.Proofs.Delivery.Streaming
import Folio.Proofs.Layout.Lines
import Folio.Proofs.Layout.TextState
import Folio.Proofs.Markup.Gathering
import Folio.Proofs.Number.Comparison
import Folio.Proofs.Ordered
import Folio.Proofs.Pdf.Atom
import Folio.Proofs.Pdf.CrossReference
import Folio.Proofs.Pdf.Emission
import Folio.Proofs.Pdf.Journal
import Folio.Proofs.Pdf.Navigation
import Folio.Proofs.Pdf.Navigator
import Folio.Proofs.Pdf.Numbering
import Folio.Proofs.Pdf.Opening
import Folio.Proofs.Pdf.ReadBack
import Folio.Proofs.Pdf.RoundTrip
import Folio.Proofs.Pdf.Strings
import Folio.Proofs.Pdf.Value
import Folio.Proofs.Pdf.Word
import Folio.Proofs.Render.Contract
import Folio.Proofs.Session.Acceptance
import Folio.Proofs.Session.Carried
import Folio.Proofs.Session.Flow
import Folio.Proofs.Session.FontNames
import Folio.Proofs.Session.Lifecycle
import Folio.Proofs.Session.Refusal
import Folio.Proofs.Tag.MarkupOrder
import Folio.Proofs.Tag.Passage
import Folio.Proofs.Tag.Preorder
import Folio.Record
import Folio.Render.Builder
import Folio.Render.CommandLine
import Folio.Render.Error
import Folio.Render.Folder
import Folio.Render.Program
import Folio.Render.Renderer
import Folio.Session.Backend
import Folio.Session.Compositor
import Folio.Session.Recorder
import Folio.Session.Script
import Folio.Style.Align
import Folio.Style.Color
import Folio.Style.Font
import Folio.Table
import Folio.Tag.Attribute
import Folio.Tag.Handler
import Folio.Tag.Pass
import Folio.Tag.Root
import Folio.Text.Blank
import Folio.Text.Quoted
import Folio.Proofs.Session.FontUse
import Folio.Proofs.Delivery.Chunking
import Folio.Proofs.Session.Parity
import Folio.Proofs.Tag.Wrapping
import Folio.Proofs.Tag.Styling
import Folio.Proofs.Session.Typeface
import Folio.Proofs.Layout.Paragraphs
import Folio.Proofs.Layout.Filling
import Folio.Proofs.Pdf.Information
import Folio.Proofs.Session.Pagination
import Folio.Proofs.Layout.Measuring
import Folio.Proofs.Style.Spelling
import Folio.Proofs.Markup.Siblings
import Folio.Proofs.Markup.NormalForm
import Folio.Proofs.Tag.Resolution
import Folio.Proofs.Render.Choices
import Folio.Proofs.Markup.Edits
import Folio.Proofs.Lists
import Folio.Proofs.Markup.Dump
import Folio.Proofs.Session.Logbook
import Folio.Proofs.Tag.Coercion
import Folio.Proofs.Pdf.EntryOrder
import Folio.Proofs.Number.Value
import Folio.Proofs.Number.Rounding
import Folio.Proofs.Number.Arithmetic
import Folio.Proofs.Number.Lengths
import Folio.Proofs.Session.Room
import Folio.Proofs.Session.Operands
import Folio.Proofs.Pdf.PageBox
