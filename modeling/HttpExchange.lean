import HttpExchange.Address
import HttpExchange.Body
import HttpExchange.Bytes
import HttpExchange.Calls
import HttpExchange.Client
import HttpExchange.Connect
import HttpExchange.Error
import HttpExchange.Fault
import HttpExchange.Handle
import HttpExchange.Head
import HttpExchange.HeaderBuffer
import HttpExchange.Headers
import HttpExchange.Line
import HttpExchange.Numeral
import HttpExchange.Proofs.AnnouncedLength
import HttpExchange.Proofs.Arrivals
import HttpExchange.Proofs.Authority
import HttpExchange.Proofs.Boundary
import HttpExchange.Proofs.Capture
import HttpExchange.Proofs.CapturedTable
import HttpExchange.Proofs.Chunks
import HttpExchange.Proofs.Classification
import HttpExchange.Proofs.ClientRuns
import HttpExchange.Proofs.Completion
import HttpExchange.Proofs.ComposedHead
import HttpExchange.Proofs.Composition
import HttpExchange.Proofs.Conduct
import HttpExchange.Proofs.Conversation
import HttpExchange.Proofs.Decimal
import HttpExchange.Proofs.Delivery
import HttpExchange.Proofs.EndOfBody
import HttpExchange.Proofs.Exchange
import HttpExchange.Proofs.FieldLookup
import HttpExchange.Proofs.HeadExtent
import HttpExchange.Proofs.HeaderLines
import HttpExchange.Proofs.Inbound
import HttpExchange.Proofs.Interpretation
import HttpExchange.Proofs.Interruptions
import HttpExchange.Proofs.Lifecycle
import HttpExchange.Proofs.LineExtent
import HttpExchange.Proofs.Memory.Body
import HttpExchange.Proofs.Memory.Capture
import HttpExchange.Proofs.Memory.Head
import HttpExchange.Proofs.Memory.Lines
import HttpExchange.Proofs.Memory.Requests
import HttpExchange.Proofs.Outbound
import HttpExchange.Proofs.Overflow
import HttpExchange.Proofs.Oversized
import HttpExchange.Proofs.Peer
import HttpExchange.Proofs.Precedence
import HttpExchange.Proofs.Reading
import HttpExchange.Proofs.Refinement
import HttpExchange.Proofs.Release
import HttpExchange.Proofs.Response
import HttpExchange.Proofs.SameStream
import HttpExchange.Proofs.SectionLines
import HttpExchange.Proofs.SectionScan
import HttpExchange.Proofs.Segmentation
import HttpExchange.Proofs.StorageSize
import HttpExchange.Proofs.TargetGrammar
import HttpExchange.Proofs.Teardown
import HttpExchange.Proofs.Transaction
import HttpExchange.Proofs.Transmission
import HttpExchange.Proofs.Waiting
import HttpExchange.Proofs.Writing
import HttpExchange.Proofs.WrittenNumbers
import HttpExchange.Section
import HttpExchange.Session
import HttpExchange.Session.Engine
import HttpExchange.Session.LineEngine
import HttpExchange.Text.Blank
import HttpExchange.Text.Description
import HttpExchange.Text.Utf8
import HttpExchange.Transport
import HttpExchange.Transport.Script
import HttpExchange.Transport.Socket
import HttpExchange.Uri
