import QueryResults.Column
import QueryResults.Csv.Dialect
import QueryResults.Csv.Reader
import QueryResults.Cursor
import QueryResults.Cursor.Basic
import QueryResults.Cursor.Paged
import QueryResults.Cursor.Streamed
import QueryResults.Download.Clock
import QueryResults.Download.Fetcher
import QueryResults.Download.Reader.Basic
import QueryResults.Download.Reader.Read
import QueryResults.Download.Reader.Supply
import QueryResults.Download.Transfer
import QueryResults.Duration
import QueryResults.Execution
import QueryResults.Failure
import QueryResults.Feed
import QueryResults.Http.Connect
import QueryResults.Http.Exchange
import QueryResults.Http.ObjectStore
import QueryResults.Http.QueryService
import QueryResults.Interrupts
import QueryResults.Json.Decoder
import QueryResults.Json.Parser
import QueryResults.Json.Value
import QueryResults.Location
import QueryResults.Pacing
import QueryResults.Polling
import QueryResults.Proofs.Csv.Acceptance
import QueryResults.Proofs.Csv.Faults
import QueryResults.Proofs.Csv.Pieces
import QueryResults.Proofs.Csv.Quoted
import QueryResults.Proofs.Csv.RoundTrip
import QueryResults.Proofs.Csv.Width
import QueryResults.Proofs.Cursor.Agreement
import QueryResults.Proofs.Cursor.Calls
import QueryResults.Proofs.Cursor.Contract
import QueryResults.Proofs.Cursor.Drain
import QueryResults.Proofs.Cursor.Interruption
import QueryResults.Proofs.Cursor.Keeps
import QueryResults.Proofs.Feed.Content
import QueryResults.Proofs.Fetcher.Collect
import QueryResults.Proofs.Fetcher.DeclaredEnd
import QueryResults.Proofs.Fetcher.Load
import QueryResults.Proofs.Fetcher.Outlook
import QueryResults.Proofs.Fetcher.Protocol
import QueryResults.Proofs.Fetcher.Reckoning
import QueryResults.Proofs.Fetcher.Reconstruction
import QueryResults.Proofs.Fetcher.Reports
import QueryResults.Proofs.Fetcher.Version
import QueryResults.Proofs.Http.Address
import QueryResults.Proofs.Http.Attempts
import QueryResults.Proofs.Http.Download
import QueryResults.Proofs.Http.Reason
import QueryResults.Proofs.Http.Server
import QueryResults.Proofs.Location
import QueryResults.Proofs.Paged.Accounts
import QueryResults.Proofs.Paged.Discipline
import QueryResults.Proofs.Paged.Drain
import QueryResults.Proofs.Paged.Journal
import QueryResults.Proofs.Paged.Position
import QueryResults.Proofs.Paged.Standing
import QueryResults.Proofs.Polling.Course
import QueryResults.Proofs.Polling.Delay
import QueryResults.Proofs.Reader.Accounts
import QueryResults.Proofs.Reader.Agreement
import QueryResults.Proofs.Reader.Balance
import QueryResults.Proofs.Reader.Course
import QueryResults.Proofs.Reader.Drain
import QueryResults.Proofs.Reader.End
import QueryResults.Proofs.Reader.Flow
import QueryResults.Proofs.Reader.Outlook
import QueryResults.Proofs.Reader.Returns
import QueryResults.Proofs.Reader.Sound
import QueryResults.Proofs.Reader.Standing
import QueryResults.Proofs.Reader.Version
import QueryResults.Proofs.Record.Groups
import QueryResults.Proofs.Record.Nested
import QueryResults.Proofs.Record.RoundTrip
import QueryResults.Proofs.Record.Truncation
import QueryResults.Proofs.Record.Written
import QueryResults.Proofs.Service.Dialogue
import QueryResults.Proofs.Service.Log
import QueryResults.Proofs.Session.Acts
import QueryResults.Proofs.Session.Contained
import QueryResults.Proofs.Session.Floor
import QueryResults.Proofs.Session.Jobs
import QueryResults.Proofs.Session.Reach
import QueryResults.Proofs.Session.Sound
import QueryResults.Proofs.Session.Tokens
import QueryResults.Proofs.Settings.Frame
import QueryResults.Proofs.Settings.Numbers
import QueryResults.Proofs.Settings.Order
import QueryResults.Proofs.Sidecar.Description
import QueryResults.Proofs.Sidecar.Exactness
import QueryResults.Proofs.Sidecar.RoundTrip
import QueryResults.Proofs.Store.Faltering
import QueryResults.Proofs.Store.Healthy
import QueryResults.Proofs.Store.Object
import QueryResults.Proofs.Store.Scripted
import QueryResults.Proofs.Store.Version
import QueryResults.Proofs.Streamed.Drain
import QueryResults.Proofs.Streamed.Failure
import QueryResults.Proofs.Streamed.File
import QueryResults.Proofs.Streamed.Journal
import QueryResults.Proofs.Streamed.Opening
import QueryResults.Proofs.Streamed.Stage
import QueryResults.Proofs.Streamed.Standing
import QueryResults.Proofs.Streamed.Width
import QueryResults.Proofs.Text.Numeral
import QueryResults.Proofs.Text.Utf8
import QueryResults.Proofs.Transfer.Attempts
import QueryResults.Proofs.Transfer.Course
import QueryResults.Proofs.Transfer.Delivery
import QueryResults.Proofs.Transfer.Demand
import QueryResults.Proofs.Transfer.Flow
import QueryResults.Proofs.Transfer.Ledger
import QueryResults.Proofs.Transfer.Outlook
import QueryResults.Proofs.Transfer.Overrun
import QueryResults.Proofs.Transfer.Signals
import QueryResults.Proofs.Transfer.Single
import QueryResults.Proofs.Transfer.Sound
import QueryResults.Proofs.Transfer.Transition
import QueryResults.Proofs.Transfer.Version
import QueryResults.Record.Field
import QueryResults.Record.Varint
import QueryResults.Service.Basic
import QueryResults.Service.Desk
import QueryResults.Service.Message
import QueryResults.Session
import QueryResults.Settings.Assignment
import QueryResults.Settings.Basic
import QueryResults.Settings.Property
import QueryResults.Sidecar
import QueryResults.Store
import QueryResults.Store.Shelf
import QueryResults.StreamFault
import QueryResults.Text.Blank
import QueryResults.Text.Latin1
import QueryResults.Text.Numeral
import QueryResults.Text.Utf8
import QueryResults.Timer
import QueryResults.World
