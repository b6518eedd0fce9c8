import Sharding.Act
import Sharding.Calendar
import Sharding.Chunks
import Sharding.Config.Basic
import Sharding.Config.Document
import Sharding.Cursor.Scripted
import Sharding.Cursor.Source
import Sharding.Datum.Basic
import Sharding.Datum.Order
import Sharding.Datum.Sum
import Sharding.Distinct
import Sharding.Error
import Sharding.Execute.Batch
import Sharding.Execute.Dispatch
import Sharding.Execute.Group
import Sharding.Execute.Statement
import Sharding.GeneratedKeys
import Sharding.Keys.Clock
import Sharding.Keys.Generator
import Sharding.Merge.GroupKey
import Sharding.Merge.Groups
import Sharding.Merge.Heap
import Sharding.Merge.Order
import Sharding.Merge.Plan
import Sharding.Merge.Result
import Sharding.Merge.Stream
import Sharding.Number.Decimal
import Sharding.Number.Double
import Sharding.Number.Int128
import Sharding.Number.Power
import Sharding.Number.Shortest
import Sharding.Program
import Sharding.Proofs.Act.Agreeing
import Sharding.Proofs.Act.Corresponding
import Sharding.Proofs.Act.Ending
import Sharding.Proofs.Act.Giving
import Sharding.Proofs.Act.Replying
import Sharding.Proofs.Act.Yielding
import Sharding.Proofs.Config.Reading
import Sharding.Proofs.Datum.Addition
import Sharding.Proofs.Datum.DecimalText
import Sharding.Proofs.Datum.Double
import Sharding.Proofs.Datum.Equality
import Sharding.Proofs.Datum.Fingerprint
import Sharding.Proofs.Datum.FloatExact
import Sharding.Proofs.Datum.FloatOrder
import Sharding.Proofs.Datum.FloatQuotient
import Sharding.Proofs.Datum.Literal
import Sharding.Proofs.Datum.Measures
import Sharding.Proofs.Datum.Number
import Sharding.Proofs.Datum.Order
import Sharding.Proofs.Datum.Trimmed
import Sharding.Proofs.Distinct
import Sharding.Proofs.Execute.Batched
import Sharding.Proofs.Execute.Calls
import Sharding.Proofs.Execute.Coverage
import Sharding.Proofs.Execute.Crashing
import Sharding.Proofs.Execute.Dispatch
import Sharding.Proofs.Execute.Either
import Sharding.Proofs.Execute.Journaled
import Sharding.Proofs.Execute.Preparing
import Sharding.Proofs.Execute.Queued
import Sharding.Proofs.Execute.Reporting
import Sharding.Proofs.Execute.Resources
import Sharding.Proofs.Execute.Shifts
import Sharding.Proofs.Execute.Single
import Sharding.Proofs.Execute.Undoing
import Sharding.Proofs.Handles.Books
import Sharding.Proofs.Handles.Cursors
import Sharding.Proofs.Handles.Exact
import Sharding.Proofs.Handles.Execution
import Sharding.Proofs.Handles.Leaks
import Sharding.Proofs.Handles.Session
import Sharding.Proofs.Interleaving
import Sharding.Proofs.Keys.Repeats
import Sharding.Proofs.Keys.Snowflake
import Sharding.Proofs.Merge.Aggregation
import Sharding.Proofs.Merge.Answers
import Sharding.Proofs.Merge.Bare
import Sharding.Proofs.Merge.Closing
import Sharding.Proofs.Merge.Columns
import Sharding.Proofs.Merge.Combined
import Sharding.Proofs.Merge.EveryClose
import Sharding.Proofs.Merge.FailedReads
import Sharding.Proofs.Merge.Gathering
import Sharding.Proofs.Merge.GroupKeys
import Sharding.Proofs.Merge.Grouping
import Sharding.Proofs.Merge.Heap
import Sharding.Proofs.Merge.HiddenOrder
import Sharding.Proofs.Merge.Labels
import Sharding.Proofs.Merge.Ordered
import Sharding.Proofs.Merge.Page
import Sharding.Proofs.Merge.Planning
import Sharding.Proofs.Merge.Preorder
import Sharding.Proofs.Merge.Pushdown
import Sharding.Proofs.Merge.Reading
import Sharding.Proofs.Merge.RowOrder
import Sharding.Proofs.Merge.Totals
import Sharding.Proofs.Merge.UnitOrder
import Sharding.Proofs.Program.Finishing
import Sharding.Proofs.Program.Owning
import Sharding.Proofs.Program.Recording
import Sharding.Proofs.Provider.Journal
import Sharding.Proofs.Provider.Logged
import Sharding.Proofs.Provider.Memory
import Sharding.Proofs.Provider.MemoryBooks
import Sharding.Proofs.Provider.MemoryJournal
import Sharding.Proofs.Provider.MemoryKeys
import Sharding.Proofs.Provider.MemoryLedger
import Sharding.Proofs.Results
import Sharding.Proofs.Route.Inserts
import Sharding.Proofs.Route.Keys
import Sharding.Proofs.Route.Lookup
import Sharding.Proofs.Route.Pairing
import Sharding.Proofs.Route.Placing
import Sharding.Proofs.Route.Products
import Sharding.Proofs.Route.Spread
import Sharding.Proofs.Route.Stops
import Sharding.Proofs.Route.StrictInsert
import Sharding.Proofs.Route.Surviving
import Sharding.Proofs.Route.Targets
import Sharding.Proofs.Route.Units
import Sharding.Proofs.Rule.Hits
import Sharding.Proofs.Rule.Slots
import Sharding.Proofs.Session.Calls
import Sharding.Proofs.Session.Either
import Sharding.Proofs.Session.Journaled
import Sharding.Proofs.Session.Keys
import Sharding.Proofs.Session.Pending
import Sharding.Proofs.Session.Phases
import Sharding.Proofs.Session.Rearming
import Sharding.Proofs.Session.Resources
import Sharding.Proofs.Session.Results
import Sharding.Proofs.Sorting.Arranged
import Sharding.Proofs.Sorting.Long
import Sharding.Proofs.Sorting.Orders
import Sharding.Proofs.Sorting.Permuted
import Sharding.Proofs.Sorting.Short
import Sharding.Proofs.Sql.InsertText
import Sharding.Proofs.Sql.Literals
import Sharding.Proofs.Sql.Naming
import Sharding.Proofs.Sql.Scanning
import Sharding.Proofs.Sql.Slices
import Sharding.Proofs.Sql.Splicing
import Sharding.Proofs.Sql.Values
import Sharding.Proofs.Sql.Words
import Sharding.Proofs.Statement.Derived
import Sharding.Proofs.Strict
import Sharding.Proofs.Text.Bytes
import Sharding.Proofs.Toml.Unique
import Sharding.Proofs.Toml.Written
import Sharding.Provider.Basic
import Sharding.Provider.Fault
import Sharding.Provider.Memory
import Sharding.Route.Basic
import Sharding.Route.Engine
import Sharding.Route.Insert
import Sharding.Route.Target
import Sharding.Rule.Algorithm
import Sharding.Rule.Basic
import Sharding.Rule.Table
import Sharding.Session.Basic
import Sharding.Session.Batch
import Sharding.Session.Context
import Sharding.Session.Execution
import Sharding.Session.Phase
import Sharding.Sorting.Adaptive
import Sharding.Sorting.Halves
import Sharding.Sorting.Insertion
import Sharding.Sorting.Quick
import Sharding.Sorting.Runs
import Sharding.Sql.Render
import Sharding.Sql.Template
import Sharding.Sql.Token
import Sharding.Statement.Basic
import Sharding.Statement.Shape
import Sharding.Testbed
import Sharding.Text.Blank
import Sharding.Text.Bytes
import Sharding.Text.Extending
import Sharding.Text.Fragment
import Sharding.Text.Hex
import Sharding.Text.Hidden
import Sharding.Text.Name
import Sharding.Text.Quoted
import Sharding.Text.Ranges
import Sharding.Text.Unassigned
import Sharding.Toml.Document
import Sharding.Toml.Lexeme
import Sharding.Toml.Value
