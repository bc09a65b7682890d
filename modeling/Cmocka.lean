import Cmocka.Support.CountedQueue
import Cmocka.Support.Shelf
import Cmocka.Support.Runs
import Cmocka.Support.Ledger
import Cmocka.Support.CallOrder
import Cmocka.Support.Glob
import Cmocka.Support.Occurrence
import Cmocka.Support.Splits
import Cmocka.Support.Ring
import Cmocka.Support.Layout
import Cmocka.Support.Patch
import Cmocka.Support.Replacing
import Cmocka.Support.Escaping
import Cmocka.Model.Text
import Cmocka.Model.SymbolMap
import Cmocka.Model.Lists
import Cmocka.Model.State
import Cmocka.Model.Expect
import Cmocka.Model.Macros
import Cmocka.Model.Alloc
import Cmocka.Model.Runner
import Cmocka.Model.Report
import Cmocka.Model.MockAssert
import Cmocka.Model.DataDiff
import Cmocka.Model.Buffer
import Cmocka.Model.Time
import Cmocka.Model.Sets
import Cmocka.Report.Replace
import Cmocka.Report.Output
import Cmocka.Report.XmlFile
import Cmocka.Report.DataDiff
import Cmocka.Report.Elapsed
import Cmocka.Report.Buffers
import Cmocka.Report.Escape
import Cmocka.Report.ReadBack
import Cmocka.Expectations.MapShape
import Cmocka.Expectations.MapRefinement
import Cmocka.Expectations.Leftover
import Cmocka.Expectations.MapEntries
import Cmocka.Expectations.MapInvariant
import Cmocka.Expectations.MapLayout
import Cmocka.Expectations.MapLists
import Cmocka.Expectations.MapAdding
import Cmocka.Expectations.MapGetting
import Cmocka.Expectations.MapClearing
import Cmocka.Expectations.MapMachine
import Cmocka.Runner.Frames
import Cmocka.Expectations.Calls
import Cmocka.Expectations.CallOrdering
import Cmocka.Expectations.Streams
import Cmocka.Expectations.Reorder
import Cmocka.Expectations.Macros
import Cmocka.Expectations.SetAssertions
import Cmocka.Runner.Callback
import Cmocka.Runner.Ownership
import Cmocka.Runner.Verdict
import Cmocka.Runner.Protocol
import Cmocka.Runner.Invariants
import Cmocka.Runner.Sequence
import Cmocka.Runner.Status
import Cmocka.Runner.Result
import Cmocka.Runner.Summary
import Cmocka.Runner.Filter
import Cmocka.Report.TapStream
import Cmocka.Runner.ExpectAssert
import Cmocka.Alloc.Links
import Cmocka.Alloc.Sequence
import Cmocka.Alloc.Table
import Cmocka.Alloc.Layout
import Cmocka.Alloc.Heap
import Cmocka.Alloc.Refinement
import Cmocka.Alloc.Guards
import Cmocka.Alloc.Leaks
import Cmocka.Runner.Blocks
import Cmocka.Model.Display
import Cmocka.Model.MapMemory
import Cmocka.Model.Asserts
import Cmocka.Runner.Formats
import Cmocka.Checks.Verdicts
import Cmocka.Checks.Bodies
import Cmocka.Checks.Groups
import Cmocka.Reference.Bench
import Cmocka.Reference.Calls
import Cmocka.Reference.Callbacks
import Cmocka.Reference.Groups
import Cmocka.Reference.Isolation
