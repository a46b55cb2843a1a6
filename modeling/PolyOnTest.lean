import PolyOnTest.CodeLib.Delimited
import PolyOnTest.CodeLib.Resync
import PolyOnTest.CodeLib.Interleave
import PolyOnTest.CodeLib.LastWrite
import PolyOnTest.CodeLib.Cobs
import PolyOnTest.CodeLib.Utf8
import PolyOnTest.CodeLib.CMemory
import PolyOnTest.CodeLib.Checked
import PolyOnTest.CodeLib.Fuel
import PolyOnTest.CodeLib.Trace
import PolyOnTest.CodeLib.LinkedList
import PolyOnTest.CodeLib.Encoding
import PolyOnTest.CodeLib.Decimal
import PolyOnTest.CodeLib.LongDivision
import PolyOnTest.CodeLib.Text
import PolyOnTest.CodeLib.StaticArray
import PolyOnTest.Protocol
import PolyOnTest.Builtins.CobsCodec
import PolyOnTest.Builtins.CobsBounds
import PolyOnTest.Builtins.TextCodec
import PolyOnTest.Builtins.Summary
import PolyOnTest.Builtins.TextRoundTrip
import PolyOnTest.Builtins.JoinedLines
import PolyOnTest.Builtins.Junit
import PolyOnTest.Builtins.JunitXml
import PolyOnTest.CodeLib.Utf8Cut
import PolyOnTest.Builtins.TextChunks
import PolyOnTest.Wire.Layout
import PolyOnTest.Wire.RoundTrip
import PolyOnTest.Harness.Ptwp
import PolyOnTest.Wire.Agreement
import PolyOnTest.Harness.Format
import PolyOnTest.Harness.AssertFormat
import PolyOnTest.Harness.Emit
import PolyOnTest.Harness.Registry
import PolyOnTest.Harness.Runner
import PolyOnTest.Harness.Asserts
import PolyOnTest.Harness.Links
import PolyOnTest.Harness.Hooks
import PolyOnTest.Wire.Messages
import PolyOnTest.Run.Order
import PolyOnTest.Run.Rows
import PolyOnTest.Run.Locks
import PolyOnTest.Run.Steps
import PolyOnTest.Run.Shape
import PolyOnTest.Run.HookedRuns
import PolyOnTest.Run.Lifecycle
import PolyOnTest.Run.Integrity
import PolyOnTest.Run.Verdict
import PolyOnTest.Run.Filters
import PolyOnTest.Run.Story
import PolyOnTest.Run.Modes
import PolyOnTest.Run.Assertions
import PolyOnTest.Run.Identity
import PolyOnTest.Run.Threads
import PolyOnTest.Run.Ledger
import PolyOnTest.Run.Heard
import PolyOnTest.Run.Totals
import PolyOnTest.Run.Scripts
import PolyOnTest.Run.Residue
import PolyOnTest.Run.Independence
import PolyOnTest.Builtins.Reporter
import PolyOnTest.Cli.Config
import PolyOnTest.Cli.Stream
import PolyOnTest.Cli.Isolated
import PolyOnTest.Cli.Main
import PolyOnTest.Cli.Verdict
import PolyOnTest.Cli.Finishing
import PolyOnTest.Cli.Accounting
import PolyOnTest.Cli.Consistency
import PolyOnTest.Cli.Discovery
import PolyOnTest.Cli.Children
import PolyOnTest.Cli.Isolation
import PolyOnTest.Wire.Resync
import PolyOnTest.Fff.Fake
import PolyOnTest.Fff.Records
import PolyOnTest.Fff.Reset
import PolyOnTest.Harness.Constructors
import PolyOnTest.Harness.Relations
import PolyOnTest.Run.Evaluated
import PolyOnTest.Run.BootOrder
import PolyOnTest.Run.SectionRegistry
import PolyOnTest.Run.Watch
import PolyOnTest.CodeLib.Scheduled
import PolyOnTest.CodeLib.Channel
import PolyOnTest.Cli.Reader
import PolyOnTest.Cli.Schedules
import PolyOnTest.Cli.Rounds
import PolyOnTest.Cli.Progress
import PolyOnTest.Cli.EndToEnd
import PolyOnTest.Cli.Boards
import PolyOnTest.CodeLib.Xml
import PolyOnTest.Builtins.JunitDocument
import PolyOnTest.CodeLib.FlatMemory
import PolyOnTest.CodeLib.WordMemory
import PolyOnTest.Target.Syscalls
import PolyOnTest.Target.Startup
import PolyOnTest.Target.Registration
import PolyOnTest.Target.Boot
import PolyOnTest.Target.Main
import PolyOnTest.CodeLib.Lockstep
import PolyOnTest.Harness.Profiles
import PolyOnTest.Run.Profiles
import PolyOnTest.Builtins.Console
import PolyOnTest.Cli.Terminal
import PolyOnTest.Run.HeapCases
