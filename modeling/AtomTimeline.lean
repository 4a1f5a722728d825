import AtomTimeline.Files.Folder
import AtomTimeline.Main
import AtomTimeline.Proofs.Packet.Singleton
import AtomTimeline.Proofs.Sorter.StableOrder
import AtomTimeline.Proofs.Tables.Strings
import AtomTimeline.Proofs.Statsd.AtomMeaning
import AtomTimeline.Proofs.Statsd.Recording
import AtomTimeline.Proofs.Tables.Exports
import AtomTimeline.Proofs.Statsd.Splitting
import AtomTimeline.Proofs.Session.Draining
import AtomTimeline.Proofs.Session.Registering
import AtomTimeline.Proofs.Session.AtomQueue
import AtomTimeline.Proofs.Session.AtomImport
import AtomTimeline.Proofs.Session.Watching
import AtomTimeline.Proofs.Session.Handover
import AtomTimeline.Proofs.Schema.BuiltPools
import AtomTimeline.Proofs.Text.Utf8RoundTrip
import AtomTimeline.Proofs.Wire.SignedIntegers
import AtomTimeline.Proofs.Args.MessageValues
import AtomTimeline.Proofs.Args.RoundTrip
import AtomTimeline.Proofs.Args.Widening
import AtomTimeline.Proofs.Wire.VarintPieces
import AtomTimeline.Proofs.Args.Conformance
import AtomTimeline.Proofs.Args.Walk
import AtomTimeline.Proofs.Schema.FailedAdditions
import AtomTimeline.Proofs.Statsd.UnknownAtoms
import AtomTimeline.Proofs.Session.AtomRuns
import AtomTimeline.Proofs.Wire.Grammar
import AtomTimeline.Proofs.Wire.Iteration
import AtomTimeline.Proofs.Trace.Packets
import AtomTimeline.Proofs.Session.LinkedTables
import AtomTimeline.Proofs.Statsd.Tallies
import AtomTimeline.Proofs.Session.TwoPasses
import AtomTimeline.Proofs.Sorter.PriorityQueue
import AtomTimeline.Proofs.Statsd.BatchSplit
import AtomTimeline.Proofs.Statsd.WithoutMemory
import AtomTimeline.Proofs.Trace.Fields
import AtomTimeline.Proofs.Trace.Cuts
import AtomTimeline.Proofs.Session.CutTraces
import AtomTimeline.Proofs.Args.Edits
import AtomTimeline.Proofs.Args.KeyText
import AtomTimeline.Proofs.Args.PlacedMessages
import AtomTimeline.Proofs.Args.DeliveredKeys
import AtomTimeline.Proofs.Args.FieldByField
import AtomTimeline.Proofs.Wire.NormalForm
import AtomTimeline.Proofs.Args.Truncation
import AtomTimeline.Proofs.Packet.Layouts
import AtomTimeline.Proofs.Session.MalformedPackets
import AtomTimeline.Proofs.Session.Offers
import AtomTimeline.Proofs.Schema.RelativeNames
import AtomTimeline.Proofs.Schema.Declarations
import AtomTimeline.Proofs.Schema.Rearrangements
import AtomTimeline.Proofs.Schema.IndexedPools
import AtomTimeline.Proofs.Schema.IndexedAnswers
import AtomTimeline.Proofs.Session.Owners
import AtomTimeline.Proofs.Statsd.UntypedAtoms
import AtomTimeline.Proofs.Tables.Operations
import AtomTimeline.Proofs.Tables.ReportedSlices
import AtomTimeline.Proofs.Tables.SlicesOnTracks
import AtomTimeline.Proofs.Packet.Concatenation
import AtomTimeline.Proofs.Args.Delivery
import AtomTimeline.Proofs.Statsd.InsertedArgs
import AtomTimeline.Proofs.Wire.VarintLoops
import AtomTimeline.Proofs.Tables.StringNumbers
import AtomTimeline.Proofs.Report.Columns
