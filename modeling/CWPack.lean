import CWPack.Foundation.BigEndian
import CWPack.Foundation.Memory
import CWPack.Foundation.Outcome
import CWPack.Foundation.Loops
import CWPack.Foundation.Nesting
import CWPack.Foundation.Trail
import CWPack.Foundation.ByteOrder
import CWPack.Foundation.Numeral
import CWPack.Foundation.Utf8
import CWPack.Foundation.Throwing
import CWPack.MessagePack.Format
import CWPack.MessagePack.Encode
import CWPack.MessagePack.Complete
import CWPack.Core.Types
import CWPack.Core.Pack
import CWPack.Core.Encoding
import CWPack.Core.Unpack
import CWPack.Core.Items
import CWPack.Core.Feed
import CWPack.Core.Reading
import CWPack.Core.Skipping
import CWPack.Core.Reader
import CWPack.Core.Spelling
import CWPack.Core.Approximation
import CWPack.Core.StaticUnpack
import CWPack.Core.StaticPack
import CWPack.Core.RoundTrip
import CWPack.Core.Trees
import CWPack.Core.Timestamps
import CWPack.Core.Accepted
import CWPack.Core.LookAhead
import CWPack.Core.Transparency
import CWPack.Core.SkipCount
import CWPack.Core.Canonical
import CWPack.Core.Bounds
import CWPack.Core.Sink
import CWPack.Core.Requests
import CWPack.Core.Upkeep
import CWPack.Core.Builds
import CWPack.Core.BuildRoutines
import CWPack.Goodies.Buffer
import CWPack.Goodies.DynamicMemory
import CWPack.Goodies.StreamPack
import CWPack.Goodies.FilePack
import CWPack.Goodies.FileUnpack
import CWPack.Goodies.Barrier
import CWPack.Goodies.Copies
import CWPack.Goodies.StreamUnpack
import CWPack.Goodies.StreamReads
import CWPack.Goodies.Pipelines
import CWPack.Goodies.Growth
import CWPack.Goodies.NumericExtensions
import CWPack.Goodies.ExtNumbers
import CWPack.Goodies.PackingCalls
import CWPack.Goodies.Compatible
import CWPack.Goodies.Utils
import CWPack.Goodies.IntegerExpect
import CWPack.Goodies.StoppedContext
import CWPack.Goodies.Dump
import CWPack.Goodies.DumpReads
import CWPack.Goodies.DumpEnds
import CWPack.Goodies.DumpText
import CWPack.Goodies.DumpPrints
import CWPack.ObjC.Objects
import CWPack.ObjC.PackContext
import CWPack.ObjC.Recording
import CWPack.ObjC.Framing
import CWPack.ObjC.Returns
import CWPack.ObjC.OneItem
import CWPack.ObjC.UnpackContext
import CWPack.ObjC.Trails
import CWPack.ObjC.Incoming
import CWPack.ObjC.Sharing
import CWPack.ObjC.GraphCopy
import CWPack.ObjC.GraphRoundTrip
import CWPack.ObjC.Decoded
import CWPack.Swift.Packable
import CWPack.Swift.Reading
import CWPack.Swift.RoundTrip
import CWPack.Swift.Packers
import CWPack.Swift.Optimised
import CWPack.Example.Item
import CWPack.Example.ItemFile
import CWPack.Example.Json
import CWPack.Example.JsonText
import CWPack.Example.JsonRead
import CWPack.Example.JsonPrint
import CWPack.Example.Program
