import Tape.Dict
import Tape.Run
import Tape.Keyed
import Tape.Sorted
import Tape.Wire.Fixedpoint
import Tape.Wire.Numerals
import Tape.Wire.Messages
import Tape.Book.Basic
import Tape.Book.Invariant
import Tape.Book.Change
import Tape.Book.Keyframe
import Tape.Book.Alike
import Tape.Book.History
import Tape.Book.Event
import Tape.Recorder.Gaps
import Tape.Recorder.GapRanges
import Tape.Recorder.Planner
import Tape.Recorder.PlanDiff
import Tape.Recorder.Planning
import Tape.Recorder.Supervisor
import Tape.Recorder.Record
import Tape.Recorder.Serving
import Tape.Recorder.Feed
import Tape.Recorder.Losses
import Tape.Recorder.Undecodable
import Tape.Recorder.Replays
import Tape.Store.Tables
import Tape.Store.Replay
import Tape.Store.Order
import Tape.Store.Recall
import Tape.Store.Timeline
import Tape.Store.Agreement
import Tape.Bus.Envelope
import Tape.Bus.LiveBooks
import Tape.Bus.Publisher
import Tape.Bus.Soundness
import Tape.Bus.Recorder
import Tape.Recorder.Connection
import Tape.Recorder.Discipline
import Tape.Recorder.Reconciling
import Tape.Recorder.Subscriptions
import Tape.Recorder.Freshness
import Tape.Recorder.Resyncs
import Tape.Recorder.Additions
import Tape.Recorder.Commands
import Tape.Recorder.Sizes
import Tape.Recorder.Batches
import Tape.Bytes
import Tape.Segment.Format
import Tape.Segment.Reader
import Tape.Recorder.Writer
import Tape.Recorder.SinkFiles
import Tape.Recorder.SinkQueue
import Tape.Recorder.SinkTape
import Tape.Recorder.Tap
import Tape.Store.Boots
import Tape.Universe.Market
import Tape.Universe.Select
import Tape.Universe.Choice
import Tape.Universe.Accounting
import Tape.Universe.Pinning
import Tape.Universe.Arrival
import Tape.Page.Quiet
import Tape.Page.Reconnects
import Tape.Page.Flushes
import Tape.Page.Settling
import Tape.Tally
import Tape.Wire.Convert
import Tape.Bake.Tables
import Tape.Bake.Facts
import Tape.Bake.Interpret
import Tape.Bake.Accounting
import Tape.Bake.Conservation
import Tape.Client.Bucket
import Tape.Client.Limiter
import Tape.Nearest
import Tape.Book.Diff
import Tape.Book.Checksum
import Tape.Recorder.Auditor
import Tape.Intervals
import Tape.Bake.Layout
import Tape.Bake.Uptime
import Tape.Bake.Spill
import Tape.Bake.Spilled
import Tape.Bake.Manifest
import Tape.Bake.Merging
import Tape.Bake.Prune
import Tape.Bake.Pruning
import Tape.Store.Keyframes
import Tape.Bake.Gaps
import Tape.Universe.Loop
import Tape.Universe.Sound
import Tape.Universe.Progress
import Tape.Universe.Settled
import Tape.Web.Book
import Tape.Web.BookAgreement
import Tape.Api.Session
import Tape.Api.Hub
import Tape.Api.Queues
import Tape.Api.Followers
import Tape.Api.Metadata
import Tape.Api.MetadataQueue
import Tape.Web.DepthHistory
import Tape.Web.Ranges
import Tape.Web.Uploads
import Tape.Web.TapeStore
import Tape.Web.DepthRing
import Tape.Web.RowTotals
import Tape.Web.Drawing
import Tape.Rotation
import Tape.Recorder.AuditRotation
import Tape.Recorder.Tapping
import Tape.Recorder.TapSoundness
import Tape.Store.Sequence
import Tape.Store.AnyOrder
import Tape.Web.Heatmap
import Tape.Bake.Books
import Tape.Bake.BookTime
import Tape.Bake.Readable
import Tape.Recorder.Built
import Tape.Bake.Columns
import Tape.Bus.Mirrored
import Tape.Api.Client
import Tape.Api.FanOut
import Tape.Api.Convergence
import Tape.Bake.Disk
import Tape.Bake.Directories
import Tape.Bake.Repair
import Tape.Bake.Archiving
import Tape.Bake.Retained
import Tape.Bake.Frozen
import Tape.Bake.BakeArchive
import Tape.Bake.Unrecorded
import Tape.Json
import Tape.Api.Contract
import Tape.Page.Decode
import Tape.Page.Decoded
import Tape.Page.DecodedRest
import Tape.Book.Within
import Tape.Api.Delivered
import Tape.Api.Directory
import Tape.Api.Listing
import Tape.Page.Rest
import Tape.Window
import Tape.Api.Limits
import Tape.Bake.Ready
import Tape.Bake.Resumed
