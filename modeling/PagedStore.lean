import PagedStore.Action
import PagedStore.Bytes
import PagedStore.Catalog
import PagedStore.Disk.Basic
import PagedStore.Disk.Path
import PagedStore.Disk.SparseBytes
import PagedStore.Error
import PagedStore.Eviction.Builtin
import PagedStore.Eviction.Logged
import PagedStore.Eviction.LruK
import PagedStore.Eviction.Policy
import PagedStore.Eviction.Random
import PagedStore.HeapFile
import PagedStore.Id
import PagedStore.Keyed
import PagedStore.Limits
import PagedStore.Page.Basic
import PagedStore.Page.Bitmap
import PagedStore.Page.Geometry
import PagedStore.Page.Image
import PagedStore.Pool
import PagedStore.Proofs.Cache.Agreement
import PagedStore.Proofs.Cache.Coherence
import PagedStore.Proofs.Cache.Flushing
import PagedStore.Proofs.Cache.Moves
import PagedStore.Proofs.Cache.Reference
import PagedStore.Proofs.Cache.Refinement
import PagedStore.Proofs.Cache.Rows
import PagedStore.Proofs.Copy.Landing
import PagedStore.Proofs.Copy.Layout
import PagedStore.Proofs.Copy.Selection
import PagedStore.Proofs.Copy.SelfCopy
import PagedStore.Proofs.Copy.Turns
import PagedStore.Proofs.Durability
import PagedStore.Proofs.Outcome
import PagedStore.Proofs.Page.Formed
import PagedStore.Proofs.Page.RoundTrip
import PagedStore.Proofs.Pool.Echo
import PagedStore.Proofs.Pool.Motion
import PagedStore.Proofs.Pool.Requests
import PagedStore.Proofs.Pool.RowChanges
import PagedStore.Proofs.Query.Calls
import PagedStore.Proofs.Query.Denotation
import PagedStore.Proofs.Query.FailedOpen
import PagedStore.Proofs.Query.FirstFailure
import PagedStore.Proofs.Query.ListCursor
import PagedStore.Proofs.Query.Summaries
import PagedStore.Proofs.Query.Supply
import PagedStore.Proofs.Scan.Cells
import PagedStore.Proofs.Scan.Cursor
import PagedStore.Proofs.Scan.Drain
import PagedStore.Proofs.Scan.Fetching
import PagedStore.Proofs.Scan.Interleaving
import PagedStore.Proofs.Scan.Listing
import PagedStore.Proofs.Transparency
import PagedStore.Proofs.WholeFile
import PagedStore.Query.AggregateFunction
import PagedStore.Query.Aggregator
import PagedStore.Query.Operator
import PagedStore.Query.Plan
import PagedStore.Query.Predicate
import PagedStore.Query.Stage
import PagedStore.Row.Basic
import PagedStore.Row.Codec
import PagedStore.Schema.Basic
import PagedStore.Schema.Fields
import PagedStore.Store.Basic
import PagedStore.Store.Beside
import PagedStore.Store.Cache
import PagedStore.Store.Cursor
import PagedStore.Store.Rows
import PagedStore.Text
import PagedStore.Value.Basic
import PagedStore.Value.Codec
import PagedStore.Value.Order
import PagedStore.Proofs.Pool.Bookkeeping
import PagedStore.Proofs.Disjoint
import PagedStore.Proofs.Pool.Orderly
import PagedStore.Proofs.Eviction.Recency
import PagedStore.Proofs.Pool.AnyOrder
import PagedStore.Proofs.Pool.Backing
import PagedStore.Proofs.Pool.OwnChanges
import PagedStore.Proofs.Pool.Refusals
import PagedStore.Proofs.Query.ResultTypes
import PagedStore.Proofs.Query.TypeSoundness
import PagedStore.Proofs.Pool.Standstill
import PagedStore.Proofs.Query.CountRow
import PagedStore.Proofs.Pool.FailedInsert
import PagedStore.Proofs.Cache.FirstFit
import PagedStore.Proofs.Query.Merging
import PagedStore.Proofs.Eviction.BackwardDistance
import PagedStore.Proofs.Page.PartialMap
import PagedStore.Proofs.Scan.Peeking
import PagedStore.Proofs.Query.Removal
import PagedStore.Proofs.Page.Records
import PagedStore.Proofs.Query.Averages
import PagedStore.Proofs.Row.FixedWidth
import PagedStore.Proofs.PageArray
import PagedStore.Proofs.Registry
import PagedStore.Proofs.Pool.Sources
import PagedStore.Proofs.Pool.FirstRefusal
import PagedStore.Proofs.Query.Relisted
import PagedStore.Proofs.Page.InBounds
