import Libjadx.Lib.Metered
import Libjadx.Lib.UnionFind
import Libjadx.Proof.Component
import Libjadx.Proof.Signature
import Libjadx.Proof.Families
import Libjadx.Proof.Descriptor
import Libjadx.Proof.Partition
import Libjadx.Lib.Locked
import Libjadx.Spec.Jobs
import Libjadx.Spec.Registry
import Libjadx.Spec.Scheduler
import Libjadx.Spec.Ledger
import Libjadx.Proof.Ledger
import Libjadx.Proof.Registry
import Libjadx.Proof.Scheduler
import Libjadx.Spec.Document
import Libjadx.Spec.Repository
import Libjadx.Lib.Lru
import Libjadx.Spec.SearchIndex
import Libjadx.Proof.SearchIndex
import Libjadx.Proof.Coordinator
import Libjadx.Proof.Repository
import Libjadx.Proof.Sections
import Libjadx.Proof.Acts
import Libjadx.Proof.Waiting
import Libjadx.Proof.Stream
import Libjadx.Spec.Signals
import Libjadx.Proof.Signals
import Libjadx.Spec.Runtime
import Libjadx.Spec.System
import Libjadx.Proof.Revisions
import Libjadx.Proof.Threads
import Libjadx.Proof.Runtime
import Libjadx.Proof.System
import Libjadx.Lib.Utf8
import Libjadx.Spec.Sse
import Libjadx.Proof.Sse
import Libjadx.Spec.Bytes
import Libjadx.Proof.EventStream
import Libjadx.Lib.Base64
import Libjadx.Spec.Token
import Libjadx.Spec.SymbolCatalog
import Libjadx.Proof.Catalog
import Libjadx.Lib.DataStream
import Libjadx.Spec.SearchService
import Libjadx.Proof.SearchPages
import Libjadx.Proof.Bound
import Libjadx.Spec.References
import Libjadx.Proof.References
import Libjadx.Lib.Members
import Libjadx.Spec.UnixPath
import Libjadx.Spec.NativeProject
import Libjadx.Proof.NativeProject
import Libjadx.Proof.Bounded
import Libjadx.Proof.Touch
import Libjadx.Proof.Announced
import Libjadx.Proof.Order
import Libjadx.Proof.Progress
import Libjadx.Proof.RevisionCache
import Libjadx.Lib.Scan
import Libjadx.Spec.SearchMatches
import Libjadx.Proof.SearchMatches
import Libjadx.Lib.MapOrder
import Libjadx.Proof.SearchOrder
import Libjadx.Spec.PersistedIdentity
import Libjadx.Proof.PersistedIdentity
import Libjadx.Spec.SearchBuilds
import Libjadx.Proof.SearchBuilds
import Libjadx.Proof.UnixPath
import Libjadx.Spec.FileIdentity
import Libjadx.Proof.FileIdentity
import Libjadx.Proof.NativeEntries
import Libjadx.Proof.NativeEdits
import Libjadx.Spec.Descriptors
import Libjadx.Proof.Descriptors
import Libjadx.Proof.SourceCoordinates
import Libjadx.Lib.Leb128
import Libjadx.Proof.Leb
import Libjadx.Lib.Brackets
import Libjadx.Spec.JavaSource
import Libjadx.Spec.MethodRanges
import Libjadx.Proof.JavaSource
import Libjadx.Proof.MethodRanges
import Libjadx.Proof.CatchHeaders
import Libjadx.Spec.ControlFlow
import Libjadx.Proof.ControlFlow
import Libjadx.Proof.ControlFlowFacts
import Libjadx.Spec.DexInventory
import Libjadx.Proof.DexInventory
import Libjadx.Proof.DexQuotas
import Libjadx.Proof.TinyMappings
import Libjadx.Proof.Frames
import Libjadx.Proof.Runs
import Libjadx.Proof.Reads
