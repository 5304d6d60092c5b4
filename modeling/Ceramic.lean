import Ceramic.Stream
import Ceramic.StreamHandlerCommon
import Ceramic.TileDocumentHandler
import Ceramic.Caip10LinkHandler
import Ceramic.ModelHandler
import Ceramic.ModelInstanceDocumentHandler
import Ceramic.AnchorTimestampExtractor
import Ceramic.HandlersMap
import Ceramic.StateManipulator
import Ceramic.StreamLoader
import Ceramic.RejectedCommit
import Ceramic.AppliedLog
import Ceramic.FailedAnchors
import Ceramic.LogResolution
import Ceramic.StateProvenance
import Ceramic.TimestampSimulation
import Ceramic.IncrementalSync
import Ceramic.NetworkTip
import Ceramic.Library.Tournament
import Ceramic.CommitTree
import Ceramic.Convergence
import Ceramic.ExecutionQueue
import Ceramic.StreamExclusion
import Ceramic.Library.ThreeValued
import Ceramic.QueryFilterParser
import Ceramic.QueryFilterConverter
import Ceramic.QueryFilterMeaning
import Ceramic.CommitChain
import Ceramic.Repository
import Ceramic.RepositoryTurns
import Ceramic.NoLostUpdate
import Ceramic.DatabaseIndexApi
import Ceramic.InsertionOrder
import Ceramic.Library.Pagination
import Ceramic.ForwardPagination
import Ceramic.IndexMirror
import Ceramic.MonotonicKey
import Ceramic.FeedAggregationStore
import Ceramic.ContinuousSync
import Ceramic.FeedCompleteness
import Ceramic.AnchorProcessingLoop
import Ceramic.AnchorRequests
import Ceramic.AnchorCommit
import Ceramic.CompletedAnchor
import Ceramic.IdText
import Ceramic.Library.LruCache
import Ceramic.IpldRecordsCache
import Ceramic.ContentDispatcher
import Ceramic.ContentIntegrity
import Ceramic.ReconEvents
import Ceramic.ReconRouting
import Ceramic.ReconCursor
import Ceramic.StateCache
import Ceramic.RepositoryUpdates
import Ceramic.UpdatesFreshness
import Ceramic.CacheDurability
import Ceramic.AnchorStatusKept
import Ceramic.Library.DecimalText
import Ceramic.BlockProofsLoader
import Ceramic.BlockListener
import Ceramic.SyncWorker
import Ceramic.StreamRefParsing
import Ceramic.CidParsing
import Ceramic.JsonCopy
import Ceramic.CommitSerialization
import Ceramic.MakeGenesis
import Ceramic.StateSerialization
import Ceramic.StoredStates
import Ceramic.Library.LinkedForest
import Ceramic.MerkleTree
import Ceramic.MerkleAnchor
import Ceramic.KVStores
import Ceramic.LogSyncing
import Ceramic.PrefixReplay
import Ceramic.ConflictOrder
import Ceramic.InsertionOrderPages
import Ceramic.BadTips
import Ceramic.TileControllers
import Ceramic.ImmutableFields
import Ceramic.Library.Separated
import Ceramic.SetRelation
import Ceramic.InterfaceSchemas
import Ceramic.Library.Kleene
import Ceramic.SchemaValidity
import Ceramic.InterfaceMatching
import Ceramic.FeedWakeUps
import Ceramic.BlocksProofsLoader
import Ceramic.KeyOrder
import Ceramic.PersistedState
import Ceramic.LaneRetries
import Ceramic.Library.Fetch
import Ceramic.PinCoverage
import Ceramic.PinBookkeeping
import Ceramic.BackwardPagination
import Ceramic.Library.Varint
import Ceramic.CanonicalBytes
import Ceramic.CanonicalTexts
import Ceramic.ModelInterfaces
import Ceramic.PubsubKeepalive
import Ceramic.KeepaliveBounds
import Ceramic.Library.PriorityQueue
import Ceramic.OutstandingQueries
import Ceramic.TipDeduplication
import Ceramic.MerkleShape
import Ceramic.LeafOrder
import Ceramic.MerkleProof
import Ceramic.LinkReplay
import Ceramic.InterfaceLoads
import Ceramic.ClosedSchemas
import Ceramic.ComparisonRows
import Ceramic.InterfaceTermination
import Ceramic.MatchingPairs
import Ceramic.InterfaceSoundness
import Ceramic.IndexConfiguration
import Ceramic.TablesAgreement
import Ceramic.EthereumAnchorValidator
import Ceramic.Library.Worklist
import Ceramic.MultiQuery
import Ceramic.LoadAtTime
import Ceramic.AcceptedFilters
import Ceramic.Library.SqlText
import Ceramic.SqlLiterals
import Ceramic.AnchorRequestStore
import Ceramic.AnchorRequestListing
import Ceramic.ThreeIdResolver
import Ceramic.VersionChain
import Ceramic.HistorySyncGate
import Ceramic.ProcessingLoop
import Ceramic.TileDocumentClient
import Ceramic.RebuildAnchor
import Ceramic.MerkleTreeLoader
import Ceramic.RebuiltAnchors
import Ceramic.ModelsToSync
import Ceramic.InterfacePreorder
import Ceramic.AnchorFinality
import Ceramic.Custody
import Ceramic.DocumentDelivery
import Ceramic.InstanceValidity
import Ceramic.PubsubNetwork
import Ceramic.StoppedModels
