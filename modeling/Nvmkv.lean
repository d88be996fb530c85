import Nvmkv.Interleaving
import Nvmkv.ProbeAddresses
import Nvmkv.ReadPath
import Nvmkv.LonePut
import Nvmkv.LoneRead
import Nvmkv.LoneDelete
import Nvmkv.WriteVectors
import Nvmkv.StoredPairs
import Nvmkv.RoundTrip
import Nvmkv.ExactReads
import Nvmkv.ReplaceRoundTrip
import Nvmkv.Bitmap
import Nvmkv.PoolManager
import Nvmkv.PoolBookkeeping
import Nvmkv.PoolRestart
import Nvmkv.ExpiryPass
import Nvmkv.LogicalRanges
import Nvmkv.PoolDeletion
import Nvmkv.PoolDeletionScan
import Nvmkv.PoolDeletionCompletes
import Nvmkv.BatchCalls
import Nvmkv.LockOrder
import Nvmkv.ReadingCalls
import Nvmkv.SafeListOrder
import Nvmkv.SafeListOutlines
import Nvmkv.SafeListOwnership
import Nvmkv.BatchOwnership
import Nvmkv.CacheCoherence
import Nvmkv.LiftedPrograms
import Nvmkv.SearchingCalls
import Nvmkv.AsyncExpiry
import Nvmkv.ExpirySparesLive
import Nvmkv.LookupsAgree
import Nvmkv.PutGetRoundTrip
import Nvmkv.ExactReadsAgree
import Nvmkv.BatchAtomicity
import Nvmkv.ReopenedLayout
import Nvmkv.CreationCrash
import Nvmkv.PreparedVectors
import Nvmkv.StoreIdentity
import Nvmkv.ForgedPairs
import Nvmkv.IterationRuns
import Nvmkv.IterationExact
import Nvmkv.BufferPool
import Nvmkv.BufferedCalls
import Nvmkv.BufferOwnership
import Nvmkv.ProbeSequence
import Nvmkv.AddressDecoding
import Nvmkv.PairExtents
import Nvmkv.DeviceSearch
import Nvmkv.FindablePlacement
import Nvmkv.SlotSeparation
import Nvmkv.TrimVectors
import Nvmkv.PutLocks
import Nvmkv.BatchRounds
import Nvmkv.BatchLocks
import Nvmkv.SelfWaits
import Nvmkv.BatchAssignment
import Nvmkv.AlignmentTransparency
import Nvmkv.SequentialRuns
import Nvmkv.UniqueKeys
import Nvmkv.PairFrames
import Nvmkv.CacheProbing
import Nvmkv.CacheRuns
import Nvmkv.PoolTags
import Nvmkv.PoolMutex
import Nvmkv.PoolEnumeration
import Nvmkv.IterationEnd
import Nvmkv.BatchNewKeys
import Nvmkv.RepeatedKeys
import Nvmkv.SlotOutlines
import Nvmkv.ConcurrentPuts
import Nvmkv.SameKeyPuts
import Nvmkv.PutRaces
import Nvmkv.ConcurrentDeletes
import Nvmkv.DeleteRanges
import Nvmkv.PoolTagBatches
import Nvmkv.BlockQueues
import Nvmkv.ExpiryQueue
import Nvmkv.ExpiryTimes
import Nvmkv.DeleteAllKeys
import Nvmkv.AllPoolsIteration
import Nvmkv.ExistsErrors
import Nvmkv.IteratorSlots
import Nvmkv.GetBounds
import Nvmkv.CurrentBounds
import Nvmkv.BitmapSearches
import Nvmkv.PoolStatusReads
import Nvmkv.CacheIndices
import Nvmkv.MetadataRegions
import Nvmkv.BufferAccounts
import Nvmkv.SyncList
import Nvmkv.ValueLengths
import Nvmkv.ConfinedDeletion
import Nvmkv.KeyedMaps
import Nvmkv.PoolAsMap
import Nvmkv.TiledPools
import Nvmkv.MapListing
import Nvmkv.StoreInfo
import Nvmkv.DeleteAll
import Nvmkv.Monitors
import Nvmkv.MonitoredPrograms
import Nvmkv.ExpiryMonitor
import Nvmkv.BufferWakeUps
import Nvmkv.UndisturbedCalls
import Nvmkv.SoundCaches
