import RedisCore.AofPrefixes
import RedisCore.AofRewrite
import RedisCore.BacklogRuns
import RedisCore.BitOperations
import RedisCore.BitRanges
import RedisCore.BitfieldRuns
import RedisCore.BlockingRuns
import RedisCore.ClusterEpochs
import RedisCore.ClusterMigration
import RedisCore.ClusterQuorum
import RedisCore.ClusterSafety
import RedisCore.CollectionRuns
import RedisCore.Crc64
import RedisCore.DictIteration
import RedisCore.DictOldScan
import RedisCore.DictScan
import RedisCore.DisklessLoad
import RedisCore.EvictionPool
import RedisCore.ExpireTimes
import RedisCore.FailureQuorum
import RedisCore.GeohashAreas
import RedisCore.GlobMatch
import RedisCore.IntegerIncrements
import RedisCore.IntegerText
import RedisCore.IntsetRuns
import RedisCore.KeyExtraction
import RedisCore.ListPositions
import RedisCore.ListpackLimit
import RedisCore.ListpackRefinement
import RedisCore.ListpackSeek
import RedisCore.LzfRoundTrip
import RedisCore.MasterStream
import RedisCore.MemoryValues
import RedisCore.Pqsort
import RedisCore.PubsubRuns
import RedisCore.QuicklistInsert
import RedisCore.RaxRecompression
import RedisCore.RdbCodec
import RedisCore.SdsRuns
import RedisCore.SetAlgebra
import RedisCore.SetIntersection
import RedisCore.SkiplistRefinement
import RedisCore.SplitArgsLoops
import RedisCore.StralgoReply
import RedisCore.StringRange
import RedisCore.StringWrites
import RedisCore.TimeoutRuns
import RedisCore.TrackingRuns
import RedisCore.UnsignedText
import RedisCore.WatchExec
import RedisCore.ZiplistCursor
import RedisCore.ZiplistOldInsert
import RedisCore.ZiplistRefinement
import RedisCore.ZiplistSeam
import RedisCore.ZiplistSizes
import RedisCore.ZiplistWalks
import RedisCore.ZipmapRuns
