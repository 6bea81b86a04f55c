import AnalyticsPipeline.Guarantees.BatchResponses
import AnalyticsPipeline.Guarantees.CacheKeys
import AnalyticsPipeline.Guarantees.CacheTransparency
import AnalyticsPipeline.Guarantees.ColumnDomains
import AnalyticsPipeline.Guarantees.CompactionRace
import AnalyticsPipeline.Guarantees.Degradation
import AnalyticsPipeline.Guarantees.Draining
import AnalyticsPipeline.Guarantees.HealthReport
import AnalyticsPipeline.Guarantees.Idempotency
import AnalyticsPipeline.Guarantees.IngestRequests
import AnalyticsPipeline.Guarantees.LeaderboardHealing
import AnalyticsPipeline.Guarantees.LeaderboardHistory
import AnalyticsPipeline.Guarantees.LogReplay
import AnalyticsPipeline.Guarantees.MetricsBounds
import AnalyticsPipeline.Guarantees.Migration
import AnalyticsPipeline.Guarantees.PartitionSchedule
import AnalyticsPipeline.Guarantees.Partitioning
import AnalyticsPipeline.Guarantees.RebuildRaces
import AnalyticsPipeline.Guarantees.RegularReads
import AnalyticsPipeline.Guarantees.RequestsComplete
import AnalyticsPipeline.Guarantees.Resubmission
import AnalyticsPipeline.Guarantees.SchemaCycles
import AnalyticsPipeline.Guarantees.SparklineScan
import AnalyticsPipeline.Guarantees.UpsertAgreement
import AnalyticsPipeline.Guarantees.Widening
import AnalyticsPipeline.Guarantees.Windows
import AnalyticsPipeline.Guarantees.WorkerLoops
