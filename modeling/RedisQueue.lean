import RedisQueue.SchedulingTheorems
import RedisQueue.AbandonedDependents
import RedisQueue.AbandonedAccounts
import RedisQueue.ConflictTheorems
import RedisQueue.DeletionTheorems
import RedisQueue.ExecutionRuns
import RedisQueue.Enqueueing
import RedisQueue.BatchOrder
import RedisQueue.GroupTheorems
import RedisQueue.Cron
import RedisQueue.SchedulerLocks
import RedisQueue.ScriptRefinement
import RedisQueue.Effects
import RedisQueue.Footprints
import RedisQueue.WorkerFootprints
import RedisQueue.PendingJobs
import RedisQueue.Heartbeats
import RedisQueue.Dequeueing
import RedisQueue.WorkerPool
import RedisQueue.CronSchedulers
import RedisQueue.SchedulerTicks
import RedisQueue.JobTraces
import RedisQueue.JobRuns
import RedisQueue.JobCourses
import RedisQueue.RetryRuns
import RedisQueue.RepeatRuns
import RedisQueue.Requeues
import RedisQueue.BatchResults
import RedisQueue.Deferrals
import RedisQueue.CommandLine
import RedisQueue.FunctionReferences
import RedisQueue.LazyData
import RedisQueue.BulkFetch
import RedisQueue.ScheduleTimes
import RedisQueue.Lib.Refill
import RedisQueue.Compaction
import RedisQueue.JobPlaces
import RedisQueue.Cancellations
import RedisQueue.Custody
import RedisQueue.Metadata
import RedisQueue.MetadataOutcomes
import RedisQueue.MetadataTheorems
import RedisQueue.RedisKeys
import RedisQueue.GroupRegistries
import RedisQueue.ReadinessSplit
import RedisQueue.RegisteredQueues
import RedisQueue.WorkerRegistration
import RedisQueue.ResultRecords
import RedisQueue.SchedulerFleet
import RedisQueue.SchedulerSimulation
import RedisQueue.CronFleet
import RedisQueue.CronSimulation
import RedisQueue.CronLoop
import RedisQueue.CronRecords
import RedisQueue.WorkLoopRuns
import RedisQueue.StopCommands
import RedisQueue.WorkerListings
import RedisQueue.WorkerPoolSizes
import RedisQueue.QueueContents
