import TrtLlm.Blob.Revocation
import TrtLlm.Bounce.BypassBound
import TrtLlm.Bounce.QuarantineBudget
import TrtLlm.Bounce.ScatterPlan
import TrtLlm.Bounce.SenderCredits
import TrtLlm.Bounce.SenderResources
import TrtLlm.Bounce.WriteExclusion
import TrtLlm.CacheTransmission.RankAgreement
import TrtLlm.CacheTransmission.TransBufferWakeup
import TrtLlm.Disagg.ContextTransferConsensus
import TrtLlm.Disagg.PeerAnswers
import TrtLlm.Disagg.ReceiveEvidence
import TrtLlm.Disagg.RingMapper
import TrtLlm.Disagg.TerminationAgreement
import TrtLlm.KvCache.MultimodalContent
import TrtLlm.KvCache.NoEvictPool
import TrtLlm.KvCache.Rewind
import TrtLlm.KvCache.Truncate
import TrtLlm.KvCacheV2.AbsorbReuse
import TrtLlm.KvCacheV2.DigestPool
import TrtLlm.KvCacheV2.QuotaSymmetry
import TrtLlm.KvCacheV2.ShrinkSafety
import TrtLlm.KvCacheV2.StagingRing
import TrtLlm.Moe.ReplicationOptimal
import TrtLlm.Moe.ThreadSafety
import TrtLlm.Scheduler.AdpKvStarvation
import TrtLlm.Scheduler.AdpRouting
import TrtLlm.Scheduler.DraftTokenFit
import TrtLlm.Scheduler.GenAdmissionOrder
import TrtLlm.Scheduler.MaxUtilization
import TrtLlm.Scheduler.PrefixWait
import TrtLlm.SchedulerV2.BudgetSafety
import TrtLlm.SchedulerV2.ChunkProgress
import TrtLlm.Serve.RouterLoads
import TrtLlm.Sharing.ResumeBounds
