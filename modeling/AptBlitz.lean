import AptBlitz.Library.Runs
import AptBlitz.Library.Tiling
import AptBlitz.Library.Tasks
import AptBlitz.Library.Eviction
import AptBlitz.Library.Paths
import AptBlitz.Library.FileContent
import AptBlitz.Library.WrittenBytes
import AptBlitz.Library.I64
import AptBlitz.Library.Reader
import AptBlitz.Library.SortedMap
import AptBlitz.Library.Levels
import AptBlitz.Library.Permits
import AptBlitz.Buffer
import AptBlitz.Claims
import AptBlitz.Completion
import AptBlitz.Stream
import AptBlitz.StreamRuns
import AptBlitz.StreamEnd
import AptBlitz.StreamThreads
import AptBlitz.StreamHoles
import AptBlitz.StreamTermination
import AptBlitz.Downloader
import AptBlitz.DownloaderRuns
import AptBlitz.DownloaderResults
import AptBlitz.DownloaderOrphans
import AptBlitz.ClaimedRanges
import AptBlitz.ContentRange
import AptBlitz.Library.Text
import AptBlitz.Library.TextRules
import AptBlitz.Library.Numerals
import AptBlitz.Library.Utf8
import AptBlitz.Library.Ipv4
import AptBlitz.Library.HostNames
import AptBlitz.Library.OsPaths
import AptBlitz.Pasv
import AptBlitz.PasvReplies
import AptBlitz.Ftp
import AptBlitz.FtpSteps
import AptBlitz.FtpRuns
import AptBlitz.FtpResults
import AptBlitz.FileBytes
import AptBlitz.DownloadedFile
import AptBlitz.FtpFile
import AptBlitz.RequestBounds
import AptBlitz.DownloadEnd
import AptBlitz.WorkerPermits
import AptBlitz.Delivery
import AptBlitz.DeliveredBodies
import AptBlitz.DeliveryEnd
import AptBlitz.CachedBodies
import AptBlitz.FtpRest
import AptBlitz.FtpReplies
import AptBlitz.FtpInStep
import AptBlitz.Coalescer
import AptBlitz.CoalescerMaps
import AptBlitz.Phases
import AptBlitz.Receivers
import AptBlitz.FtpUrl
import AptBlitz.FtpUrlParts
import AptBlitz.FtpSession
import AptBlitz.FtpPaths
import AptBlitz.Leader
import AptBlitz.LeaderRuns
import AptBlitz.Cache
import AptBlitz.CacheDisk
import AptBlitz.CacheRuns
import AptBlitz.CacheEviction
import AptBlitz.StoreErrors
import AptBlitz.Removal
import AptBlitz.Selectors
import AptBlitz.Info
import AptBlitz.FindFilter
import AptBlitz.Listing
import AptBlitz.ListingChildren
import AptBlitz.CacheTree
import AptBlitz.TreeTotals
import AptBlitz.HostRows
import AptBlitz.RowOrder
import AptBlitz.ListingBases
import AptBlitz.RecursiveListing
import AptBlitz.Freshness
import AptBlitz.Expiry
import AptBlitz.DirectiveCase
import AptBlitz.Serving
import AptBlitz.ServingRuns
import AptBlitz.ServingOrder
import AptBlitz.Bucket
import AptBlitz.BucketRuns
import AptBlitz.Refill
import AptBlitz.WaitConsume
import AptBlitz.WaitConsumeRuns
import AptBlitz.BucketAlone
import AptBlitz.WaitConsumeEnd
import AptBlitz.WaitTime
import AptBlitz.OneLeader
import AptBlitz.Cooldown
import AptBlitz.FailureCalls
import AptBlitz.IpLimiter
import AptBlitz.IpLimiterCalls
import AptBlitz.Responses
import AptBlitz.Simultaneous
import AptBlitz.SimultaneousRuns
import AptBlitz.Teardown
import AptBlitz.RetryBudgets
import AptBlitz.Metering
import AptBlitz.Dispatch
import AptBlitz.Targets
import AptBlitz.Aliases
import AptBlitz.Throttle
import AptBlitz.ThrottleRuns
import AptBlitz.ThrottleWakes
import AptBlitz.ThrottleDelays
import AptBlitz.ThrottlePending
import AptBlitz.IpBandwidth
import AptBlitz.ClientResponses
import AptBlitz.PlainProxy
import AptBlitz.Config
import AptBlitz.ByteSizes
import AptBlitz.ConfigAgreement
import AptBlitz.ConfigSettings
import AptBlitz.NoProxy
import AptBlitz.ProxyBypass
import AptBlitz.Connections
import AptBlitz.Tunnel
import AptBlitz.Authorities
