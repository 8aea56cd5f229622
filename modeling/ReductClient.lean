import ReductClient.Bucket.AttachmentFold
import ReductClient.Bucket.AttachmentMap
import ReductClient.Bucket.AttachmentQuery
import ReductClient.Bucket.BatchCalls
import ReductClient.Bucket.BatchRoundTrip
import ReductClient.Bucket.Capability
import ReductClient.Bucket.EndFlag
import ReductClient.Bucket.Fallback
import ReductClient.Bucket.Identity
import ReductClient.Bucket.InlineRefinement
import ReductClient.Bucket.Query
import ReductClient.Bucket.QueryLinks
import ReductClient.Bucket.QueryProgress
import ReductClient.Bucket.ReadPolicies
import ReductClient.Bucket.ReadTermination
import ReductClient.Bucket.Reassembly
import ReductClient.Bucket.Requests
import ReductClient.Bucket.SharedHandle
import ReductClient.Bucket.SharedWorker
import ReductClient.Bucket.SingleRecord
import ReductClient.Bucket.SingleRoundTrip
import ReductClient.Bucket.Streaming
import ReductClient.Bucket.TimeOrder
import ReductClient.Bucket.Upload
import ReductClient.Bucket.WorkerThread
import ReductClient.Bucket.Workers
import ReductClient.Client.Buckets
import ReductClient.Client.Handles
import ReductClient.Client.Reports
import ReductClient.Client.Tokens
import ReductClient.Internal.Addressing
import ReductClient.Internal.DecoderAgreement
import ReductClient.Internal.DecoderFold
import ReductClient.Internal.EntryNames
import ReductClient.Internal.ErrorReports
import ReductClient.Internal.ExactTimes
import ReductClient.Internal.Framing
import ReductClient.Internal.HeaderIndices
import ReductClient.Internal.MalformedHeaders
import ReductClient.Internal.PercentDecoding
import ReductClient.Internal.ProtocolAgreement
import ReductClient.Internal.QuotedLabels
import ReductClient.Internal.RecordNames
import ReductClient.Internal.RoundTrip
import ReductClient.Internal.SettingsRoundTrip
import ReductClient.Internal.Url
import ReductClient.Internal.VersionParsers
