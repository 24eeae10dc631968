import MediafireSdk.Uploader.Errors
import MediafireSdk.Uploader.Quiet
import MediafireSdk.Uploader.UploadKey
import MediafireSdk.Uploader.Wakeups
import MediafireSdk.Http.ContentLength
import MediafireSdk.Http.TruncatedChunks
import MediafireSdk.Api.Completions
import MediafireSdk.Api.Delivery
import MediafireSdk.Api.Agreement
import MediafireSdk.Api.KeySchedule
import MediafireSdk.Api.Deadlines
import MediafireSdk.Api.Throttle
import MediafireSdk.Api.Stalls
import MediafireSdk.Api.Budget
import MediafireSdk.Api.OldCredentials
import MediafireSdk.Api.ResponseBase
import MediafireSdk.Http.HeaderBlocks
import MediafireSdk.Http.Terminal
import MediafireSdk.Utils.UrlEncode
import MediafireSdk.Uploader.Bitmap
import MediafireSdk.Actions.PollForeignChanges
import MediafireSdk.Actions.WholeTree
import MediafireSdk.Http.SentWhole
import MediafireSdk.Uploader.PostTransfer
import MediafireSdk.Http.ShortContent
import MediafireSdk.Http.IncomingBytes
import MediafireSdk.Http.ChunkFraming
import MediafireSdk.Http.Urls
import MediafireSdk.Http.UrlParts
import MediafireSdk.Http.RedirectUrls
import MediafireSdk.Http.RedirectTargets
import MediafireSdk.Http.HeaderFields
import MediafireSdk.Http.RequestHead
import MediafireSdk.Api.SignedQueries
import MediafireSdk.Http.TimeoutRaces
import MediafireSdk.Http.RedirectPolicies
import MediafireSdk.Http.ProxyCredentials
import MediafireSdk.Http.Overtaking
import MediafireSdk.Utils.TimedService
import MediafireSdk.Utils.CanonicalBase64
import MediafireSdk.Utils.PercentGrammar
import MediafireSdk.Utils.ContainerAlgorithms
import MediafireSdk.Utils.ReadString
import MediafireSdk.Utils.ReadLine
import MediafireSdk.Actions.GetChangesDevice
import MediafireSdk.Actions.ForeignWindows
import MediafireSdk.Actions.FolderListing
import MediafireSdk.Actions.ExecuteWork
import MediafireSdk.Http.Bodies
import MediafireSdk.Http.Sockets
import MediafireSdk.Actions.PollChanges
import MediafireSdk.Uploader.Provenance
import MediafireSdk.Uploader.Progress
