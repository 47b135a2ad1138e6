import SdcoreNest.UploadedFile.ChangeFiles
import SdcoreNest.UploadedFile.FaultFree
import SdcoreNest.UploadedFile.Fencing
import SdcoreNest.UploadedFile.Finishing
import SdcoreNest.UploadedFile.ManagedUpload
import SdcoreNest.UploadedFile.Noninterference
import SdcoreNest.UploadedFile.OoxmlContainer
import SdcoreNest.UploadedFile.Orphans
import SdcoreNest.UploadedFile.Published
import SdcoreNest.UploadedFile.BoundedSweeps
import SdcoreNest.UploadedFile.Recovery
import SdcoreNest.UploadedFile.SignedUrls
import SdcoreNest.UploadedFile.Staging
import SdcoreNest.UploadedFile.StatusMachine
import SdcoreNest.UploadedFile.Usage
import SdcoreNest.UploadedFile.Visibility
import SdcoreNest.Http.TrustedOrigins
import SdcoreNest.JobScheduler.Exclusivity
import SdcoreNest.JobScheduler.Identity
import SdcoreNest.JobScheduler.LiveLease
import SdcoreNest.RemoteFetch.Fetcher
import SdcoreNest.RemoteFetch.Classification
import SdcoreNest.Auth.Residue
import SdcoreNest.Cache.Interceptor
import SdcoreNest.Cache.MemoryBackend
import SdcoreNest.Cache.Responses
import SdcoreNest.Cache.Progress
import SdcoreNest.Orm.RelationPaths
import SdcoreNest.Orm.ReadIsolation
import SdcoreNest.Orm.Simulation
import SdcoreNest.Publication.Descriptors
import SdcoreNest.Publication.Safety
import SdcoreNest.UploadedFile.Validators
import SdcoreNest.Utils.SingleFlight
import SdcoreNest.ActionHistory.Redaction
import SdcoreNest.ActionHistory.Copies
import SdcoreNest.I18n.AcceptLanguage
import SdcoreNest.UploadedFile.StorageKeys
import SdcoreNest.UploadedFile.Containment
import SdcoreNest.UploadedFile.LocalStore
import SdcoreNest.Publication.Recovery
