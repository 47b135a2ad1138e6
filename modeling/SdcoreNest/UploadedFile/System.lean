/-
# UploadedFile.System -- the service as a whole

Any number of processes run any number of requests and jobs over one database and
one object store.  `Request` lists what can be started, `launch` is its program,
and `Reachable` collects the states of the interleaved system.
-/
import SdcoreNest.UploadedFile.Maintenance
import SdcoreNest.UploadedFile.Requests
import SdcoreNest.UploadedFile.ServerUpload

namespace SdcoreNest.UploadedFile

open SdcoreNest.Theory

set_option autoImplicit false

inductive Request where
  | uploadLegacy (caller : Caller) (buffer : Bytes) (fileName : Option String)
      (meta? : MetaInput) (extraData : Option String) (options : UploadOptions)
  | uploadTemporaryLegacy (caller : Caller) (buffer : Bytes) (fileName : Option String)
      (options : UploadOptions)
  | uploadManaged (caller : Caller) (source : Source) (originalName : String)
      (context : MetaInput) (ownerId : Option Uuid) (options : UploadOptions) (temporary : Bool)
  | initiateUpload (caller : Caller) (input : InitiateInput)
  | initiateTemporaryUpload (caller : Caller) (input : InitiateInput)
  | putUploadContent (caller : Caller) (id : Option Uuid) (buffer : Bytes)
  | completeUpload (caller : Caller) (id : Option Uuid)
  | abortUpload (caller : Caller) (id : Option Uuid)
  | find (caller : Caller) (id : Option Uuid)
  | findById (caller : Caller) (id : Option Uuid)
  | resolveUrl (caller : Caller) (id : Option Uuid)
  | download (caller : Caller) (id : Option Uuid)
  | downloadAttached (caller : Caller) (id : Option Uuid) (attachment : Option Attachment)
  | setExtraData (caller : Caller) (id : Option Uuid) (extraData : Option String)
  | markUsed (caller : Caller) (ids : List (Option SentId)) (meta? : MetaInput)
  | useFiles (caller : Caller) (references : List String) (entity entityId : Option String)
  | delete (caller : Caller) (references : List String)
  | deleteById (caller : Caller) (id : Option Uuid)
  | changeFiles (caller : Caller) (olds news : List String) (entity entityId : Option String)
  | cleanupExpiredTemporaryFiles (now? : Option Int) (limit : Option Int)
  | cleanupPendingUploads (limit : Option Int)
  | unsafeSystemCleanupCompletedStaging (limit : Option Int)
  | unsafeSystemRetryPendingDeletions (limit : Option Int)
  | unsafeSystemRetireUploadTombstone (id : Option Uuid)
  | unsafeSystemPurgeUnusedBefore (cutoff : Int)

/-- What a request returns. -/
inductive Reply where
  | nothing
  | row (row : Row)
  | result (result : FileResult)
  | initiated (result : InitiateResult)
  | url (resolved : ResolvedUrl)
  | stream (stream : Stream)
  | count (rows : Nat)
  | flag (value : Bool)
deriving DecidableEq, Repr

abbrev Outcome := Except ServiceError Reply

/-- Wrap what a method returns. -/
def replying {α : Type} (wrap : α → Reply) (body : Service α) : Program sig Outcome :=
  (do let value ← body; pure (wrap value) : Service Reply).run

def launch (config : Config) : Request → Program sig Outcome
  | .uploadLegacy caller buffer fileName meta? extraData options =>
      replying .row (uploadLegacy config caller buffer fileName meta? extraData options)
  | .uploadTemporaryLegacy caller buffer fileName options =>
      replying .row (uploadTemporaryLegacy config caller buffer fileName options)
  | .uploadManaged caller source originalName context ownerId options temporary =>
      replying .result
        (uploadManaged config caller source originalName context ownerId options temporary)
  | .initiateUpload caller input => replying .initiated (initiateUpload config caller input)
  | .initiateTemporaryUpload caller input =>
      replying .initiated (initiateTemporaryUpload config caller input)
  | .putUploadContent caller id buffer =>
      replying .result (putUploadContent config caller id buffer)
  | .completeUpload caller id => replying .result (completeUpload config caller id)
  | .abortUpload caller id => replying (fun _ => .nothing) (abortUpload caller id)
  | .find caller id => replying .result (find config caller id)
  | .findById caller id => replying .row (findById caller id)
  | .resolveUrl caller id => replying .url (resolveUrl config caller id)
  | .download caller id => replying .stream (download caller id)
  | .downloadAttached caller id attachment =>
      replying .stream (downloadAttached caller id attachment)
  | .setExtraData caller id extraData =>
      replying (fun _ => .nothing) (setExtraData caller id extraData)
  | .markUsed caller ids meta? => replying (fun _ => .nothing) (markUsed config caller ids meta?)
  | .useFiles caller references entity entityId =>
      replying (fun _ => .nothing) (useFiles config caller references entity entityId)
  | .delete caller references =>
      replying (fun _ => .nothing) (delete config caller references)
  | .deleteById caller id => replying (fun _ => .nothing) (deleteById caller id)
  | .changeFiles caller olds news entity entityId =>
      replying (fun _ => .nothing) (changeFiles config caller olds news entity entityId)
  | .cleanupExpiredTemporaryFiles now? limit =>
      replying .count (cleanupExpiredTemporaryFiles now? limit)
  | .cleanupPendingUploads limit => replying .count (cleanupPendingUploads limit)
  | .unsafeSystemCleanupCompletedStaging limit =>
      replying .count (unsafeSystemCleanupCompletedStaging limit)
  | .unsafeSystemRetryPendingDeletions limit =>
      replying .count (unsafeSystemRetryPendingDeletions limit)
  | .unsafeSystemRetireUploadTombstone id =>
      replying .flag (unsafeSystemRetireUploadTombstone id)
  | .unsafeSystemPurgeUnusedBefore cutoff =>
      replying .count (unsafeSystemPurgeUnusedBefore cutoff)

/-- The interleaved system of a configuration. -/
abbrev system (config : Config) : Machine sig := machine config.toDeployment

abbrev SystemCore (config : Config) := Machine.Core (system config)

abbrev SystemConfig (config : Config) := Machine.Config (system config) Outcome Request

abbrev SystemLabel (config : Config) := Machine.Label (system config) Request

/-- Reachable from a fresh installation by steps that all meet `ok`. -/
abbrev ReachableIf (config : Config)
    (ok : SystemCore config → Machine.Act (system config) → Prop) (time : Int) :
    SystemConfig config → Prop :=
  Machine.Reach (launch config) ok (World.initial time)

/-- Reachable by any schedule, with any faults and clocks. -/
abbrev Reachable (config : Config) (time : Int) : SystemConfig config → Prop :=
  ReachableIf config (fun _ _ => True) time

/-- The state a schedule leads to from a fresh installation at time 0. -/
def after (config : Config) (labels : List (SystemLabel config))
    (check : SystemCore config → Machine.Act (system config) → Bool := fun _ _ => true) :
    Option (SystemConfig config) :=
  (Machine.Config.start (World.initial 0)).follow (launch config) check labels

theorem reachable_after {config : Config} {labels : List (SystemLabel config)}
    {state : SystemConfig config} (followed : after config labels = some state) :
    Reachable config 0 state :=
  Machine.reach_follow (launch config) (fun _ _ _ => trivial) .start followed

/-! ## A small installation, for concrete runs -/

def smallConfig (driver : Driver) : Config where
  driver := driver
  keyText key := key.name
  signedUploadUrl _ := "upload"
  signedDownloadUrl _ _ := "download"
  publicFiles := false
  allowPublicUploads := false
  defaultVisibility := .privateFile
  uploadUrlTtlSeconds := 3600
  privateDownloadUrlTtlSeconds := 300
  maxPrivateDownloadUrlTtlSeconds := 3600
  temporaryCleanupConfigured := true
  allowedMimeTypes := ["text/plain"]
  maxFileSizeBytes := 1000
  keyName := id
  publicUrl _ := "public"
  privateDownloadUrl _ := "private"
  localUploadUrl _ := "local"
  contentDisposition _ _ := "attachment"
  inferContentType _ := none
  essence := id
  lowerCase := id
  normalizeMime := id
  normalizeMeta _ := some {}
  normalizeChecksum := some
  validReference _ := true
  validateUploadMetadata name contentType size _ := some ⟨name, contentType, size⟩
  validateUploadBuffer buffer _ _ _ := some ⟨"a.txt", "text/plain", buffer.length⟩

/-- A user of tenant `t` who may do everything with their own files. -/
def smallCaller : Caller := ⟨some ⟨"t", none, 7⟩, fun _ _ _ => some .owner, fun _ _ => true⟩

/-- The schedule that answers the next `count` calls of a thread. -/
def answering {driver : Driver} (thread count : Nat) : List (SystemLabel (smallConfig driver)) :=
  List.replicate count (.issue .answer thread)

end SdcoreNest.UploadedFile
