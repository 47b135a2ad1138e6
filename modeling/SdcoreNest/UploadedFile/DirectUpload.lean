/-
# UploadedFile.DirectUpload -- initiate, complete and abort a direct upload

A direct upload is a row with a staging key: the client stores the bytes under a
signed URL (or PUTs them to the local endpoint), `completeUpload` verifies them,
promotes the staging object to the final key under a completion lease and marks
the row ready.

`completeUpload` shares a running completion of the same process and id
(`completionPromises`); a caller that joins one takes no step of its own, so the
model lets every caller run its own completion.
-/
import SdcoreNest.UploadedFile.Service

namespace SdcoreNest.UploadedFile

open SdcoreNest.Theory

set_option autoImplicit false

section

variable (config : Config)

/-! ## Direct uploads -/

/-- The PUT a client is told to send: the URL, the staging key it addresses and the
headers it carries. -/
structure UploadTarget where
  url : String
  key : StorageKey
  contentType : String
  uploadId : Option Uuid
  checksum : Option String
deriving DecidableEq, Repr

/-- What `initiateManagedUpload` returns, `InitiateUploadedFileResult`. -/
structure InitiateResult where
  id : Uuid
  target : UploadTarget
  expiredAt : Int
deriving DecidableEq, Repr

structure InitiateOptions where
  access : Option Access := none
  context : MetaInput := {}
  ownerId : Option Uuid := none
  visibility : Option Visibility := none
  disposition : Option Disposition := none
  temporary : Bool
  limits : UploadOptions := {}
deriving DecidableEq, Repr

/-- The namespace of a managed file's final object. -/
def managedNamespace (temporary : Bool) (visibility : Visibility) : Namespace :=
  if temporary then .temporary
  else match visibility with
    | .publicFile => .publicFile
    | .privateFile => .privateFile

/-- The row `initiateManagedUpload` saves; `createdAt` is left to the database. -/
def managedRow (access : Access) (validated : Validated) (visibility : Visibility)
    (disposition : Disposition) (metadata : Meta) (checksum : Option String) (temporary : Bool)
    (id : Uuid) (now : Int) : Row :=
  let key := buildStorageKeyForId config access.scope.tenantCode id validated.originalName
    (managedNamespace temporary visibility)
  let uploadExpiredAt := now + config.uploadUrlTtlSeconds * 1000
  { id := id
    tenantCode := access.scope.tenantCode
    departmentCode := access.scope.departmentCode
    userId := access.scope.userId
    fileName := validated.originalName
    fileSize := some (toMb validated.size)
    sizeBytes := some validated.size
    contentType := some validated.contentType
    key := key
    pendingKey := some
      (buildStorageKeyForId config access.scope.tenantCode id validated.originalName .pending)
    cdn := if visibility = .publicFile then config.publicUrl key else config.privateDownloadUrl id
    isUsed := false
    visibility := visibility
    status := .pending
    isTemporary := temporary
    uploadExpiredAt := some uploadExpiredAt
    expiredAt := none
    completedAt := none
    disposition := disposition
    checksum := checksum
    etag := none
    uploadPendingAt := some (uploadExpiredAt + uploadActivationLeaseMs)
    deletionPendingAt := none
    metadata :=
      metadata.over (if temporary then { type := some "temporary" } else {})
    extraData := none
    createdAt := 0
    deletedAt := none }

/-- The upload target: the local driver only echoes the application's own URL. -/
def createUploadUrl (pendingKey : StorageKey) (file : Validated) (checksum : Option String) :
    Service (Option UploadTarget) :=
  match config.driver with
  | .localDisk => pure (some
      { url := config.localUploadUrl pendingKey.id
        key := pendingKey
        contentType := "application/octet-stream"
        uploadId := none
        checksum := none })
  | .s3 => do
      let reply ← tryAsk (.createUploadUrl pendingKey file.contentType file.size
        config.uploadUrlTtlSeconds pendingKey.id checksum)
      pure (reply.map fun url =>
        { url := url
          key := pendingKey
          contentType := file.contentType
          uploadId := some pendingKey.id
          checksum := checksum })

def initiateManagedUpload (caller : Caller) (input : InitiateInput) (options : InitiateOptions) :
    Service InitiateResult := do
  let access ← check (match options.access with
    | some access => .ok access
    | none => authorize caller .create)
  check (verifyRequestedOwner options.ownerId access)
  let limits ← check (uploadValidationLimits config options.limits)
  let file ← check (validated (config.validateUploadMetadata input.originalName
    input.contentType input.size limits))
  let visibility ← check (directVisibility config options.visibility options.temporary)
  let metadata ← check (normalizeMeta config options.context)
  let checksum ← check (normalizedChecksum config input.checksum)
  let id ← ask .randomUUID
  let now ← ask .now
  let row := managedRow config access file visibility
    (options.disposition.getD .attachment) metadata checksum options.temporary id now
  let reply ← tryAsk (.save row)
  match reply with
  | none => throw uploadFailed
  | some saved => do
      let uploadExpiredAt := now + config.uploadUrlTtlSeconds * 1000
      let pendingKey :=
        buildStorageKeyForId config access.scope.tenantCode id file.originalName .pending
      let target ← createUploadUrl config pendingKey file checksum
      match target with
      | some target => pure ⟨id, target, uploadExpiredAt⟩
      | none => do
          cleanupFailedUpload saved access (uploadExpiredAt + uploadActivationLeaseMs)
          throw uploadFailed

def initiateUpload (caller : Caller) (input : InitiateInput) : Service InitiateResult :=
  initiateManagedUpload config caller input
    { temporary := false, visibility := some .privateFile }

def initiateTemporaryUpload (caller : Caller) (input : InitiateInput) : Service InitiateResult :=
  initiateManagedUpload config caller input
    { temporary := true, visibility := some .privateFile }

/-! ## URLs -/

def assertReadyAndUnexpired (row : Row) (now : Int) : Except ServiceError Unit :=
  if row.status ≠ .ready then .error .notFound
  else if row.isTemporary ∧ notAfter row.expiredAt now then
    .error (.gone "core.file.expired" "Temporary file has expired")
  else .ok ()

def resolvedContentType (row : Row) : String :=
  (row.contentType <|> config.inferContentType row.fileName).getD "application/octet-stream"

structure ResolvedUrl where
  url : Option String
  urlExpiredAt : Option Int
deriving DecidableEq, Repr

/-- The service projection, `UploadedFileResult`. -/
structure FileResult where
  id : Uuid
  fileName : String
  fileSize : Nat
  size : Nat
  key : StorageKey
  cdn : String
  contentType : String
  visibility : Visibility
  status : Status
  isTemporary : Bool
  completedAt : Option Int
  expiredAt : Option Int
  disposition : Disposition
  resolved : ResolvedUrl
deriving DecidableEq, Repr

def uploadedFileResult (row : Row) (resolved : ResolvedUrl) : FileResult where
  id := row.id
  fileName := row.fileName
  fileSize := row.fileSize.getD (toMb (row.sizeBytes.getD 0))
  size := row.sizeBytes.getD (row.fileSize.getD 0 * 1048576)
  key := row.key
  cdn := row.cdn
  contentType := resolvedContentType config row
  visibility := row.visibility
  status := row.status
  isTemporary := row.isTemporary
  completedAt := row.completedAt
  expiredAt := row.expiredAt
  disposition := row.disposition
  resolved := resolved

/-- The lifetime of a signed URL in seconds; `none` when the file expires within
the current second. -/
def signedSeconds (row : Row) (now : Int) : Option Nat :=
  let limit := min (min config.privateDownloadUrlTtlSeconds
    config.maxPrivateDownloadUrlTtlSeconds) 3600
  match row.isTemporary, row.expiredAt with
  | true, some expiredAt =>
      let remaining := ((expiredAt - now) / 1000).toNat
      if remaining < 1 then none else some (min limit remaining)
  | _, _ => some limit

def resolveRowUrl (row : Row) : Service ResolvedUrl := do
  let now ← ask .now
  check (assertReadyAndUnexpired row now)
  if row.visibility = .publicFile then pure ⟨some (config.publicUrl row.key), none⟩
  else if config.driver = .localDisk then
    pure ⟨some (config.privateDownloadUrl row.id), none⟩
  else
    match signedSeconds config row now with
    | none => pure ⟨some (config.privateDownloadUrl row.id), row.expiredAt⟩
    | some seconds => do
        let reply ← tryAsk (.createDownloadUrl row.key seconds
          (resolvedContentType config row)
          (config.contentDisposition row.fileName row.disposition)
          (config.privateDownloadUrl row.id))
        match reply with
        | none => throw .notFound
        | some url => pure ⟨some url, some (now + seconds * 1000)⟩

def toUploadedFileResult (row : Row) : Service FileResult := do
  let resolved ← resolveRowUrl config row
  pure (uploadedFileResult config row resolved)

/-! ## Completion -/

def metadataMatches (row : Row) (metadata? : Option ObjectMetadata) : Bool :=
  match metadata? with
  | none => false
  | some metadata =>
      let actual := metadata.contentType.map config.essence
      let declared := row.contentType.map config.lowerCase
      decide (some metadata.size = row.sizeBytes) &&
      (match config.driver with
        | .s3 => metadata.etag.isSome && decide (actual = declared) &&
            decide (metadata.uploadId = some row.id)
        | .localDisk => actual.isNone || decide (actual = declared)) &&
      (match row.checksum with
        | none => true
        | some checksum => decide (metadata.checksum = some checksum) ||
            decide (metadata.metadataChecksum = some checksum))

def verificationFailed (message : String) : ServiceError :=
  .badRequest "core.file.upload-verification-failed" message

def promotionFailed : ServiceError :=
  .badRequest "core.file.upload-promotion-failed" "Uploaded object could not be finalized"

def completionInProgress : ServiceError :=
  .badRequest "core.file.upload-completing" "File upload completion is already in progress"

def uploadNotPending : ServiceError :=
  .badRequest "core.file.upload-not-pending" "File upload is not pending"

def uploadExpired : ServiceError :=
  .badRequest "core.file.upload-expired" "File upload has expired"

def markCompletionRetryable (row : Row) (access : Access) (marker : Int) : Service Unit := do
  let now ← ask .now
  let _ ← tryAsk (.update (.markCompletionRetryable row access marker (now - 1)))
  pure ()

def completionIsActive (row : Row) : Service Bool :=
  match row.status, row.uploadPendingAt with
  | .completing, some marker => do
      let now ← ask .now
      pure (decide (marker > now))
  | _, _ => pure false

/-- Either this run holds the completion lease on the row, or another run already
settled it and its result is handed on. -/
inductive Claimed where
  | lease (row : Row)
  | settled (result : FileResult)

/-- The compare-and-swap from `pending` to `completing`. -/
def claimPendingCompletion (row : Row) (access : Access) (marker : Int)
    (staging : ObjectMetadata) : Service Claimed := do
  let affected ← ask (.update (.claimCompletion row access marker staging.etag))
  if affected = 1 then
    pure (.lease { row with
      status := .completing, uploadPendingAt := some marker, etag := staging.etag })
  else do
    let current ← ask (.findOne (.lifecycle access row.id))
    match current with
    | none => throw .notFound
    | some current =>
        match current.status with
        | .ready => do
            let result ← toUploadedFileResult config current
            pure (.settled result)
        | .completing => throw completionInProgress
        | _ => throw uploadNotPending

/-- Take over a completion whose lease ran out. -/
def reclaimCompletion (row : Row) (access : Access) (now marker : Int)
    (staging : ObjectMetadata) : Service Claimed :=
  if row.etag.isSome ∧ staging.etag.isSome ∧ row.etag ≠ staging.etag then
    throw (verificationFailed "Uploaded staging version changed during completion")
  else if row.uploadPendingAt.any fun previous => decide (previous > now) then
    throw completionInProgress
  else do
    let affected ← ask (.update (.reclaimCompletion row access marker staging.etag))
    if affected = 1 then
      pure (.lease { row with
        uploadPendingAt := some marker, etag := row.etag <|> staging.etag })
    else do
      let current ← ask (.findOne (.lifecycle access row.id))
      match current with
      | none => throw completionInProgress
      | some current =>
          if current.status = .ready then do
            let result ← toUploadedFileResult config current
            pure (.settled result)
          else throw completionInProgress

/-- Take the completion lease, by status. -/
def claimCompletionLease (row : Row) (access : Access) (now : Int) (staging : ObjectMetadata) :
    Service Claimed :=
  let marker := now + uploadActivationLeaseMs
  if row.status = .pending then claimPendingCompletion config row access marker staging
  else reclaimCompletion config row access now marker staging

/-- The storage driver's `promoteObject`. -/
def promoteObject (source destination : StorageKey) (sourceEtag : Option Etag) :
    Service Unit :=
  match config.driver with
  | .s3 => do
      let copied ← ask (.copyObject source destination sourceEtag)
      if copied then pure () else throw .thrown
  | .localDisk => do
      let linked ← ask (.link source destination)
      if linked then do
        let removed ← ask (.unlink source)
        if removed then pure () else throw .thrown
      else throw .thrown

/-- The final object, promoted from staging when it is not there yet. -/
def promotedObject (row : Row) (pendingKey : StorageKey) (sourceEtag : Option Etag) :
    Service (Option ObjectMetadata) := do
  let existing ← ask (.headObject row.key)
  match existing with
  | some metadata => pure (some metadata)
  | none => do
      promoteObject config pendingKey row.key sourceEtag
      ask (.headObject row.key)

/-- Make the lease retryable, then fail. -/
def failRetryable {α : Type} (row : Row) (access : Access) (marker : Int)
    (error : ServiceError) : Service α := do
  markCompletionRetryable row access marker
  throw error

/-- Write the ready state under the lease; a lost response is confirmed by a read. -/
def finalizeCompletion (row : Row) (access : Access) (marker : Int)
    (final : ObjectMetadata) : Service FileResult := do
  let completedAt ← ask .now
  let dropPendingKey := decide (config.driver = .localDisk)
  let checksum := final.checksum.filter (· ≠ "")
  let reply ← tryAsk (.update (.finalizeCompletion row access marker completedAt final.etag
    checksum dropPendingKey))
  match reply with
  | none => do
      let current ← tryAsk (.findOne (.lifecycle access row.id))
      match current with
      | some (some current) =>
          if current.status = .ready then toUploadedFileResult config current
          else failRetryable row access marker uploadFailed
      | _ => failRetryable row access marker uploadFailed
  | some affected =>
      if affected = 1 then
        toUploadedFileResult config { row with
          status := .ready
          uploadPendingAt := none
          completedAt := some completedAt
          expiredAt :=
            if row.isTemporary then some (completedAt + temporaryFileLifetimeMs) else none
          etag := final.etag
          checksum := checksum <|> row.checksum
          pendingKey := if dropPendingKey then none else row.pendingKey }
      else do
        let current ← ask (.findOne (.lifecycle access row.id))
        match current with
        | some current =>
            if current.status = .ready then toUploadedFileResult config current
            else throw uploadFailed
        | none => throw uploadFailed

/-- The steps under the lease: promote, verify, drop local staging, finalise. -/
def completeUnderLease (row : Row) (access : Access) (marker : Int) (pendingKey : StorageKey)
    (sourceEtag : Option Etag) : Service FileResult := do
  let final ← tryCatch (promotedObject config row pendingKey sourceEtag)
    fun _ => failRetryable row access marker promotionFailed
  match final with
  | none =>
      failRetryable row access marker
        (verificationFailed "Final uploaded object failed verification")
  | some metadata =>
      if metadataMatches config row (some metadata) then
        match config.driver with
        | .s3 => finalizeCompletion config row access marker metadata
        | .localDisk => do
            let removed ← tryAsk (.deleteObject pendingKey)
            match removed with
            | none => failRetryable row access marker promotionFailed
            | some _ => finalizeCompletion config row access marker metadata
      else
        failRetryable row access marker
          (verificationFailed "Final uploaded object failed verification")

def completeManagedUpload (row : Row) (access : Access) : Service FileResult :=
  match row.status with
  | .ready => toUploadedFileResult config row
  | .failed => throw uploadNotPending
  | status => do
      let now ← ask .now
      match row.pendingKey, row.uploadExpiredAt with
      | some pendingKey, some uploadExpiredAt =>
          if status = .pending ∧ uploadExpiredAt ≤ now then throw uploadExpired
          else do
            let staging ← tryAsk (.headObject pendingKey)
            match staging with
            | none => throw (verificationFailed "Uploaded object could not be verified")
            | some none => throw (verificationFailed "Uploaded object failed verification")
            | some (some metadata) =>
                if metadataMatches config row (some metadata) then do
                  let claimed ← claimCompletionLease config row access now metadata
                  match claimed with
                  | .settled result => pure result
                  | .lease row =>
                      completeUnderLease config row access (now + uploadActivationLeaseMs)
                        pendingKey metadata.etag
                else throw (verificationFailed "Uploaded object failed verification")
      | _, _ => throw uploadExpired

def findLifecycleAuthorized (caller : Caller) (id : Option Uuid) (operation : Operation) :
    Service (Access × Row) := do
  let id ← check (resourceId id)
  let access ← check (authorize caller operation [id])
  let row ← ask (.findOne (.lifecycle access id))
  match row with
  | some row => pure (access, row)
  | none => throw .notFound

def completeUpload (caller : Caller) (id : Option Uuid) : Service FileResult := do
  let (access, row) ← findLifecycleAuthorized caller id .complete
  completeManagedUpload config row access

/-- Accept bytes at the local upload target, then complete. -/
def putUploadContent (caller : Caller) (id : Option Uuid) (buffer : Bytes) :
    Service FileResult :=
  if config.driver ≠ .localDisk then throw .notFound
  else do
    let (_, row) ← findLifecycleAuthorized caller id .complete
    let now ← ask .now
    match row.status, row.pendingKey, row.uploadExpiredAt with
    | .pending, some pendingKey, some uploadExpiredAt =>
        if uploadExpiredAt ≤ now then throw uploadExpired
        else
          match config.validateUploadBuffer buffer (some row.fileName) row.contentType
              ⟨config.allowedMimeTypes, row.sizeBytes.getD config.maxFileSizeBytes⟩ with
          | none => throw invalidUpload
          | some _ =>
              if some buffer.length ≠ row.sizeBytes then throw invalidUpload
              else do
                let stored ← tryAsk (.putObject pendingKey { body := buffer })
                if stored = some true then completeUpload config caller id
                else throw invalidUpload
    | _, _, _ => throw uploadExpired

def abortUpload (caller : Caller) (id : Option Uuid) : Service Unit := do
  let (access, row) ← findLifecycleAuthorized caller id .abort
  if row.status ≠ .pending ∧ row.status ≠ .completing then throw uploadNotPending
  else do
    let active ← completionIsActive row
    if active then throw completionInProgress
    else do
      let claim ← ask (.nextDeletionClaim row.uploadPendingAt)
      let affected ← ask (.update (.claimAbort row access claim))
      if affected = 1 then
        tryCatch
          (do
            let _ ← deleteAndFinalizePendingRows
              [{ row with
                status := .failed
                uploadPendingAt := none
                deletionPendingAt := some claim }] claim (some access)
            pure ())
          fun _ => throw (.badRequest "core.file.cleanup-failed" "File cleanup failed")
      else throw .notFound

end

end SdcoreNest.UploadedFile
