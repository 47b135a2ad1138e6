/-
# UploadedFile.ServerUpload -- uploads whose bytes pass through the service

The legacy paths save a hidden row, write the object at its final key and activate
the row.  The managed path initiates a direct upload, transports the bytes itself
and completes it.
-/
import SdcoreNest.UploadedFile.DirectUpload

namespace SdcoreNest.UploadedFile

open SdcoreNest.Theory

set_option autoImplicit false

section

variable (config : Config)

/-! ## Server-side uploads -/

/-- The row `uploadLegacy` saves; status, visibility and disposition are the column
defaults. -/
def legacyRow (access : Access) (file : Validated) (size : Nat) (metadata : Meta)
    (extraData : Option String) (id : Uuid) (now : Int) : Row :=
  let key := buildStorageKeyForId config access.scope.tenantCode id file.originalName .tenant
  { id := id
    tenantCode := access.scope.tenantCode
    departmentCode := access.scope.departmentCode
    userId := access.scope.userId
    fileName := file.originalName
    fileSize := some (toMb size)
    sizeBytes := some size
    contentType := some file.contentType
    key := key
    pendingKey := none
    cdn := if config.publicFiles then config.publicUrl key else config.privateDownloadUrl id
    isUsed := false
    visibility := .privateFile
    status := .ready
    isTemporary := false
    uploadExpiredAt := none
    expiredAt := none
    completedAt := none
    disposition := .attachment
    checksum := none
    etag := none
    uploadPendingAt := some (now + uploadActivationLeaseMs)
    deletionPendingAt := none
    metadata := metadata
    extraData := extraData
    createdAt := 0
    deletedAt := none }

/-- The row `uploadTemporaryLegacy` saves. -/
def legacyTemporaryRow (access : Access) (file : Validated) (size : Nat) (id : Uuid)
    (now : Int) : Row :=
  { legacyRow config access file size { type := some "temporary" } none id now with
    sizeBytes := none
    contentType := none
    key := buildStorageKeyForId config access.scope.tenantCode id file.originalName .temporary
    cdn := config.privateDownloadUrl id
    status := .pending
    isTemporary := true }

/-- Write the object of a saved row, then activate it; every failure is cleaned up. -/
def writeAndActivate (saved : Row) (access : Access) (marker : Int) (object : StoredObject)
    (activate : Service Row) : Service Row := do
  let stored ← tryAsk (.putObject saved.key object)
  if stored = some true then
    tryCatch activate fun _ => do
      let active ← confirmedActiveUpload saved access
      match active with
      | some active => pure active
      | none => do
          cleanupFailedUpload saved access marker
          throw uploadFailed
  else do
    cleanupFailedUpload saved access marker
    throw uploadFailed

def uploadLegacy (caller : Caller) (buffer : Bytes) (fileName : Option String)
    (meta? : MetaInput) (extraData : Option String) (options : UploadOptions) :
    Service Row := do
  let access ← check (authorize caller .create)
  let file ← check (match uploadValidationLimits config options with
    | .error _ => .error invalidUpload
    | .ok limits => validated
        (config.validateUploadBuffer buffer fileName options.contentType limits))
  let metadata ← check (normalizeMeta config meta?)
  let id ← ask .randomUUID
  let now ← ask .now
  let marker := now + uploadActivationLeaseMs
  let reply ← tryAsk (.save
    (legacyRow config access file buffer.length metadata extraData id now))
  match reply with
  | none => throw uploadFailed
  | some saved =>
      writeAndActivate saved access marker
        { body := buffer, contentType := some file.contentType }
        (activatePendingUpload saved access marker)

def uploadTemporaryLegacy (caller : Caller) (buffer : Bytes) (fileName : Option String)
    (options : UploadOptions) : Service Row := do
  let access ← check (authorize caller .create)
  if config.temporaryCleanupConfigured then do
    let file ← check (match uploadValidationLimits config options with
      | .error _ => .error invalidUpload
      | .ok limits => validated
          (config.validateUploadBuffer buffer fileName options.contentType limits))
    let id ← ask .randomUUID
    let now ← ask .now
    let marker := now + uploadActivationLeaseMs
    let reply ← tryAsk (.save (legacyTemporaryRow config access file buffer.length id now))
    match reply with
    | none => throw uploadFailed
    | some saved =>
        writeAndActivate saved access marker
          { body := buffer, contentType := some file.contentType }
          (activateTemporaryPendingUpload saved access marker)
  else throw (.badRequest "core.file.temporary-cleanup-required"
    "Temporary uploads require configured cleanup")

/-- What a managed upload is fed from: bytes in memory, or a stream of declared size
that will turn out to hold `bytes`. -/
inductive Source where
  | buffered (bytes : Bytes)
  | stream (bytes : Bytes)
deriving DecidableEq, Repr

def Source.bytes : Source → Bytes
  | .buffered bytes => bytes
  | .stream bytes => bytes

/-- Checked name, type and size of a managed upload's source. -/
def managedSource (source : Source) (originalName : String) (options : UploadOptions) :
    Except ServiceError InitiateInput :=
  match source with
  | .buffered bytes =>
      match uploadValidationLimits config options with
      | .error _ => .error invalidUpload
      | .ok limits =>
          match config.validateUploadBuffer bytes (some originalName) options.contentType limits with
          | none => .error invalidUpload
          | some file =>
              if options.size = none ∨ options.size = some bytes.length then
                .ok { originalName := file.originalName, contentType := file.contentType
                      size := bytes.length }
              else .error invalidUpload
  | .stream _ =>
      match options.size, options.contentType with
      | some (size + 1), some contentType =>
          if contentType = "" then .error (.badRequest "core.file.invalid-upload"
            "Readable uploads require a known exact size and content type")
          else .ok { originalName := originalName, contentType := contentType, size := size + 1 }
      | _, _ => .error (.badRequest "core.file.invalid-upload"
          "Readable uploads require a known exact size and content type")

/-- The `try` body of `uploadManaged` after initiation.  The local driver's branches
return a promise without awaiting it: they hand back the rest of the work, which then
runs outside the `try`. -/
def transportUpload (caller : Caller) (source : Source) (initiated : InitiateResult) :
    Service (Service FileResult) :=
  match config.driver, source with
  | .localDisk, .buffered bytes =>
      pure (putUploadContent config caller (some initiated.id) bytes)
  | .localDisk, .stream bytes => do
      let (_, row) ← findLifecycleAuthorized caller (some initiated.id) .complete
      match row.pendingKey with
      | none => throw .thrown
      | some pendingKey => do
          let stored ← ask (.putObject pendingKey { body := bytes })
          if stored then pure (completeUpload config caller (some initiated.id))
          else throw .thrown
  | .s3, _ => do
      let stored ← ask (.uploadSigned initiated.target.key
        { body := source.bytes
          contentType := some initiated.target.contentType
          checksum := initiated.target.checksum
          uploadId := initiated.target.uploadId
          metadataChecksum := initiated.target.checksum })
      if stored then do
        let result ← completeUpload config caller (some initiated.id)
        pure (pure result)
      else throw .thrown

def uploadManaged (caller : Caller) (source : Source) (originalName : String)
    (context : MetaInput) (ownerId : Option Uuid) (options : UploadOptions) (temporary : Bool) :
    Service FileResult := do
  let access ← check (authorize caller .create)
  check (verifyRequestedOwner ownerId access)
  let input ← check (managedSource config source originalName options)
  let initiated ← initiateManagedUpload config caller input
    { access := some access
      context := context
      ownerId := ownerId
      visibility := if temporary then some .privateFile
        else some (options.visibility.getD config.defaultVisibility)
      disposition := options.disposition
      temporary := temporary
      limits := options }
  let rest ← tryCatch (transportUpload config caller source initiated) fun error => do
    swallow (abortUpload caller (some initiated.id))
    throw error
  rest

end

end SdcoreNest.UploadedFile
