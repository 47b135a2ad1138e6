/-
# UploadedFile.Service -- checks, deletion of claimed rows, activation

`UploadedFileService`, method by method, is a set of programs over the calls of
`UploadedFile.World`; this module has the parts the public methods share.  What a
call throws is `ServiceError.thrown`; the service's own exceptions keep their code
and message.

Left to the configuration as functions: the text checks of `upload-security.ts`
(file names, MIME types, buffers), `normalizeMeta`, the reference check of
`batchReferences`, and the rendering of keys, URLs and headers.  Left to the
caller: what `resolveScope` and the two policies of the consumer answer.
-/
import SdcoreNest.Theory.Rules
import SdcoreNest.UploadedFile.World

namespace SdcoreNest.UploadedFile

open SdcoreNest.Theory

set_option autoImplicit false

inductive ServiceError where
  | notFound
  | badRequest (code message : String)
  | gone (code message : String)
  | thrown
deriving DecidableEq, Repr

abbrev Service := ExceptT ServiceError (Program sig)

/-- Issue a call; what it throws is thrown on. -/
def ask (call : Call) : Service call.Answer := Program.perform (S := sig) .thrown call

/-- Issue a call in a `try` whose `catch` only notes that it threw. -/
def tryAsk (call : Call) : Service (Option call.Answer) :=
  ExceptT.mk (Program.ask (S := sig) call fun reply => .done (.ok reply))

/-- A check without calls. -/
def check {α : Type} (result : Except ServiceError α) : Service α :=
  ExceptT.mk (.done result)

/-- A worker's own steps, newest first. -/
abbrev Past := List (Step sig)

@[simp] theorem follows_check {α : Type} {C : Conduct sig} {past : Past}
    (result : Except ServiceError α) (post : Except ServiceError α → Past → Prop) :
    Follows C (check result) past post ↔ post result past := Iff.rfl

/-- The pattern `try { body } catch { logger.error(..) }`. -/
def swallow {α : Type} (body : Service α) : Service Unit :=
  tryCatch (do let _ ← body; pure ()) fun _ => pure ()

/-! ## Requests -/

structure Validated where
  originalName : String
  contentType : String
  size : Nat
deriving DecidableEq, Repr

structure Limits where
  allowedMimeTypes : List String
  maxFileSizeBytes : Nat
deriving DecidableEq, Repr

/-- Per-call options, `UploadedFileUploadOptions`. -/
structure UploadOptions where
  allowedMimeTypes : Option (List String) := none
  maxFileSizeBytes : Option Nat := none
  contentType : Option String := none
  visibility : Option Visibility := none
  disposition : Option Disposition := none
  size : Option Nat := none
deriving DecidableEq, Repr

/-- Ownership metadata as sent, `UploadedFileContext`. -/
structure MetaInput where
  module : Option String := none
  entity : Option String := none
  entityId : Option String := none
  type : Option String := none
deriving DecidableEq, Repr

/-- A direct upload as declared, `InitiateUploadedFileInput`. -/
structure InitiateInput where
  originalName : String
  contentType : String
  size : Nat
  checksum : Option String := none
deriving DecidableEq, Repr

structure Config extends Deployment where
  publicFiles : Bool
  allowPublicUploads : Bool
  defaultVisibility : Visibility
  uploadUrlTtlSeconds : Nat
  privateDownloadUrlTtlSeconds : Nat
  maxPrivateDownloadUrlTtlSeconds : Nat
  temporaryCleanupConfigured : Bool
  allowedMimeTypes : List String
  maxFileSizeBytes : Nat
  keyName : String → String
  publicUrl : StorageKey → String
  privateDownloadUrl : Uuid → String
  localUploadUrl : Uuid → String
  contentDisposition : String → Disposition → String
  inferContentType : String → Option String
  essence : String → String
  lowerCase : String → String
  normalizeMime : String → String
  normalizeMeta : MetaInput → Option Meta
  normalizeChecksum : String → Option String
  validReference : String → Bool
  validateUploadMetadata : String → String → Nat → Limits → Option Validated
  validateUploadBuffer : Bytes → Option String → Option String → Limits → Option Validated

inductive Operation where
  | create
  | read
  | update
  | markUsed
  | delete
  | clone
  | complete
  | abort
deriving DecidableEq, Repr

/-- The trusted request context: its resolved scope (`none`: `resolveScope` threw)
and what the consumer's policies answer (`none`: deny, or the policy threw). -/
structure Caller where
  scope : Option Scope
  policy : Operation → List Uuid → List String → Option Decision
  attachedReadPolicy : Uuid → Attachment → Bool

def authorize (caller : Caller) (operation : Operation) (resourceIds : List Uuid := [])
    (storageReferences : List String := []) : Except ServiceError Access :=
  match caller.scope with
  | none => .error .notFound
  | some scope =>
      match caller.policy operation resourceIds storageReferences with
      | none => .error .notFound
      | some decision => .ok ⟨decision, scope⟩

/-- An id as sent; `none` does not match `UUID_PATTERN`. -/
def resourceId : Option Uuid → Except ServiceError Uuid
  | some id => .ok id
  | none => .error .notFound

/-- An id of a batch as sent: `UUID_PATTERN` and the database ignore the letter case of a UUID,
so it has several spellings; a `Set` of texts tells them apart. -/
structure SentId where
  uuid : Uuid
  spelling : Nat := 0
deriving DecidableEq, Repr

def batchIds (ids : List (Option SentId)) : Except ServiceError (List SentId) :=
  if ids.length > uploadedFileBatchLimit ∨ none ∈ ids then .error .notFound
  else .ok (ids.filterMap id).eraseDups

section

variable (config : Config)

def batchReferences (references : List String) : Except ServiceError (List String) :=
  if references.length > uploadedFileBatchLimit ∨
      references.any (fun reference => !config.validReference reference) then
    .error .notFound
  else .ok references.eraseDups

def normalizeMeta (input : MetaInput) : Except ServiceError Meta :=
  match config.normalizeMeta input with
  | some metadata => .ok metadata
  | none => .error (.badRequest "core.file.invalid-meta" "Invalid uploaded file metadata")

def uploadValidationLimits (options : UploadOptions) : Except ServiceError Limits :=
  let allowed : Except ServiceError (List String) :=
    match options.allowedMimeTypes with
    | none => .ok config.allowedMimeTypes
    | some mimes =>
        let requested := (mimes.map config.normalizeMime).filter (· ≠ "")
        let common := config.allowedMimeTypes.filter (· ∈ requested)
        if common = [] then .error .thrown else .ok common
  let size : Except ServiceError Nat :=
    match options.maxFileSizeBytes with
    | none => .ok config.maxFileSizeBytes
    | some 0 => .error .thrown
    | some bytes => .ok (min config.maxFileSizeBytes bytes)
  match allowed, size with
  | .error error, _ => .error error
  | .ok _, .error error => .error error
  | .ok mimes, .ok bytes => .ok ⟨mimes, bytes⟩

def verifyRequestedOwner (ownerId : Option Uuid) (access : Access) : Except ServiceError Unit :=
  match ownerId with
  | none => .ok ()
  | some owner => if owner = access.scope.userId then .ok () else .error .notFound

def directVisibility (requested : Option Visibility) (temporary : Bool) :
    Except ServiceError Visibility :=
  if temporary then .ok .privateFile
  else match requested.getD .privateFile with
    | .privateFile => .ok .privateFile
    | .publicFile =>
        if config.allowPublicUploads then .ok .publicFile
        else .error (.badRequest "core.file.public-upload-disabled"
          "Public file uploads are disabled")

def normalizedChecksum (checksum : Option String) : Except ServiceError (Option String) :=
  match checksum with
  | none => .ok none
  | some text =>
      match config.normalizeChecksum text with
      | some value => .ok (some value)
      | none => .error (.badRequest "core.file.invalid-checksum" "Invalid upload checksum")

def buildStorageKeyForId (tenantCode : String) (id : Uuid) (fileName : String)
    (space : Namespace) : StorageKey :=
  ⟨space, tenantCode, id, config.keyName fileName⟩

def invalidUpload : ServiceError :=
  .badRequest "core.file.invalid-upload" "Uploaded file failed validation"

def uploadFailed : ServiceError := .badRequest "core.file.upload-failed" "File upload failed"

def validated (result : Option Validated) : Except ServiceError Validated :=
  match result with
  | some value => .ok value
  | none => .error invalidUpload

/-! ## Deleting claimed rows -/

def releaseDeletionClaim (rows : List Row) (claim : Int) (access : Option Access) :
    Service Unit :=
  if rows.isEmpty then pure ()
  else do
    let now ← ask .now
    let _ ← ask (.update (.releaseDeletionClaim rows claim access (now + deletionRetryBackoffMs)))
    pure ()

def finalizePendingRows (rows : List Row) (claim : Int) (access : Option Access) :
    Service Nat :=
  if rows.isEmpty then pure 0
  else ask (.update (.finalizePendingRows rows claim access))

def clearFinalizedDeletionClaim (rows : List Row) (claim : Int) (access : Option Access) :
    Service Unit :=
  if rows.any fun row => row.uploadPendingAt.isSome then pure ()
  else do
    let affected ← ask (.update (.clearFinalizedDeletionClaim rows claim access))
    if affected = rows.length then pure () else throw .thrown

/-- The distinct object keys of the rows. -/
def objectKeys (rows : List Row) : List StorageKey := (rows.flatMap Row.keys).eraseDups

def deleteAndFinalizePendingRows (rows : List Row) (claim : Int) (access : Option Access) :
    Service Nat :=
  if rows.isEmpty then pure 0
  else
    tryCatch
      (do
        let _ ← ask (.delete (objectKeys rows))
        let finalized ← finalizePendingRows rows claim access
        if finalized = rows.length then do
          swallow (clearFinalizedDeletionClaim rows claim access)
          pure finalized
        else throw .thrown)
      fun error => do
        swallow (releaseDeletionClaim rows claim access)
        throw error

/-! ## Activation and its failure -/

def activatePendingUpload (saved : Row) (access : Access) (marker : Int) : Service Row := do
  let affected ← ask (.update (.activatePendingUpload saved access marker))
  if affected = 1 then pure { saved with uploadPendingAt := none } else throw .thrown

def activateTemporaryPendingUpload (saved : Row) (access : Access) (marker : Int) :
    Service Row := do
  let completedAt ← ask .now
  let affected ← ask
    (.update (.activateTemporaryPendingUpload saved access marker completedAt))
  if affected = 1 then
    pure { saved with
      status := .ready
      isTemporary := true
      uploadPendingAt := none
      completedAt := some completedAt
      expiredAt := some (completedAt + temporaryFileLifetimeMs) }
  else throw .thrown

def confirmedActiveUpload (saved : Row) (access : Access) : Service (Option Row) := do
  let reply ← tryAsk (.findOne (.confirmedActiveUpload saved access))
  pure (reply.getD none)

/-- The bounded re-read loop; the argument counts the attempts left. -/
def deleteWrittenObjectWhenActivationIsImpossible (saved : Row) (access : Access)
    (activationMarker : Int) : Nat → Service Unit
  | 0 => pure ()
  | attempts + 1 => do
      let reply ← tryAsk (.findOne (.currentUpload saved access))
      match reply with
      | none => pure ()
      | some none => pure ()
      | some (some current) =>
          if current.visible then pure ()
          else do
            let claim ← ask
              (.nextDeletionClaim (some (current.deletionPendingAt.getD activationMarker)))
            let claimed ← tryAsk (.update (.settleFailedUpload current access claim))
            match claimed with
            | none => pure ()
            | some affected =>
                if affected = 1 then
                  swallow (deleteAndFinalizePendingRows
                    [{ current with
                      deletedAt := none
                      uploadPendingAt := none
                      deletionPendingAt := some claim }] claim (some access))
                else
                  deleteWrittenObjectWhenActivationIsImpossible saved access activationMarker
                    attempts

def cleanupFailedUpload (saved : Row) (access : Access) (marker : Int) : Service Unit := do
  let claim ← ask (.nextDeletionClaim (some marker))
  let claimed ← tryAsk (.update (.claimFailedUpload saved access marker claim))
  if claimed = some 1 then
    swallow (deleteAndFinalizePendingRows
      [{ saved with uploadPendingAt := none, deletionPendingAt := some claim }] claim
      (some access))
  else deleteWrittenObjectWhenActivationIsImpossible saved access marker 3

end

end SdcoreNest.UploadedFile
