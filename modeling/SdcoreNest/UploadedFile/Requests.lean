/-
# UploadedFile.Requests -- reading, changing and deleting files
-/
import SdcoreNest.UploadedFile.DirectUpload

namespace SdcoreNest.UploadedFile

open SdcoreNest.Theory

set_option autoImplicit false

section

variable (config : Config)

/-! ## Reading -/

/-- The read case of `findAuthorized`. -/
def findAuthorized (caller : Caller) (id : Option Uuid) : Service Row := do
  let id ← check (resourceId id)
  let access ← check (authorize caller .read [id])
  let row ← ask (.findOne (.authorized access id))
  match row with
  | none => throw .notFound
  | some row => do
      let now ← ask .now
      check (assertReadyAndUnexpired row now)
      pure row

def resolveUrl (caller : Caller) (id : Option Uuid) : Service ResolvedUrl := do
  let row ← findAuthorized caller id
  resolveRowUrl config row

structure Stream where
  body : Bytes
  fileName : String
deriving DecidableEq, Repr

/-- Open a row's object; every failure looks like a missing file. -/
def openStream (row : Row) : Service Stream := do
  let reply ← tryAsk (.download row.key)
  match reply with
  | some (some body) => pure ⟨body, row.fileName⟩
  | _ => throw .notFound

def download (caller : Caller) (id : Option Uuid) : Service Stream := do
  let row ← findAuthorized caller id
  openStream row

def downloadAttached (caller : Caller) (id : Option Uuid) (attachment : Option Attachment) :
    Service Stream := do
  let id ← check (resourceId id)
  match caller.scope, attachment with
  | some scope, some attachment =>
      if caller.attachedReadPolicy id attachment then do
        let row ← ask (.findOne (.attached scope id attachment))
        match row with
        | none => throw .notFound
        | some row => do
            let now ← ask .now
            check (assertReadyAndUnexpired row now)
            openStream row
      else throw .notFound
  | _, _ => throw .notFound

def findById (caller : Caller) (id : Option Uuid) : Service Row := findAuthorized caller id

def find (caller : Caller) (id : Option Uuid) : Service FileResult := do
  let (_, row) ← findLifecycleAuthorized caller id .read
  if row.status = .ready then toUploadedFileResult config row
  else pure (uploadedFileResult config row ⟨none, none⟩)

/-! ## Changing and deleting -/

def setExtraData (caller : Caller) (id : Option Uuid) (extraData : Option String) :
    Service Unit := do
  let id ← check (resourceId id)
  let access ← check (authorize caller .update [id])
  let affected ← ask (.update (.setExtraData id access extraData))
  if affected = 1 then pure () else throw .notFound

/-- The body of `mutateIdsWithManager` in its own transaction. -/
def mutateIds (access : Access) (ids : List SentId) (metadata : Meta) : Service Unit := do
  let rows ← ask (.find (.byIds access (ids.map SentId.uuid)))
  if rows.length ≠ ids.length then throw .notFound
  else do
    let committed ← ask
      (.transact (.markUsed (ids.map SentId.uuid) access metadata) ids.length)
    if committed then pure () else throw .notFound

def markUsed (caller : Caller) (ids : List (Option SentId)) (meta? : MetaInput) :
    Service Unit := do
  let unique ← check (batchIds ids)
  if unique.isEmpty then pure ()
  else do
    let access ← check (authorize caller .markUsed (unique.map SentId.uuid))
    let metadata ← check (normalizeMeta config meta?)
    mutateIds access unique metadata

/-- The references that some found row carries as key or cdn. -/
def matchedReferences (references : List String) (rows : List Row) : List String :=
  references.filter fun reference =>
    rows.any fun row => config.keyText row.key = reference || row.cdn = reference

def rowsForReferences (access : Access) (references : List String) : Service (List Row) := do
  let rows ← ask (.find (.byReferences access references references))
  if (matchedReferences config references rows).length = references.length then pure rows
  else throw .notFound

def useFiles (caller : Caller) (references : List String) (entity entityId : Option String) :
    Service Unit := do
  let unique ← check (batchReferences config references)
  if unique.isEmpty then pure ()
  else do
    let access ← check (authorize caller .markUsed [] unique)
    let metadata ← check (normalizeMeta config { entity := entity, entityId := entityId })
    let rows ← rowsForReferences config access unique
    let committed ← ask
      (.transact (.markUsed (rows.map Row.id) access metadata) rows.length)
    if committed then pure () else throw .notFound

def deleteFailed : ServiceError := .badRequest "core.file.delete-failed" "File deletion failed"

def delete (caller : Caller) (references : List String) : Service Unit := do
  let unique ← check (batchReferences config references)
  if unique.isEmpty then pure ()
  else do
    let access ← check (authorize caller .delete [] unique)
    let claim ← ask (.nextDeletionClaim none)
    let rows ← rowsForReferences config access unique
    let committed ← ask (.transact (.claimReferences rows access claim) rows.length)
    if committed then
      tryCatch
        (do
          let _ ← deleteAndFinalizePendingRows
            (rows.map fun row => { row with deletionPendingAt := some claim }) claim
            (some access)
          pure ())
        fun _ => throw deleteFailed
    else throw .notFound

def deleteById (caller : Caller) (id : Option Uuid) : Service Unit := do
  let id ← check (resourceId id)
  let access ← check (authorize caller .delete [id])
  let claim ← ask (.nextDeletionClaim none)
  let found ← ask (.findOne (.lifecycle access id))
  match found with
  | none => throw .notFound
  | some current => do
      let active ← completionIsActive current
      if active then throw completionInProgress
      else do
        let committed ← ask (.transact (.claimById current access claim) 1)
        if committed then
          tryCatch
            (do
              let _ ← deleteAndFinalizePendingRows
                [{ current with
                  uploadPendingAt := none
                  deletionPendingAt := some claim
                  status := if current.status = .ready then current.status else .failed }]
                claim (some access)
              pure ())
            fun _ => throw deleteFailed
        else throw .notFound

def changeFiles (caller : Caller) (olds news : List String) (entity entityId : Option String) :
    Service Unit := do
  let oldReferences ← check (batchReferences config olds)
  let newReferences ← check (batchReferences config news)
  useFiles config caller newReferences entity entityId
  delete config caller (oldReferences.filter (· ∉ newReferences))

end

end SdcoreNest.UploadedFile
