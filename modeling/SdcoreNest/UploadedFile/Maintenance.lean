/-
# UploadedFile.Maintenance -- sweeps, retirement and purge

The trusted jobs: they bypass request scope and select rows by their markers.  A
sweep reads the clock and a bounded batch first and then claims row by row, so a
row may have changed between the read and its claim; the claim statement compares
the markers it was read with.
-/
import SdcoreNest.UploadedFile.Service

namespace SdcoreNest.UploadedFile

open SdcoreNest.Theory

set_option autoImplicit false

/-- The clamp of a batch size; `none` is not a finite number. -/
def systemDeletionLimit (limit : Option Int) : Nat :=
  match limit with
  | none => uploadedFileBatchLimit
  | some limit => (max 1 (min limit uploadedFileBatchLimit)).toNat

/-- Delete the objects of one claimed row; a failure is logged and counts nothing. -/
def deleteClaimedRow (row : Row) (claim : Int) : Service Nat :=
  tryCatch (deleteAndFinalizePendingRows [row] claim none) fun _ => pure 0

/-- The loop of `unsafeSystemCleanupExpiredDirectUploads`. -/
def cleanupExpiredDirectRows : List Row → Nat → Service Nat
  | [], finalized => pure finalized
  | row :: rows, finalized =>
      match row.uploadPendingAt with
      | none => cleanupExpiredDirectRows rows finalized
      | some uploadPendingAt => do
          let claim ← ask
            (.nextDeletionClaim (some (row.deletionPendingAt.getD uploadPendingAt)))
          let affected ← ask (.update (.claimExpiredDirectUpload row claim))
          if affected = 1 then do
            let count ← deleteClaimedRow
              { row with
                status := .failed
                deletedAt := none
                uploadPendingAt := none
                deletionPendingAt := some claim } claim
            cleanupExpiredDirectRows rows (finalized + count)
          else cleanupExpiredDirectRows rows finalized

def unsafeSystemCleanupExpiredDirectUploads (limit : Option Int) : Service Nat := do
  let now ← ask .now
  let rows ← ask (.find (.expiredDirectUploads now (systemDeletionLimit limit)))
  cleanupExpiredDirectRows rows 0

/-- The loop of `unsafeSystemCleanupCompletedStaging`. -/
def cleanupCompletedStagingRows : List Row → Nat → Service Nat
  | [], cleaned => pure cleaned
  | row :: rows, cleaned =>
      match row.pendingKey with
      | none => cleanupCompletedStagingRows rows cleaned
      | some pendingKey => do
          let count ← tryCatch
            (do
              let _ ← ask (.deleteObject pendingKey)
              ask (.update (.clearPendingKey row)))
            fun _ => pure 0
          cleanupCompletedStagingRows rows (cleaned + count)

def unsafeSystemCleanupCompletedStaging (limit : Option Int) : Service Nat := do
  let now ← ask .now
  let rows ← ask (.find (.completedStaging now (systemDeletionLimit limit)))
  cleanupCompletedStagingRows rows 0

/-- The loop of `cleanupExpiredTemporaryFiles`. -/
def cleanupExpiredTemporaryRows : List Row → Nat → Service Nat
  | [], finalized => pure finalized
  | row :: rows, finalized => do
      let claim ← ask (.nextDeletionClaim row.expiredAt)
      let affected ← ask (.update (.claimExpiredTemporaryFile row claim))
      if affected = 1 then do
        let count ← deleteClaimedRow { row with deletionPendingAt := some claim } claim
        cleanupExpiredTemporaryRows rows (finalized + count)
      else cleanupExpiredTemporaryRows rows finalized

/-- The time is a parameter of the method; without one it is read from the clock. -/
def cleanupExpiredTemporaryFiles (now? : Option Int) (limit : Option Int) : Service Nat := do
  let now ← match now? with
    | some now => pure now
    | none => ask .now
  let rows ← ask (.find (.expiredTemporaryFiles now (systemDeletionLimit limit)))
  cleanupExpiredTemporaryRows rows 0

/-- The marker under which the retry sweep selected a row. -/
def selectedMarker (now : Int) (row : Row) : Option Int :=
  if before row.deletionPendingAt now then row.deletionPendingAt
  else if before row.uploadPendingAt now && row.deletionPendingAt.isNone then
    row.uploadPendingAt
  else none

/-- The loop of `unsafeSystemRetryPendingDeletions`; every failure of a row is
caught inside the loop. -/
def retryPendingDeletionRows (now : Int) : List Row → Nat → Service Nat
  | [], finalized => pure finalized
  | row :: rows, finalized =>
      match selectedMarker now row with
      | none => retryPendingDeletionRows now rows finalized
      | some marker => do
          let claim ← ask (.nextDeletionClaim (some marker))
          let reply ← tryAsk (.update (.claimPendingDeletion row claim))
          if reply = some 1 then do
            let count ← deleteClaimedRow
              { row with deletedAt := none, deletionPendingAt := some claim } claim
            retryPendingDeletionRows now rows (finalized + count)
          else retryPendingDeletionRows now rows finalized

/-- The unresolved uploads a sweep takes up: half the remaining capacity for first
attempts, half for retries, and what one half leaves over for the other. -/
def unresolvedTombstones (remaining : Nat) (initialTombstones retryTombstones : List Row) :
    List Row :=
  let initialQuota := (remaining + 1) / 2
  let retryQuota := remaining - initialQuota
  let unresolved := initialTombstones.take initialQuota ++ retryTombstones.take retryQuota
  unresolved ++
    (initialTombstones.drop initialQuota ++ retryTombstones.drop retryQuota).take
      (remaining - unresolved.length)

def unsafeSystemRetryPendingDeletions (limit : Option Int) : Service Nat := do
  let now ← ask .now
  let batchLimit := systemDeletionLimit limit
  let settled ← ask (.find (.settledDeletions now batchLimit))
  let remaining := batchLimit - settled.length
  if remaining = 0 then retryPendingDeletionRows now settled 0
  else do
    let initialTombstones ← ask (.find (.initialTombstones now remaining))
    let retryTombstones ← ask (.find (.retryTombstones now remaining))
    retryPendingDeletionRows now
      (settled ++ unresolvedTombstones remaining initialTombstones retryTombstones) 0

def cleanupPendingUploads (limit : Option Int) : Service Nat := do
  let bounded := some (systemDeletionLimit limit : Int)
  let expired ← unsafeSystemCleanupExpiredDirectUploads bounded
  let staged ← unsafeSystemCleanupCompletedStaging bounded
  let retried ← unsafeSystemRetryPendingDeletions bounded
  pure (expired + staged + retried)

def unsafeSystemRetireUploadTombstone (id : Option Uuid) : Service Bool := do
  let id ← check (resourceId id)
  let found ← ask (.findOne (.uploadTombstone id))
  match found with
  | none => pure false
  | some row =>
      match row.uploadPendingAt with
      | none => pure false
      | some uploadPendingAt => do
          let now ← ask .now
          if uploadPendingAt ≥ now ∨
              row.deletionPendingAt.any (fun marker => decide (marker ≥ now)) then
            pure false
          else do
            -- `immediateRetryMarkerFor` reads the clock again
            let moment ← ask .now
            let retryAt :=
              min (moment - 1) (row.deletionPendingAt.getD uploadPendingAt - 1)
            let affected ← ask (.update (.retireUploadTombstone row retryAt))
            pure (decide (affected = 1))

def unsafeSystemPurgeUnusedBefore (cutoff : Int) : Service Nat := do
  let claim ← ask (.nextDeletionClaim none)
  let candidates ← ask (.find (.unused cutoff))
  if candidates.isEmpty then pure 0
  else do
    let committed ← ask (.transact (.claimUnused candidates cutoff claim) candidates.length)
    if committed then do
      tryCatch
        (do
          let _ ← deleteAndFinalizePendingRows
            (candidates.map fun row => { row with deletionPendingAt := some claim }) claim none
          pure candidates.length)
        fun _ => throw (.badRequest "core.file.cleanup-failed" "File cleanup failed")
    else throw .thrown

end SdcoreNest.UploadedFile
