/-
# UploadedFile.Routine -- programs that a lenient conduct cannot object to

Most of the service neither completes an upload nor tidies up after one.  A conduct that
says something about those steps only is `Lenient`, and every other program keeps to it;
so a new conduct has to be checked against the completion and the staging sweep alone.

An abort, and with it the deletion of claimed rows, also writes no row and no object: it
keeps to every `Storeless` conduct.
-/
import SdcoreNest.UploadedFile.System

namespace SdcoreNest.UploadedFile

open SdcoreNest.Theory

set_option autoImplicit false

namespace Statement

/-- The ids an UPDATE of a batch is restricted to. -/
def batch : Statement → Option (List Uuid)
  | .markUsed ids _ _ => some ids
  | .claimUnused rows _ _ => some (rows.map Row.id)
  | .claimReferences rows _ _ => some (rows.map Row.id)
  | _ => none

/-- The statement neither completes an upload nor forgets its staging key. -/
def isRoutine : Statement → Bool
  | .claimCompletion .. | .reclaimCompletion .. | .finalizeCompletion .. | .clearPendingKey .. =>
      false
  | _ => true

end Statement

/-- Calls outside a completion, a transaction aside. -/
def Call.isRoutine : Call → Bool
  | .update statement => statement.isRoutine
  | .transact .. | .copyObject .. | .link .. | .unlink _ => false
  | _ => true

/-- Calls that write a new row or a new object. -/
def Call.stores : Call → Bool
  | .save _ | .putObject .. | .uploadSigned .. => true
  | _ => false

/-- The conduct allows what is routine and stores nothing. -/
structure Storeless (C : Conduct sig) : Prop where
  routine : ∀ {past call}, call.isRoutine = true → call.stores = false → C.allows past call

/-- The conduct allows what is routine, and transactions over whole batches. -/
structure Lenient (C : Conduct sig) : Prop where
  routine : ∀ {past call}, call.isRoutine = true → C.allows past call
  batches : ∀ {past statement ids}, statement.batch = some ids →
    C.allows past (.transact statement ids.length)

/-- A lenient conduct allows what is routine, so also what of it stores nothing. -/
theorem Lenient.storeless {C : Conduct sig} (lenient : Lenient C) : Storeless C where
  routine routine _ := lenient.routine routine

section

variable {C : Conduct sig} (storeless : Storeless C) {past : Past}

include storeless

/-! ## Deleting claimed rows -/

/-- Giving a claim back is one UPDATE after a clock reading. -/
theorem Storeless.releaseDeletionClaim (rows : List Row) (claim : Int) (access : Option Access) :
    Follows C (releaseDeletionClaim rows claim access) past anyhow := by
  unfold UploadedFile.releaseDeletionClaim
  split
  · trivial
  · refine Follows.ask_bind (storeless.routine rfl rfl) (fun now _ => ?_) fun _ => trivial
    exact Follows.ask_bind (storeless.routine rfl rfl) (fun _ _ => trivial) fun _ => trivial

theorem Storeless.clearFinalizedDeletionClaim (rows : List Row) (claim : Int)
    (access : Option Access) :
    Follows C (clearFinalizedDeletionClaim rows claim access) past anyhow := by
  unfold UploadedFile.clearFinalizedDeletionClaim
  split
  · trivial
  · refine Follows.ask_bind (storeless.routine rfl rfl) (fun affected _ => ?_) fun _ => trivial
    split <;> trivial

/-- Objects are deleted and rows closed: nothing is written that was not there. -/
theorem Storeless.deleteAndFinalizePendingRows (rows : List Row) (claim : Int)
    (access : Option Access) :
    Follows C (deleteAndFinalizePendingRows rows claim access) past anyhow := by
  unfold UploadedFile.deleteAndFinalizePendingRows
  split
  · trivial
  · refine Follows.catching ?_ (fun _ _ _ => trivial) fun error past' _ => ?_
    · refine Follows.ask_bind (storeless.routine rfl rfl) (fun _ _ => ?_) fun _ => trivial
      refine Follows.seq (fun _ _ => True) ?_ (fun finalized past' _ _ => ?_) fun _ _ _ => trivial
      · unfold finalizePendingRows
        split
        · trivial
        · exact Follows.ask (storeless.routine rfl rfl) (fun _ _ => trivial) fun _ => trivial
      · split
        · refine Follows.seq (fun _ _ => True) ?_ (fun _ _ _ _ => trivial) fun _ _ _ => trivial
          exact (storeless.clearFinalizedDeletionClaim rows claim access).swallowed
            fun _ _ => trivial
        · trivial
    · refine Follows.seq (fun _ _ => True) ?_ (fun _ _ _ _ => trivial) fun _ _ _ => trivial
      exact (storeless.releaseDeletionClaim rows claim access).swallowed fun _ _ => trivial

/-- The deletion of claimed rows, reported in other words when it fails. -/
theorem Storeless.deletingRows {α : Type} (rows : List Row) (claim : Int) (access : Option Access)
    (value : α) (error : ServiceError) :
    Follows C
      (tryCatch
        (do
          let _ ← UploadedFile.deleteAndFinalizePendingRows rows claim access
          pure value)
        fun _ => throw error : Service α) past anyhow := by
  refine Follows.catching ?_ (fun _ _ _ => trivial) fun _ _ _ => trivial
  exact Follows.seq _ (storeless.deleteAndFinalizePendingRows rows claim access)
    (fun _ _ _ _ => trivial) fun _ _ _ => trivial

/-! ## Aborting an upload -/

/-- A lookup and a look at the clock. -/
theorem Storeless.findLifecycleAuthorized (caller : Caller) (id : Option Uuid)
    (operation : Operation) :
    Follows C (findLifecycleAuthorized caller id operation) past anyhow := by
  unfold UploadedFile.findLifecycleAuthorized
  refine Follows.check_bind (fun id _ => ?_) fun _ => trivial
  refine Follows.check_bind (fun access _ => ?_) fun _ => trivial
  refine Follows.ask_bind (storeless.routine rfl rfl) (fun found _ => ?_) fun _ => trivial
  cases found <;> trivial

theorem Storeless.completionIsActive (row : Row) :
    Follows C (completionIsActive row) past anyhow := by
  unfold UploadedFile.completionIsActive
  split
  · exact Follows.ask_bind (storeless.routine rfl rfl) (fun _ _ => trivial) fun _ => trivial
  · trivial

/-- An abort claims and deletes; it never completes and never stores. -/
theorem Storeless.abortUpload (caller : Caller) (id : Option Uuid) :
    Follows C (abortUpload caller id) past anyhow := by
  unfold UploadedFile.abortUpload
  refine Follows.seq _ (storeless.findLifecycleAuthorized caller id .abort) ?_ fun _ _ _ => trivial
  rintro ⟨access, row⟩ past' - -
  simp only
  split
  · trivial
  · refine Follows.seq _ (storeless.completionIsActive row) ?_ fun _ _ _ => trivial
    intro active _ _ _
    split
    · trivial
    · refine Follows.ask_bind (storeless.routine rfl rfl) (fun claim _ => ?_) fun _ => trivial
      refine Follows.ask_bind (storeless.routine rfl rfl) (fun affected _ => ?_) fun _ => trivial
      split
      · exact storeless.deletingRows _ claim _ () _
      · trivial

end

section

variable {config : Config} {C : Conduct sig} (lenient : Lenient C) {past : Past}

include lenient

/-! ## Server-side uploads -/

/-- The clean-up of an upload that can not be activated, by induction on the attempts left. -/
theorem Lenient.deleteWrittenObject (saved : Row) (access : Access) (marker : Int)
    (attempts : Nat) :
    Follows C (deleteWrittenObjectWhenActivationIsImpossible saved access marker attempts) past
      anyhow := by
  induction attempts generalizing past with
  | zero => trivial
  | succ attempts ih =>
      unfold deleteWrittenObjectWhenActivationIsImpossible
      refine Follows.tryAsk_bind (lenient.routine rfl) fun reply _ => ?_
      match reply with
      | none => trivial
      | some none => trivial
      | some (some current) =>
          simp only
          split
          · trivial
          · refine Follows.ask_bind (lenient.routine rfl) (fun claim _ => ?_) fun _ => trivial
            refine Follows.tryAsk_bind (lenient.routine rfl) fun claimed _ => ?_
            match claimed with
            | none => trivial
            | some affected =>
                simp only
                split
                · exact (lenient.storeless.deleteAndFinalizePendingRows _ claim _).swallowed
                    fun _ _ => trivial
                · exact ih

/-- The first claim, or the attempts of the settlement when that one fails. -/
theorem Lenient.cleanupFailedUpload (saved : Row) (access : Access) (marker : Int) :
    Follows C (cleanupFailedUpload saved access marker) past anyhow := by
  unfold UploadedFile.cleanupFailedUpload
  refine Follows.ask_bind (lenient.routine rfl) (fun claim _ => ?_) fun _ => trivial
  refine Follows.tryAsk_bind (lenient.routine rfl) fun claimed _ => ?_
  split
  · exact (lenient.storeless.deleteAndFinalizePendingRows _ claim _).swallowed fun _ _ => trivial
  · exact lenient.deleteWrittenObject saved access marker 3

/-- The write of a server-side upload, given that its activation keeps to the conduct. -/
theorem Lenient.writeAndActivate (saved : Row) (access : Access) (marker : Int)
    (object : StoredObject) {activate : Service Row}
    (activates : ∀ {past}, Follows C activate past anyhow) :
    Follows C (writeAndActivate saved access marker object activate) past anyhow := by
  have failed : ∀ {past : Past}, Follows C
      (do
        UploadedFile.cleanupFailedUpload saved access marker
        throw uploadFailed : Service Row) past anyhow := fun {_} =>
    Follows.seq _ (lenient.cleanupFailedUpload saved access marker) (fun _ _ _ _ => trivial)
      fun _ _ _ => trivial
  unfold UploadedFile.writeAndActivate
  refine Follows.tryAsk_bind (lenient.routine rfl) fun stored _ => ?_
  split
  · refine Follows.catching activates (fun _ _ _ => trivial) fun _ past' _ => ?_
    unfold confirmedActiveUpload
    refine Follows.seq (fun _ _ => True) ?_ (fun active _ _ _ => ?_) fun _ _ _ => trivial
    · exact Follows.tryAsk_bind (lenient.routine rfl) fun _ _ => trivial
    · match active with
      | some active => trivial
      | none => exact failed
  · exact failed

/-- A server-side upload inserts, writes and activates, and never touches a lease. -/
theorem Lenient.uploadLegacy (caller : Caller) (buffer : Bytes) (fileName : Option String)
    (meta? : MetaInput) (extraData : Option String) (options : UploadOptions) :
    Follows C (uploadLegacy config caller buffer fileName meta? extraData options) past
      anyhow := by
  unfold UploadedFile.uploadLegacy
  refine Follows.check_bind (fun access _ => ?_) fun _ => trivial
  refine Follows.check_bind (fun file _ => ?_) fun _ => trivial
  refine Follows.check_bind (fun metadata _ => ?_) fun _ => trivial
  refine Follows.ask_bind (lenient.routine rfl) (fun id _ => ?_) fun _ => trivial
  refine Follows.ask_bind (lenient.routine rfl) (fun now _ => ?_) fun _ => trivial
  refine Follows.tryAsk_bind (lenient.routine rfl) fun reply _ => ?_
  match reply with
  | none => trivial
  | some saved =>
      refine lenient.writeAndActivate saved access _ _ fun {_} => ?_
      unfold activatePendingUpload
      refine Follows.ask_bind (lenient.routine rfl) (fun affected _ => ?_) fun _ => trivial
      split <;> trivial

theorem Lenient.uploadTemporaryLegacy (caller : Caller) (buffer : Bytes)
    (fileName : Option String) (options : UploadOptions) :
    Follows C (uploadTemporaryLegacy config caller buffer fileName options) past anyhow := by
  unfold UploadedFile.uploadTemporaryLegacy
  refine Follows.check_bind (fun access _ => ?_) fun _ => trivial
  split
  · refine Follows.check_bind (fun file _ => ?_) fun _ => trivial
    refine Follows.ask_bind (lenient.routine rfl) (fun id _ => ?_) fun _ => trivial
    refine Follows.ask_bind (lenient.routine rfl) (fun now _ => ?_) fun _ => trivial
    refine Follows.tryAsk_bind (lenient.routine rfl) fun reply _ => ?_
    match reply with
    | none => trivial
    | some saved =>
        refine lenient.writeAndActivate saved access _ _ fun {_} => ?_
        unfold activateTemporaryPendingUpload
        refine Follows.ask_bind (lenient.routine rfl) (fun completedAt _ => ?_) fun _ => trivial
        refine Follows.ask_bind (lenient.routine rfl) (fun affected _ => ?_) fun _ => trivial
        split <;> trivial
  · trivial

/-! ## Direct uploads, up to their completion -/

/-- An initiation saves the row and signs a URL, or cleans up after itself. -/
theorem Lenient.initiateManagedUpload (caller : Caller) (input : InitiateInput)
    (options : InitiateOptions) :
    Follows C (initiateManagedUpload config caller input options) past anyhow := by
  unfold UploadedFile.initiateManagedUpload
  refine Follows.check_bind (fun access _ => ?_) fun _ => trivial
  refine Follows.check_bind (fun _ _ => ?_) fun _ => trivial
  refine Follows.check_bind (fun limits _ => ?_) fun _ => trivial
  refine Follows.check_bind (fun file _ => ?_) fun _ => trivial
  refine Follows.check_bind (fun visibility _ => ?_) fun _ => trivial
  refine Follows.check_bind (fun metadata _ => ?_) fun _ => trivial
  refine Follows.check_bind (fun checksum _ => ?_) fun _ => trivial
  refine Follows.ask_bind (lenient.routine rfl) (fun id _ => ?_) fun _ => trivial
  refine Follows.ask_bind (lenient.routine rfl) (fun now _ => ?_) fun _ => trivial
  refine Follows.tryAsk_bind (lenient.routine rfl) fun reply _ => ?_
  match reply with
  | none => trivial
  | some saved =>
      refine Follows.seq (fun _ _ => True) ?_ (fun target _ _ _ => ?_) fun _ _ _ => trivial
      · unfold createUploadUrl
        split
        · trivial
        · exact Follows.tryAsk_bind (lenient.routine rfl) fun _ _ => trivial
      · match target with
        | some target => trivial
        | none =>
            exact Follows.seq _ (lenient.cleanupFailedUpload saved access _)
              (fun _ _ _ _ => trivial) fun _ _ _ => trivial

/-- A URL is made from the row, with or without a signature. -/
theorem Lenient.resolveRowUrl (row : Row) : Follows C (resolveRowUrl config row) past anyhow := by
  unfold UploadedFile.resolveRowUrl
  refine Follows.ask_bind (lenient.routine rfl) (fun now _ => ?_) fun _ => trivial
  refine Follows.check_bind (fun _ _ => ?_) fun _ => trivial
  split
  · trivial
  split
  · trivial
  split
  · trivial
  · refine Follows.tryAsk_bind (lenient.routine rfl) fun reply _ => ?_
    cases reply <;> trivial

theorem Lenient.toUploadedFileResult (row : Row) :
    Follows C (toUploadedFileResult config row) past anyhow :=
  Follows.seq _ (lenient.resolveRowUrl row) (fun _ _ _ _ => trivial) fun _ _ _ => trivial

/-- It always throws. -/
theorem Lenient.failRetryable {α : Type} {post : α → Past → Prop} (row : Row) (access : Access)
    (marker : Int) (error : ServiceError) :
    Follows C (failRetryable row access marker error) past (returning post) := by
  unfold UploadedFile.failRetryable markCompletionRetryable
  refine Follows.seq (fun _ _ => True) ?_ (fun _ _ _ _ => trivial) fun _ _ _ => trivial
  refine Follows.ask_bind (lenient.routine rfl) (fun now _ => ?_) fun _ => trivial
  exact Follows.tryAsk_bind (lenient.routine rfl) fun _ _ => trivial

/-! ## Reading -/

/-- Reading asks one query and the clock. -/
theorem Lenient.findAuthorized (caller : Caller) (id : Option Uuid) :
    Follows C (findAuthorized caller id) past anyhow := by
  unfold UploadedFile.findAuthorized
  refine Follows.check_bind (fun id _ => ?_) fun _ => trivial
  refine Follows.check_bind (fun access _ => ?_) fun _ => trivial
  refine Follows.ask_bind (lenient.routine rfl) (fun found _ => ?_) fun _ => trivial
  match found with
  | none => trivial
  | some row =>
      refine Follows.ask_bind (lenient.routine rfl) (fun now _ => ?_) fun _ => trivial
      exact Follows.check_bind (fun _ _ => trivial) fun _ => trivial

theorem Lenient.openStream (row : Row) : Follows C (openStream row) past anyhow := by
  unfold UploadedFile.openStream
  refine Follows.tryAsk_bind (lenient.routine rfl) fun reply _ => ?_
  split <;> trivial

/-- A download reads the row, then opens its stream. -/
theorem Lenient.downloadAttached (caller : Caller) (id : Option Uuid)
    (attachment : Option Attachment) :
    Follows C (downloadAttached caller id attachment) past anyhow := by
  unfold UploadedFile.downloadAttached
  refine Follows.check_bind (fun id _ => ?_) fun _ => trivial
  split
  · split
    · refine Follows.ask_bind (lenient.routine rfl) (fun found _ => ?_) fun _ => trivial
      match found with
      | none => trivial
      | some row =>
          refine Follows.ask_bind (lenient.routine rfl) (fun now _ => ?_) fun _ => trivial
          exact Follows.check_bind (fun _ _ => lenient.openStream row) fun _ => trivial
    · trivial
  · trivial

theorem Lenient.find (caller : Caller) (id : Option Uuid) :
    Follows C (find config caller id) past anyhow := by
  unfold UploadedFile.find
  refine Follows.seq _ (lenient.storeless.findLifecycleAuthorized caller id .read) ?_
    fun _ _ _ => trivial
  rintro ⟨access, row⟩ past' - -
  simp only
  split
  · exact lenient.toUploadedFileResult row
  · trivial

/-! ## Changing and deleting -/

theorem Lenient.setExtraData (caller : Caller) (id : Option Uuid) (extraData : Option String) :
    Follows C (setExtraData caller id extraData) past anyhow := by
  unfold UploadedFile.setExtraData
  refine Follows.check_bind (fun id _ => ?_) fun _ => trivial
  refine Follows.check_bind (fun access _ => ?_) fun _ => trivial
  refine Follows.ask_bind (lenient.routine rfl) (fun affected _ => ?_) fun _ => trivial
  split <;> trivial

/-- A batch, counted by what was sent or read and not by the ids. -/
theorem Lenient.batch {α : Type} {id : α → Uuid} {statement : Statement} {batch : List α}
    (batched : statement.batch = some (batch.map id)) :
    C.allows past (.transact statement batch.length) := by
  have allowed : C.allows past (.transact statement (batch.map id).length) :=
    lenient.batches batched
  simpa using allowed

/-- The ids are marked in one transaction, which counts those that were read. -/
theorem Lenient.markUsed (caller : Caller) (ids : List (Option SentId)) (meta? : MetaInput) :
    Follows C (markUsed config caller ids meta?) past anyhow := by
  unfold UploadedFile.markUsed
  refine Follows.check_bind (fun unique _ => ?_) fun _ => trivial
  split
  · trivial
  · refine Follows.check_bind (fun access _ => ?_) fun _ => trivial
    refine Follows.check_bind (fun metadata _ => ?_) fun _ => trivial
    unfold mutateIds
    refine Follows.ask_bind (lenient.routine rfl) (fun rows _ => ?_) fun _ => trivial
    split
    · trivial
    · refine Follows.ask_bind (lenient.batch rfl) (fun committed _ => ?_) fun _ => trivial
      split <;> trivial

theorem Lenient.rowsForReferences (access : Access) (references : List String) :
    Follows C (rowsForReferences config access references) past anyhow := by
  unfold UploadedFile.rowsForReferences
  refine Follows.ask_bind (lenient.routine rfl) (fun rows _ => ?_) fun _ => trivial
  split <;> trivial

/-- The same through keys and URLs instead of ids. -/
theorem Lenient.useFiles (caller : Caller) (references : List String)
    (entity entityId : Option String) :
    Follows C (useFiles config caller references entity entityId) past anyhow := by
  unfold UploadedFile.useFiles
  refine Follows.check_bind (fun unique _ => ?_) fun _ => trivial
  split
  · trivial
  · refine Follows.check_bind (fun access _ => ?_) fun _ => trivial
    refine Follows.check_bind (fun metadata _ => ?_) fun _ => trivial
    refine Follows.seq _ (lenient.rowsForReferences access unique) ?_ fun _ _ _ => trivial
    intro rows past' _ _
    refine Follows.ask_bind (lenient.batch rfl) (fun committed _ => ?_) fun _ => trivial
    split <;> trivial

/-- The rows are claimed in one transaction and then deleted one store call at a time. -/
theorem Lenient.delete (caller : Caller) (references : List String) :
    Follows C (delete config caller references) past anyhow := by
  unfold UploadedFile.delete
  refine Follows.check_bind (fun unique _ => ?_) fun _ => trivial
  split
  · trivial
  · refine Follows.check_bind (fun access _ => ?_) fun _ => trivial
    refine Follows.ask_bind (lenient.routine rfl) (fun claim _ => ?_) fun _ => trivial
    refine Follows.seq _ (lenient.rowsForReferences access unique) ?_ fun _ _ _ => trivial
    intro rows past' _ _
    refine Follows.ask_bind (lenient.batch rfl) (fun committed _ => ?_) fun _ => trivial
    split
    · exact lenient.storeless.deletingRows _ claim _ () _
    · trivial

/-- The files kept are used first, those given up are deleted after. -/
theorem Lenient.changeFiles (caller : Caller) (olds news : List String)
    (entity entityId : Option String) :
    Follows C (changeFiles config caller olds news entity entityId) past anyhow := by
  unfold UploadedFile.changeFiles
  refine Follows.check_bind (fun oldReferences _ => ?_) fun _ => trivial
  refine Follows.check_bind (fun newReferences _ => ?_) fun _ => trivial
  exact Follows.seq _ (lenient.useFiles caller _ entity entityId)
    (fun _ _ _ _ => lenient.delete caller _) fun _ _ _ => trivial

/-- Deleting by id runs one transaction over one row. -/
theorem Lenient.deleteById
    (claims : ∀ {past current access claim},
      C.allows past (.transact (.claimById current access claim) 1))
    (caller : Caller) (id : Option Uuid) : Follows C (deleteById caller id) past anyhow := by
  unfold UploadedFile.deleteById
  refine Follows.check_bind (fun id _ => ?_) fun _ => trivial
  refine Follows.check_bind (fun access _ => ?_) fun _ => trivial
  refine Follows.ask_bind (lenient.routine rfl) (fun claim _ => ?_) fun _ => trivial
  refine Follows.ask_bind (lenient.routine rfl) (fun found _ => ?_) fun _ => trivial
  match found with
  | none => trivial
  | some current =>
      refine Follows.seq _ (lenient.storeless.completionIsActive current) ?_ fun _ _ _ => trivial
      intro active _ _ _
      split
      · trivial
      · refine Follows.ask_bind claims (fun committed _ => ?_) fun _ => trivial
        split
        · exact lenient.storeless.deletingRows _ claim _ () _
        · trivial

/-! ## Sweeps, retirement and purge -/

/-- A sweep swallows what goes wrong with one row and goes on. -/
theorem Lenient.deleteClaimedRow (row : Row) (claim : Int) :
    Follows C (deleteClaimedRow row claim) past anyhow :=
  Follows.catching (lenient.storeless.deleteAndFinalizePendingRows _ claim _) (fun _ _ _ => trivial)
    fun _ _ _ => trivial

/-- Row after row, whatever became of the one before. -/
theorem Lenient.cleanupExpiredDirectRows (rows : List Row) (finalized : Nat) :
    Follows C (cleanupExpiredDirectRows rows finalized) past anyhow := by
  induction rows generalizing past finalized with
  | nil => trivial
  | cons row rows ih =>
      unfold UploadedFile.cleanupExpiredDirectRows
      split
      · exact ih finalized
      · refine Follows.ask_bind (lenient.routine rfl) (fun claim _ => ?_) fun _ => trivial
        refine Follows.ask_bind (lenient.routine rfl) (fun affected _ => ?_) fun _ => trivial
        split
        · exact Follows.seq _ (lenient.deleteClaimedRow _ claim) (fun count _ _ _ => ih _)
            fun _ _ _ => trivial
        · exact ih finalized

theorem Lenient.cleanupExpiredDirectUploads (limit : Option Int) :
    Follows C (unsafeSystemCleanupExpiredDirectUploads limit) past anyhow := by
  unfold unsafeSystemCleanupExpiredDirectUploads
  refine Follows.ask_bind (lenient.routine rfl) (fun now _ => ?_) fun _ => trivial
  exact Follows.ask_bind (lenient.routine rfl)
    (fun rows _ => lenient.cleanupExpiredDirectRows rows 0) fun _ => trivial

theorem Lenient.cleanupExpiredTemporaryRows (rows : List Row) (finalized : Nat) :
    Follows C (cleanupExpiredTemporaryRows rows finalized) past anyhow := by
  induction rows generalizing past finalized with
  | nil => trivial
  | cons row rows ih =>
      unfold UploadedFile.cleanupExpiredTemporaryRows
      refine Follows.ask_bind (lenient.routine rfl) (fun claim _ => ?_) fun _ => trivial
      refine Follows.ask_bind (lenient.routine rfl) (fun affected _ => ?_) fun _ => trivial
      split
      · exact Follows.seq _ (lenient.deleteClaimedRow _ claim) (fun count _ _ _ => ih _)
          fun _ _ _ => trivial
      · exact ih finalized

/-- The sweep reads the clock unless it was told the time. -/
theorem Lenient.cleanupExpiredTemporaryFiles (now? : Option Int) (limit : Option Int) :
    Follows C (cleanupExpiredTemporaryFiles now? limit) past anyhow := by
  unfold UploadedFile.cleanupExpiredTemporaryFiles
  have swept : ∀ {past : Past} (now : Int), Follows C
      (do
        let rows ← ask (.find (.expiredTemporaryFiles now (systemDeletionLimit limit)))
        UploadedFile.cleanupExpiredTemporaryRows rows 0) past anyhow := fun now =>
    Follows.ask_bind (lenient.routine rfl)
      (fun rows _ => lenient.cleanupExpiredTemporaryRows rows 0) fun _ => trivial
  cases now? with
  | some now => exact swept now
  | none => exact Follows.ask_bind (lenient.routine rfl) (fun now _ => swept now) fun _ => trivial

theorem Lenient.retryPendingDeletionRows (now : Int) (rows : List Row) (finalized : Nat) :
    Follows C (retryPendingDeletionRows now rows finalized) past anyhow := by
  induction rows generalizing past finalized with
  | nil => trivial
  | cons row rows ih =>
      unfold UploadedFile.retryPendingDeletionRows
      split
      · exact ih finalized
      · refine Follows.ask_bind (lenient.routine rfl) (fun claim _ => ?_) fun _ => trivial
        refine Follows.tryAsk_bind (lenient.routine rfl) fun reply _ => ?_
        split
        · exact Follows.seq _ (lenient.deleteClaimedRow _ claim) (fun count _ _ _ => ih _)
            fun _ _ _ => trivial
        · exact ih finalized

/-- One page of settled rows, and two more when it is not full. -/
theorem Lenient.retryPendingDeletions (limit : Option Int) :
    Follows C (unsafeSystemRetryPendingDeletions limit) past anyhow := by
  unfold unsafeSystemRetryPendingDeletions
  refine Follows.ask_bind (lenient.routine rfl) (fun now _ => ?_) fun _ => trivial
  refine Follows.ask_bind (lenient.routine rfl) (fun settled _ => ?_) fun _ => trivial
  simp only
  split
  · exact lenient.retryPendingDeletionRows now settled 0
  · refine Follows.ask_bind (lenient.routine rfl) (fun initial _ => ?_) fun _ => trivial
    exact Follows.ask_bind (lenient.routine rfl)
      (fun retried _ => lenient.retryPendingDeletionRows now _ 0) fun _ => trivial

/-- A read, two looks at the clock and one UPDATE. -/
theorem Lenient.retireUploadTombstone (id : Option Uuid) :
    Follows C (unsafeSystemRetireUploadTombstone id) past anyhow := by
  unfold unsafeSystemRetireUploadTombstone
  refine Follows.check_bind (fun id _ => ?_) fun _ => trivial
  refine Follows.ask_bind (lenient.routine rfl) (fun found _ => ?_) fun _ => trivial
  match found with
  | none => trivial
  | some row =>
      simp only
      split
      · trivial
      · refine Follows.ask_bind (lenient.routine rfl) (fun now _ => ?_) fun _ => trivial
        split
        · trivial
        · refine Follows.ask_bind (lenient.routine rfl) (fun moment _ => ?_) fun _ => trivial
          exact Follows.ask_bind (lenient.routine rfl) (fun _ _ => trivial) fun _ => trivial

/-- The candidates are claimed as one batch and then deleted. -/
theorem Lenient.purgeUnusedBefore (cutoff : Int) :
    Follows C (unsafeSystemPurgeUnusedBefore cutoff) past anyhow := by
  unfold unsafeSystemPurgeUnusedBefore
  refine Follows.ask_bind (lenient.routine rfl) (fun claim _ => ?_) fun _ => trivial
  refine Follows.ask_bind (lenient.routine rfl) (fun candidates _ => ?_) fun _ => trivial
  split
  · trivial
  · refine Follows.ask_bind (lenient.batch rfl) (fun committed _ => ?_) fun _ => trivial
    split
    · exact lenient.storeless.deletingRows _ claim _ _ _
    · trivial

end

/-- A request keeps to a conduct when the method behind it does. -/
theorem replying_obeys {α : Type} {C : Conduct sig} (wrap : α → Reply) {body : Service α}
    (follows : Follows C body [] anyhow) :
    Program.Obeys C (replying wrap body) [] fun _ _ => True := by
  have sequence : Follows C (do let value ← body; pure (wrap value) : Service Reply) []
      anyhow := Follows.seq _ follows (fun _ _ _ _ => trivial) fun _ _ _ => trivial
  exact Program.obeys_mono sequence fun _ _ _ => trivial

end SdcoreNest.UploadedFile
