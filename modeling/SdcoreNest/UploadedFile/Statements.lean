/-
# UploadedFile.Statements -- the SQL the service issues

One constructor per UPDATE (or soft delete) and per SELECT of
`UploadedFileService`, with the values the service puts into it: the snapshot row
it read before, the caller's access and the new markers.  `Statement.chosen` is
the WHERE clause, `Statement.patch` the SET clause, `Query.chosen` the WHERE
clause of a SELECT.  TypeORM adds `deletedAt IS NULL` to a SELECT without
`withDeleted` and nothing to an UPDATE.
-/
import Mathlib.Data.List.Sort
import SdcoreNest.Theory.Keyed
import SdcoreNest.UploadedFile.Entity

namespace SdcoreNest.UploadedFile

set_option autoImplicit false

/-- Fifteen minutes, `UPLOAD_ACTIVATION_LEASE_MS`. -/
def uploadActivationLeaseMs : Int := 900000

/-- Fifteen minutes, `DELETION_CLAIM_LEASE_MS`. -/
def deletionClaimLeaseMs : Int := 900000

/-- One minute, `DELETION_RETRY_BACKOFF_MS`. -/
def deletionRetryBackoffMs : Int := 60000

/-- One day, `TEMPORARY_FILE_LIFETIME_MS`. -/
def temporaryFileLifetimeMs : Int := 86400000

def uploadedFileBatchLimit : Nat := 100

inductive Statement where
  | activatePendingUpload (saved : Row) (access : Access) (marker : Int)
  | activateTemporaryPendingUpload (saved : Row) (access : Access) (marker completedAt : Int)
  | claimFailedUpload (saved : Row) (access : Access) (marker claim : Int)
  | settleFailedUpload (current : Row) (access : Access) (claim : Int)
  | releaseDeletionClaim (rows : List Row) (claim : Int) (access : Option Access)
      (retryAt : Int)
  | finalizePendingRows (rows : List Row) (claim : Int) (access : Option Access)
  | clearFinalizedDeletionClaim (rows : List Row) (claim : Int) (access : Option Access)
  | markCompletionRetryable (row : Row) (access : Access) (marker retryAt : Int)
  | claimCompletion (row : Row) (access : Access) (marker : Int) (etag : Option Etag)
  | reclaimCompletion (row : Row) (access : Access) (marker : Int) (etag : Option Etag)
  | finalizeCompletion (row : Row) (access : Access) (marker completedAt : Int)
      (etag : Option Etag) (checksum : Option String) (dropPendingKey : Bool)
  | claimAbort (row : Row) (access : Access) (claim : Int)
  | claimReferences (rows : List Row) (access : Access) (claim : Int)
  | claimById (current : Row) (access : Access) (claim : Int)
  | claimExpiredDirectUpload (row : Row) (claim : Int)
  | clearPendingKey (row : Row)
  | claimExpiredTemporaryFile (row : Row) (claim : Int)
  | claimPendingDeletion (row : Row) (claim : Int)
  | retireUploadTombstone (row : Row) (retryAt : Int)
  | claimUnused (rows : List Row) (cutoff claim : Int)
  | markUsed (ids : List Uuid) (access : Access) (metadata : Meta)
  | setExtraData (id : Uuid) (access : Access) (extraData : Option String)
deriving DecidableEq, Repr

/-- The row still carries the id and the three markers of a snapshot, as the snapshot has them. -/
def Row.sameMarkers (snapshot row : Row) : Bool :=
  decide (row.id = snapshot.id) && decide (row.deletedAt = snapshot.deletedAt.map .whole) &&
    decide (row.uploadPendingAt = snapshot.uploadPendingAt) &&
    decide (row.deletionPendingAt = snapshot.deletionPendingAt)

/-- The patch entry `...(snapshot.deletedAt ? { deletedAt: null } : {})`. -/
def Row.reopen (snapshot row : Row) : Option Moment :=
  if snapshot.deletedAt.isSome then none else row.deletedAt

/-- The criteria of `pendingDeletionWhere`: the expected markers are those of the first row. -/
def pendingDeletionWhere (rows : List Row) (marker : Int) (access : Option Access)
    (row : Row) : Bool :=
  decide (row.id ∈ rows.map Row.id) && coveredBy access row &&
    decide (row.deletedAt = (rows.head?.bind Row.deletedAt).map .whole) &&
    decide (row.uploadPendingAt = rows.head?.bind Row.uploadPendingAt) &&
    decide (row.deletionPendingAt = some marker)

/-- The criteria of a purge, without the ids. -/
def unusedBefore (cutoff : Int) (row : Row) : Bool :=
  row.visible && !row.isUsed && !row.isTemporary && decide (row.createdAt < cutoff)

theorem Row.sameMarkers_eq_true {snapshot row : Row} :
    snapshot.sameMarkers row = true ↔
      row.id = snapshot.id ∧ row.deletedAt = snapshot.deletedAt.map .whole ∧
        row.uploadPendingAt = snapshot.uploadPendingAt ∧
        row.deletionPendingAt = snapshot.deletionPendingAt := by
  simp [sameMarkers, and_assoc]

theorem pendingDeletionWhere_eq_true {rows : List Row} {marker : Int} {access : Option Access}
    {row : Row} :
    pendingDeletionWhere rows marker access row = true ↔
      row.id ∈ rows.map Row.id ∧ coveredBy access row = true ∧
        row.deletedAt = (rows.head?.bind Row.deletedAt).map .whole ∧
        row.uploadPendingAt = rows.head?.bind Row.uploadPendingAt ∧
        row.deletionPendingAt = some marker := by
  simp only [pendingDeletionWhere, Bool.and_eq_true, decide_eq_true_eq, and_assoc]

theorem unusedBefore_eq_true {cutoff : Int} {row : Row} :
    unusedBefore cutoff row = true ↔
      row.visible = true ∧ row.isUsed = false ∧ row.isTemporary = false ∧
        row.createdAt < cutoff := by
  simp [unusedBefore, and_assoc]

namespace Statement

/-- The WHERE clause. -/
def chosen : Statement → Row → Bool
  | .activatePendingUpload saved access marker, row
  | .activateTemporaryPendingUpload saved access marker _, row
  | .claimFailedUpload saved access marker _, row => access.pendingUploadWhere saved marker row
  | .settleFailedUpload current access _, row => access.owns row && current.sameMarkers row
  | .releaseDeletionClaim rows claim access _, row
  | .finalizePendingRows rows claim access, row => pendingDeletionWhere rows claim access row
  | .clearFinalizedDeletionClaim rows claim access, row =>
      decide (row.id ∈ rows.map Row.id) && coveredBy access row && row.deletedAt.isSome &&
        row.uploadPendingAt.isNone && decide (row.deletionPendingAt = some claim)
  | .markCompletionRetryable snapshot access marker _, row
  | .finalizeCompletion snapshot access marker _ _ _ _, row =>
      access.lifecycleWhere snapshot.id row && decide (row.status = .completing) &&
        decide (row.uploadPendingAt = some marker)
  | .claimCompletion snapshot access _ _, row =>
      access.lifecycleWhere snapshot.id row && decide (row.status = .pending) &&
        decide (row.uploadPendingAt = snapshot.uploadPendingAt)
  | .reclaimCompletion snapshot access _ _, row =>
      access.lifecycleWhere snapshot.id row && decide (row.status = .completing) &&
        decide (row.uploadPendingAt = snapshot.uploadPendingAt) &&
        decide (row.etag = snapshot.etag)
  | .claimAbort snapshot access _, row
  | .claimById snapshot access _, row =>
      access.lifecycleWhere snapshot.id row && decide (row.status = snapshot.status) &&
        decide (row.uploadPendingAt = snapshot.uploadPendingAt)
  | .claimReferences rows access _, row =>
      access.active row && decide (row.id ∈ rows.map Row.id)
  | .claimExpiredDirectUpload snapshot _, row =>
      snapshot.sameMarkers row && decide (row.status = snapshot.status)
  | .clearPendingKey snapshot, row =>
      decide (row.id = snapshot.id) && decide (row.status = .ready) &&
        decide (row.pendingKey = snapshot.pendingKey) && row.deletedAt.isNone &&
        row.deletionPendingAt.isNone
  | .claimExpiredTemporaryFile snapshot _, row =>
      decide (row.id = snapshot.id) && decide (row.status = .ready) && row.isTemporary &&
        decide (row.expiredAt = snapshot.expiredAt) && row.visible
  | .claimPendingDeletion snapshot _, row
  | .retireUploadTombstone snapshot _, row => snapshot.sameMarkers row
  | .claimUnused rows cutoff _, row =>
      unusedBefore cutoff row && decide (row.id ∈ rows.map Row.id)
  | .markUsed ids access _, row => access.active row && decide (row.id ∈ ids)
  | .setExtraData id access _, row => access.active row && decide (row.id = id)

/-- The SET clause; `clock` is the database's `CURRENT_TIMESTAMP`. -/
def patch (clock : Moment) : Statement → Row → Row
  | .activatePendingUpload _ _ _, row => { row with uploadPendingAt := none }
  | .activateTemporaryPendingUpload _ _ _ completedAt, row =>
      { row with
        status := .ready
        isTemporary := true
        uploadPendingAt := none
        completedAt := some completedAt
        expiredAt := some (completedAt + temporaryFileLifetimeMs) }
  | .claimFailedUpload _ _ _ claim, row =>
      { row with uploadPendingAt := none, deletionPendingAt := some claim }
  | .settleFailedUpload current _ claim, row =>
      { row with
        uploadPendingAt := none
        deletionPendingAt := some claim
        deletedAt := current.reopen row }
  | .releaseDeletionClaim _ _ _ retryAt, row => { row with deletionPendingAt := some retryAt }
  | .finalizePendingRows _ _ _, row => { row with deletedAt := some clock }
  | .clearFinalizedDeletionClaim _ _ _, row => { row with deletionPendingAt := none }
  | .markCompletionRetryable _ _ _ retryAt, row => { row with uploadPendingAt := some retryAt }
  | .claimCompletion _ _ marker etag, row =>
      { row with status := .completing, uploadPendingAt := some marker, etag := etag }
  | .reclaimCompletion snapshot _ marker etag, row =>
      { row with uploadPendingAt := some marker, etag := snapshot.etag <|> etag }
  | .finalizeCompletion snapshot _ _ completedAt etag checksum dropPendingKey, row =>
      { row with
        status := .ready
        uploadPendingAt := none
        completedAt := some completedAt
        expiredAt :=
          if snapshot.isTemporary then some (completedAt + temporaryFileLifetimeMs) else none
        etag := etag
        checksum := checksum <|> row.checksum
        pendingKey := if dropPendingKey then none else row.pendingKey }
  | .claimAbort _ _ claim, row =>
      { row with
        status := .failed
        uploadPendingAt := none
        deletionPendingAt := some claim }
  | .claimReferences _ _ claim, row
  | .claimExpiredTemporaryFile _ claim, row
  | .claimUnused _ _ claim, row => { row with deletionPendingAt := some claim }
  | .claimById current _ claim, row =>
      { row with
        status := if current.status = .ready then .ready else .failed
        uploadPendingAt := none
        deletionPendingAt := some claim }
  | .claimExpiredDirectUpload snapshot claim, row =>
      { row with
        status := .failed
        uploadPendingAt := none
        deletionPendingAt := some claim
        deletedAt := snapshot.reopen row }
  | .clearPendingKey _, row => { row with pendingKey := none }
  | .claimPendingDeletion snapshot claim, row =>
      { row with deletionPendingAt := some claim, deletedAt := snapshot.reopen row }
  | .retireUploadTombstone snapshot retryAt, row =>
      { row with
        uploadPendingAt := none
        deletionPendingAt := some retryAt
        deletedAt := snapshot.reopen row }
  | .markUsed _ _ metadata, row =>
      { row with isUsed := true, metadata := metadata.over row.metadata }
  | .setExtraData _ _ extraData, row => { row with extraData := extraData }

/-- What no statement of the service ever changes. -/
structure SameFile (row row' : Row) : Prop where
  id : row'.id = row.id
  tenantCode : row'.tenantCode = row.tenantCode
  departmentCode : row'.departmentCode = row.departmentCode
  userId : row'.userId = row.userId
  fileName : row'.fileName = row.fileName
  sizeBytes : row'.sizeBytes = row.sizeBytes
  contentType : row'.contentType = row.contentType
  key : row'.key = row.key
  visibility : row'.visibility = row.visibility
  uploadExpiredAt : row'.uploadExpiredAt = row.uploadExpiredAt
  createdAt : row'.createdAt = row.createdAt

theorem SameFile.refl (row : Row) : SameFile row row :=
  ⟨rfl, rfl, rfl, rfl, rfl, rfl, rfl, rfl, rfl, rfl, rfl⟩

theorem SameFile.symm {row row' : Row} (same : SameFile row row') : SameFile row' row :=
  ⟨same.id.symm, same.tenantCode.symm, same.departmentCode.symm, same.userId.symm,
    same.fileName.symm, same.sizeBytes.symm, same.contentType.symm, same.key.symm,
    same.visibility.symm, same.uploadExpiredAt.symm, same.createdAt.symm⟩

theorem SameFile.trans {row row' row'' : Row} (first : SameFile row row')
    (second : SameFile row' row'') : SameFile row row'' :=
  ⟨second.id.trans first.id, second.tenantCode.trans first.tenantCode,
    second.departmentCode.trans first.departmentCode, second.userId.trans first.userId,
    second.fileName.trans first.fileName, second.sizeBytes.trans first.sizeBytes,
    second.contentType.trans first.contentType, second.key.trans first.key,
    second.visibility.trans first.visibility,
    second.uploadExpiredAt.trans first.uploadExpiredAt, second.createdAt.trans first.createdAt⟩

theorem patch_sameFile (clock : Moment) (statement : Statement) (row : Row) :
    SameFile row (statement.patch clock row) := by
  cases statement <;> exact ⟨rfl, rfl, rfl, rfl, rfl, rfl, rfl, rfl, rfl, rfl, rfl⟩

@[simp] theorem patch_id (clock : Moment) (statement : Statement) (row : Row) :
    (statement.patch clock row).id = row.id := (patch_sameFile clock statement row).id

/-- The rows a deletion claim takes over, as the service holds them after the
claim was answered, with the claim and the access of the later statements. -/
def claims : Statement → Option (List Row × Int × Option Access)
  | .claimFailedUpload saved access _ claim =>
      some ([{ saved with uploadPendingAt := none, deletionPendingAt := some claim }], claim,
        some access)
  | .settleFailedUpload current access claim =>
      some ([{ current with
        deletedAt := none, uploadPendingAt := none, deletionPendingAt := some claim }], claim,
        some access)
  | .claimAbort row access claim =>
      some ([{ row with
        status := .failed, uploadPendingAt := none, deletionPendingAt := some claim }], claim,
        some access)
  | .claimReferences rows access claim =>
      some (rows.map fun row => { row with deletionPendingAt := some claim }, claim, some access)
  | .claimById current access claim =>
      some ([{ current with
        uploadPendingAt := none
        deletionPendingAt := some claim
        status := if current.status = .ready then current.status else .failed }], claim,
        some access)
  | .claimExpiredDirectUpload row claim =>
      some ([{ row with
        status := .failed
        deletedAt := none
        uploadPendingAt := none
        deletionPendingAt := some claim }], claim, none)
  | .claimExpiredTemporaryFile row claim =>
      some ([{ row with deletionPendingAt := some claim }], claim, none)
  | .claimPendingDeletion row claim =>
      some ([{ row with deletedAt := none, deletionPendingAt := some claim }], claim, none)
  | .claimUnused rows _ claim =>
      some (rows.map fun row => { row with deletionPendingAt := some claim }, claim, none)
  | _ => none

end Statement

/-! ## Queries -/

/-- A domain attachment, `UploadedFileAttachment`. -/
structure Attachment where
  module : String
  entity : String
  entityId : Uuid
deriving DecidableEq, Repr

inductive Query where
  | confirmedActiveUpload (saved : Row) (access : Access)
  | currentUpload (saved : Row) (access : Access)
  | lifecycle (access : Access) (id : Uuid)
  | authorized (access : Access) (id : Uuid)
  | attached (scope : Scope) (id : Uuid) (attachment : Attachment)
  | byReferences (access : Access) (keys cdns : List String)
  | byIds (access : Access) (ids : List Uuid)
  | expiredDirectUploads (now : Int) (take : Nat)
  | completedStaging (now : Int) (take : Nat)
  | expiredTemporaryFiles (now : Int) (take : Nat)
  | settledDeletions (now : Int) (take : Nat)
  | initialTombstones (now : Int) (take : Nat)
  | retryTombstones (now : Int) (take : Nat)
  | uploadTombstone (id : Uuid)
  | unused (cutoff : Int)
deriving DecidableEq, Repr

/-- SQL comparisons with a nullable timestamp: NULL satisfies none. -/
def before (at? : Option Int) (now : Int) : Bool :=
  match at? with
  | some moment => decide (moment < now)
  | none => false

def notAfter (at? : Option Int) (now : Int) : Bool :=
  match at? with
  | some moment => decide (moment ≤ now)
  | none => false

@[simp] theorem before_eq_true {at? : Option Int} {now : Int} :
    before at? now = true ↔ ∃ moment, at? = some moment ∧ moment < now := by
  cases at? <;> simp [before]

@[simp] theorem notAfter_eq_true {at? : Option Int} {now : Int} :
    notAfter at? now = true ↔ ∃ moment, at? = some moment ∧ moment ≤ now := by
  cases at? <;> simp [notAfter]

namespace Query

/-- The WHERE clause; `keyText` renders a storage key. -/
def chosen (keyText : StorageKey → String) : Query → Row → Bool
  | .confirmedActiveUpload saved access, row =>
      decide (row.id = saved.id) && access.owns row && row.visible
  | .currentUpload saved access, row => decide (row.id = saved.id) && access.owns row
  | .lifecycle access id, row => access.lifecycleWhere id row
  | .authorized access id, row => access.active row && decide (row.id = id)
  | .attached scope id attachment, row =>
      decide (row.id = id) && decide (row.tenantCode = scope.tenantCode) && row.isUsed &&
        decide (row.metadata.module = some attachment.module) &&
        decide (row.metadata.entity = some attachment.entity) &&
        decide (row.metadata.entityId = some attachment.entityId) && row.visible
  | .byReferences access keys cdns, row =>
      access.active row && (decide (keyText row.key ∈ keys) || decide (row.cdn ∈ cdns))
  | .byIds access ids, row => access.active row && decide (row.id ∈ ids)
  | .expiredDirectUploads now _, row =>
      (decide (row.status = .pending) || decide (row.status = .completing)) &&
        row.pendingKey.isSome && notAfter row.uploadExpiredAt now &&
        notAfter row.uploadPendingAt now &&
        (row.deletionPendingAt.isNone || before row.deletionPendingAt now)
  | .completedStaging now _, row =>
      decide (row.status = .ready) && row.pendingKey.isSome &&
        notAfter row.uploadExpiredAt now && row.deletedAt.isNone &&
        row.deletionPendingAt.isNone
  | .expiredTemporaryFiles now _, row =>
      decide (row.status = .ready) && row.isTemporary && notAfter row.expiredAt now &&
        row.visible
  | .settledDeletions now _, row =>
      row.uploadPendingAt.isNone && before row.deletionPendingAt now
  | .initialTombstones now _, row =>
      before row.uploadPendingAt now && row.deletionPendingAt.isNone
  | .retryTombstones now _, row =>
      before row.uploadPendingAt now && before row.deletionPendingAt now
  | .uploadTombstone id, row => decide (row.id = id) && row.uploadPendingAt.isSome
  | .unused cutoff, row => unusedBefore cutoff row

/-- The ORDER BY column, ascending. -/
def orderedBy : Query → Option (Row → Option Int)
  | .expiredDirectUploads _ _ => some Row.uploadPendingAt
  | .completedStaging _ _ => some Row.uploadExpiredAt
  | .expiredTemporaryFiles _ _ => some Row.expiredAt
  | .settledDeletions _ _ => some Row.deletionPendingAt
  | .initialTombstones _ _ => some Row.uploadPendingAt
  | .retryTombstones _ _ => some Row.deletionPendingAt
  | .unused _ => some fun row => some row.createdAt
  | _ => none

/-- The LIMIT. -/
def take? : Query → Option Nat
  | .expiredDirectUploads _ take
  | .completedStaging _ take
  | .expiredTemporaryFiles _ take
  | .settledDeletions _ take
  | .initialTombstones _ take
  | .retryTombstones _ take => some take
  | .unused _ => some uploadedFileBatchLimit
  | _ => none

/-- Ascending order of a nullable timestamp, NULL last as in PostgreSQL. -/
def ordered (column : Row → Option Int) (first second : Row) : Bool :=
  match column first, column second with
  | some a, some b => decide (a ≤ b)
  | some _, none => true
  | none, some _ => false
  | none, none => true

/-- The rows a SELECT returns: filtered, ordered (ties in table order), cut off. -/
def select (keyText : StorageKey → String) (query : Query) (rows : List Row) : List Row :=
  let found := rows.filter (query.chosen keyText)
  let sorted := match query.orderedBy with
    | some column => found.insertionSort fun first second => ordered column first second = true
    | none => found
  match query.take? with
  | some limit => sorted.take limit
  | none => sorted

theorem mem_of_mem_select {keyText : StorageKey → String} {query : Query} {rows : List Row}
    {row : Row} (selected : row ∈ query.select keyText rows) :
    row ∈ rows ∧ query.chosen keyText row = true := by
  unfold select at selected
  have sorted : row ∈ (match query.orderedBy with
      | some column => (rows.filter (query.chosen keyText)).insertionSort
          fun first second => ordered column first second = true
      | none => rows.filter (query.chosen keyText)) := by
    cases limited : query.take? with
    | none => simpa only [limited] using selected
    | some limit => exact List.mem_of_mem_take (by simpa only [limited] using selected)
  cases column : query.orderedBy with
  | none => simpa only [column, List.mem_filter] using sorted
  | some ordering =>
      simp only [column] at sorted
      exact List.mem_filter.mp ((List.perm_insertionSort _ _).mem_iff.mp sorted)

theorem select_distinct {keyText : StorageKey → String} {query : Query} {rows : List Row}
    (distinct : (rows.map Row.id).Nodup) :
    ((query.select keyText rows).map Row.id).Nodup := by
  have filtered : ((rows.filter (query.chosen keyText)).map Row.id).Nodup :=
    distinct.sublist (List.filter_sublist.map Row.id)
  have sorted : ((match query.orderedBy with
      | some column => (rows.filter (query.chosen keyText)).insertionSort
          fun first second => ordered column first second = true
      | none => rows.filter (query.chosen keyText)).map Row.id).Nodup := by
    cases query.orderedBy with
    | none => exact filtered
    | some column => exact ((List.perm_insertionSort _ _).map Row.id).nodup_iff.mpr filtered
  unfold select
  cases query.take? with
  | none => exact sorted
  | some limit => exact sorted.sublist ((List.take_sublist _ _).map Row.id)

end Query

end SdcoreNest.UploadedFile
