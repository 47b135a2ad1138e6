/-
# UploadedFile.Discipline -- what a worker asks depends on its own steps only

A worker reacts to replies; it never sees the table or the store itself.  So what
its next call may be is decided by its own past, and `discipline` writes down, call
by call, the part of that dependence the invariants rely on:

* a storage delete only of the objects of rows the worker holds a deletion claim on,
  and the statements that finish a deletion only in their order (`holding`);
* a deletion claim only with the value it minted last (`minted`), aimed at a row it
  read before;
* an activation only after its own write was acknowledged, a completion only after
  the final object was seen, and so on.

`credible` says what the replies can be: rows that are found satisfy the query and
are sound.  The programs are shown to follow the discipline in
`UploadedFile.Obedience`.
-/
import SdcoreNest.UploadedFile.Service
import SdcoreNest.UploadedFile.Lifecycle
import SdcoreNest.UploadedFile.Maintenance

namespace SdcoreNest.UploadedFile

open SdcoreNest.Theory

set_option autoImplicit false

/-! ## What a worker has seen -/

/-- The worker saved this row. -/
def Saved (past : Past) (saved : Row) : Prop :=
  ∃ row, (⟨.save row, some saved⟩ : Step sig) ∈ past

/-- A query returned this row. -/
def Read (past : Past) (row : Row) : Prop :=
  (∃ query, (⟨.findOne query, some (some row)⟩ : Step sig) ∈ past) ∨
    ∃ query rows, (⟨.find query, some rows⟩ : Step sig) ∈ past ∧ row ∈ rows

def ReadClock (past : Past) (time : Int) : Prop :=
  (⟨.now, some time⟩ : Step sig) ∈ past

/-- The store reported an object under the key. -/
def Headed (past : Past) (key : StorageKey) : Prop :=
  ∃ metadata, (⟨.headObject key, some (some metadata)⟩ : Step sig) ∈ past

/-- The store acknowledged the worker's write of the key. -/
def Wrote (past : Past) (key : StorageKey) : Prop :=
  ∃ object, (⟨.putObject key object, some true⟩ : Step sig) ∈ past

/-- The worker was granted the completion lease `marker` on the row. -/
def Leased (past : Past) (row : Row) (marker : Int) : Prop :=
  ∃ snapshot access etag,
    ((⟨.update (.claimCompletion snapshot access marker etag), some 1⟩ : Step sig) ∈ past ∨
      (⟨.update (.reclaimCompletion snapshot access marker etag), some 1⟩ : Step sig) ∈ past) ∧
    Read past snapshot ∧ Statement.SameFile snapshot row ∧
    row.isTemporary = snapshot.isTemporary

/-- The upload of a saved row failed: it is written by the server itself, or no signed
URL could be made for it. -/
def Abandoned (past : Past) (saved : Row) : Prop :=
  saved.uploadExpiredAt = none ∨
    ∃ key contentType size expiresIn uploadId checksum, saved.pendingKey = some key ∧
      (⟨.createUploadUrl key contentType size expiresIn uploadId checksum, none⟩ : Step sig)
        ∈ past

section Monotone

variable {past past' : Past} (longer : past <:+ past')

include longer

theorem Saved.mono {saved : Row} (held : Saved past saved) : Saved past' saved := by
  obtain ⟨row, member⟩ := held
  exact ⟨row, longer.subset member⟩

theorem Read.mono {row : Row} (held : Read past row) : Read past' row := by
  rcases held with ⟨query, member⟩ | ⟨query, rows, member, inside⟩
  · exact .inl ⟨query, longer.subset member⟩
  · exact .inr ⟨query, rows, longer.subset member, inside⟩

theorem ReadClock.mono {time : Int} (held : ReadClock past time) : ReadClock past' time :=
  longer.subset held

theorem Headed.mono {key : StorageKey} (held : Headed past key) : Headed past' key := by
  obtain ⟨metadata, member⟩ := held
  exact ⟨metadata, longer.subset member⟩

theorem Wrote.mono {key : StorageKey} (held : Wrote past key) : Wrote past' key := by
  obtain ⟨object, member⟩ := held
  exact ⟨object, longer.subset member⟩

theorem Leased.mono {row : Row} {marker : Int} (held : Leased past row marker) :
    Leased past' row marker := by
  obtain ⟨snapshot, access, etag, granted, read, same, temporary⟩ := held
  refine ⟨snapshot, access, etag, ?_, Read.mono longer read, same, temporary⟩
  exact granted.imp (fun member => longer.subset member) fun member => longer.subset member

theorem Abandoned.mono {saved : Row} (held : Abandoned past saved) : Abandoned past' saved := by
  rcases held with server | ⟨key, contentType, size, expiresIn, uploadId, checksum, keyed, threw⟩
  · exact .inl server
  · exact .inr ⟨key, contentType, size, expiresIn, uploadId, checksum, keyed,
      longer.subset threw⟩

end Monotone

/-! ## Holding a deletion claim -/

/-- How far the deletion of claimed rows has come. -/
inductive Phase where
  | claimed
  | erased
  | finalized
deriving DecidableEq

structure Hold where
  rows : List Row
  claim : Int
  access : Option Access
  phase : Phase

/-- The effect of an own UPDATE on what is held; `count` is its answered row count. -/
def Hold.afterUpdate (statement : Statement) (count : Option Nat) (held : Option Hold) :
    Option Hold :=
  match statement.claims with
  | some (rows, claim, access) =>
      if count = some rows.length then some ⟨rows, claim, access, .claimed⟩ else none
  | none =>
      match statement with
      | .finalizePendingRows rows _ _ =>
          if count = some rows.length then held.map fun hold => { hold with phase := .finalized }
          else held
      | .releaseDeletionClaim _ _ _ _ => none
      | .clearFinalizedDeletionClaim _ _ _ => none
      | _ => held

/-- What a worker holds after one more step. -/
def Hold.after : Step sig → Option Hold → Option Hold
  | ⟨.update statement, reply⟩, held => Hold.afterUpdate statement reply held
  | ⟨.transact statement count, some true⟩, held =>
      Hold.afterUpdate statement (some count) held
  | ⟨.transact statement _, _⟩, held => Hold.afterUpdate statement none held
  | ⟨.delete _, some ()⟩, held => held.map fun hold => { hold with phase := .erased }
  | _, held => held

/-- The rows a worker holds a deletion claim on. -/
def holding : Past → Option Hold
  | [] => none
  | step :: past => Hold.after step (holding past)

/-- A claim value drawn but not used yet, with the steps before it was drawn. -/
structure Mint where
  expected : Option Int
  claim : Int
  older : Past

/-- The effect of an own UPDATE on the unused claim value: claiming uses it up. -/
def Mint.afterUpdate (statement : Statement) (mint : Option Mint) : Option Mint :=
  if statement.claims.isSome then none else mint

/-- The claim value a worker has drawn and not used. -/
def minted : Past → Option Mint
  | [] => none
  | ⟨.nextDeletionClaim expected, some claim⟩ :: past => some ⟨expected, claim, past⟩
  | ⟨.update statement, _⟩ :: past => Mint.afterUpdate statement (minted past)
  | ⟨.transact statement _, _⟩ :: past => Mint.afterUpdate statement (minted past)
  | _ :: past => minted past

/-- The unused claim value is `claim`, drawn against the marker `expected`. -/
def Minted (past : Past) (expected : Option Int) (claim : Int) : Prop :=
  ∃ older, minted past = some ⟨expected, claim, older⟩

/-- The unused claim value was drawn after `row` was read, against its deletion
marker if it has one. -/
def AimedAt (past : Past) (row : Row) (claim : Int) : Prop :=
  ∃ mint, minted past = some mint ∧ mint.claim = claim ∧ Read mint.older row ∧
    ∀ marker, row.deletionPendingAt = some marker → mint.expected = some marker

/-! ## The discipline -/

/-- A completion lease that the worker found run out. -/
def LeaseOver (past : Past) (row : Row) : Prop :=
  row.status = .completing → ∀ marker, row.uploadPendingAt = some marker →
    ∃ time, ReadClock past time ∧ marker ≤ time

/-- What the worker's own steps say about a statement it issues. -/
def Statement.Allowed (driver : Driver) (past : Past) : Statement → Prop
  | .activatePendingUpload saved _ marker =>
      Saved past saved ∧ saved.uploadExpiredAt = none ∧ saved.isTemporary = false ∧
        saved.uploadPendingAt = some marker ∧ Wrote past saved.key
  | .activateTemporaryPendingUpload saved _ marker _ =>
      Saved past saved ∧ saved.uploadExpiredAt = none ∧ saved.isTemporary = true ∧
        saved.uploadPendingAt = some marker ∧ Wrote past saved.key
  | .claimFailedUpload saved _ marker claim =>
      Saved past saved ∧ Abandoned past saved ∧ saved.uploadPendingAt = some marker ∧
        Minted past (some marker) claim
  | .settleFailedUpload current _ claim =>
      (∃ saved, Saved past saved ∧ Abandoned past saved ∧ current.id = saved.id) ∧
        AimedAt past current claim ∧ current.visible = false
  | .releaseDeletionClaim rows claim access retryAt =>
      (∃ phase, holding past = some ⟨rows, claim, access, phase⟩) ∧
        ∃ time, past.head? = some ⟨.now, some time⟩ ∧ retryAt = time + deletionRetryBackoffMs
  | .finalizePendingRows rows claim access =>
      holding past = some ⟨rows, claim, access, .erased⟩
  | .clearFinalizedDeletionClaim rows claim access =>
      holding past = some ⟨rows, claim, access, .finalized⟩ ∧
        ∀ row ∈ rows, row.uploadPendingAt = none
  | .markCompletionRetryable row _ marker retryAt =>
      Leased past row marker ∧ ∃ time, ReadClock past time ∧ retryAt = time - 1
  | .claimCompletion row _ marker _ =>
      Read past row ∧ row.status = .pending ∧ row.uploadExpiredAt ≠ none ∧
        (∃ key, row.pendingKey = some key ∧ Headed past key) ∧
        ∃ time, ReadClock past time ∧ marker = time + uploadActivationLeaseMs
  | .reclaimCompletion row _ marker _ =>
      Read past row ∧ row.status = .completing ∧
        ∃ time, ReadClock past time ∧ marker = time + uploadActivationLeaseMs ∧
          ∀ previous, row.uploadPendingAt = some previous → previous ≤ time
  | .finalizeCompletion row _ marker _ _ _ dropPendingKey =>
      Leased past row marker ∧ Headed past row.key ∧
        dropPendingKey = decide (driver = .localDisk)
  | .claimAbort row _ claim =>
      Read past row ∧ (row.status = .pending ∨ row.status = .completing) ∧
        LeaseOver past row ∧ Minted past row.uploadPendingAt claim
  | .claimReferences rows _ claim =>
      (∀ row ∈ rows, Read past row) ∧ (rows.map Row.id).Nodup ∧ Minted past none claim
  | .claimById current _ claim =>
      Read past current ∧ LeaseOver past current ∧ Minted past none claim
  | .claimExpiredDirectUpload row claim =>
      (row.status = .pending ∨ row.status = .completing) ∧ AimedAt past row claim ∧
        ∃ time marker, ReadClock past time ∧ row.uploadPendingAt = some marker ∧
          marker ≤ time ∧ ∀ previous, row.deletionPendingAt = some previous → previous < time
  | .clearPendingKey row => Read past row
  | .claimExpiredTemporaryFile row claim => Read past row ∧ Minted past row.expiredAt claim
  | .claimPendingDeletion row claim =>
      AimedAt past row claim ∧ ∃ mint time marker, minted past = some mint ∧
        ReadClock mint.older time ∧ selectedMarker time row = some marker ∧
        mint.expected = some marker
  | .retireUploadTombstone row retryAt =>
      Read past row ∧ ∃ time moment marker, ReadClock past time ∧
        past.head? = some ⟨.now, some moment⟩ ∧
        row.uploadPendingAt = some marker ∧ marker < time ∧
        (∀ previous, row.deletionPendingAt = some previous → previous < time) ∧
        retryAt = min (moment - 1) (row.deletionPendingAt.getD marker - 1)
  | .claimUnused rows _ claim =>
      (∀ row ∈ rows, Read past row) ∧ (rows.map Row.id).Nodup ∧ Minted past none claim
  | .markUsed _ _ _ => True
  | .setExtraData _ _ _ => True

/-- A row as the service inserts it: sound, hidden, not being deleted. -/
structure Row.Newborn (row : Row) : Prop where
  sound : row.Sound
  untouched : row.touched = false
  marked : row.uploadPendingAt ≠ none
  unclaimed : row.status ≠ .completing

/-- No earlier step of the worker saved a row with the id. -/
def Unsaved (past : Past) (id : Uuid) : Prop :=
  ∀ row reply, (⟨.save row, reply⟩ : Step sig) ∈ past → row.id ≠ id

/-- The key is the final key of a direct upload the worker has read. -/
def DirectKey (past : Past) (key : StorageKey) : Prop :=
  ∃ row, Read past row ∧ row.uploadExpiredAt ≠ none ∧ row.key = key

/-- Which call may follow which own steps. -/
def allowed (driver : Driver) (past : Past) : Call → Prop
  | .save row =>
      row.Newborn ∧ (⟨.randomUUID, some row.id⟩ : Step sig) ∈ past ∧ Unsaved past row.id
  | .update statement => statement.Allowed driver past
  | .transact statement count => statement.Allowed driver past ∧
      ∀ rows claim access, statement.claims = some (rows, claim, access) → count = rows.length
  | .createUploadUrl key _ _ _ _ _ =>
      driver = .s3 ∧ (∃ saved, Saved past saved ∧ saved.pendingKey = some key) ∧
        ∀ contentType size expiresIn uploadId checksum reply,
          (⟨.createUploadUrl key contentType size expiresIn uploadId checksum, reply⟩ : Step sig)
            ∉ past
  | .putObject key _ =>
      (key.space = .pending ∧ driver = .localDisk) ∨
        ((∃ saved, Saved past saved ∧ saved.key = key ∧ saved.uploadExpiredAt = none) ∧
          ∀ object reply, (⟨.putObject key object, reply⟩ : Step sig) ∉ past)
  | .uploadSigned key _ => key.space = .pending
  | .copyObject _ destination _ => DirectKey past destination
  | .link _ destination => DirectKey past destination
  | .unlink key => key.space = .pending ∧ driver = .localDisk
  | .delete keys => ∃ hold, holding past = some hold ∧ hold.phase = .claimed ∧
      keys = objectKeys hold.rows
  | .deleteObject key => key.space = .pending
  | _ => True

/-- What a reply can be. -/
def credible (keyText : StorageKey → String) : Step sig → Prop
  | ⟨.now, none⟩ => False
  | ⟨.nextDeletionClaim _, none⟩ => False
  | ⟨.randomUUID, none⟩ => False
  | ⟨.findOne query, some (some row)⟩ => query.chosen keyText row = true ∧ row.Sound
  | ⟨.find query, some rows⟩ => (rows.map Row.id).Nodup ∧
      ∀ row ∈ rows, query.chosen keyText row = true ∧ row.Sound
  | ⟨.save row, some saved⟩ => ∃ time, saved = { row with createdAt := time }
  | _ => True

def discipline (deployment : Deployment) : Conduct sig where
  allows := allowed deployment.driver
  credible := credible deployment.keyText

end SdcoreNest.UploadedFile
