/-
# UploadedFile.Entity -- the rows of `uploaded_file` and who may see them

A row carries the columns the service reads.  `modifiedAt`, `fileExtension` and
the index declarations are read by nobody and are left out.  Timestamps are
integers, milliseconds since the epoch as in JavaScript dates, apart from `deletedAt`: the
database writes it, in microseconds, and the service compares it with a date.

A storage key is the tuple its text is built from (`buildStorageKeyForId`): the
namespace, the tenant, the file id and the name.  Staging objects live in the
namespace `pending`, all other objects outside it, so a staging key never equals
the key of a finished file.
-/
import Mathlib.Tactic.Common

namespace SdcoreNest.UploadedFile

set_option autoImplicit false

/-- An identifier that passed `UUID_PATTERN`; known up to equality only. -/
abbrev Uuid := Nat

abbrev Bytes := List UInt8

inductive Status where
  | pending
  | completing
  | ready
  | failed
deriving DecidableEq, Repr

inductive Visibility where
  | publicFile
  | privateFile
deriving DecidableEq, Repr

inductive Disposition where
  | inline
  | attachment
deriving DecidableEq, Repr

/-- The namespaces of `buildStorageKey`. -/
inductive Namespace where
  | tenant
  | publicFile
  | privateFile
  | temporary
  | pending
deriving DecidableEq, Repr

structure StorageKey where
  space : Namespace
  tenantCode : String
  id : Uuid
  name : String
deriving DecidableEq, Repr

/-- A timestamp of the database: milliseconds since the epoch, and the microseconds beyond. -/
structure Moment where
  ms : Int
  micros : Fin 1000 := 0
deriving DecidableEq, Repr

/-- A moment on a whole millisecond has no microseconds. -/
def noMicros : Fin 1000 := 0

/-- What is left of it in a JavaScript date, and of that back in the database. -/
def Moment.whole (moment : Moment) : Moment := ⟨moment.ms, 0⟩

@[simp] theorem Moment.whole_whole (moment : Moment) : moment.whole.whole = moment.whole := rfl

theorem Moment.whole_eq_self {moment : Moment} : moment.whole = moment ↔ moment.micros = 0 := by
  rcases moment with ⟨ms, micros⟩
  simp [whole, eq_comm]

/-- The S3 entity tag: a digest of the bytes, taken as injective. -/
structure Etag where
  digest : Bytes
deriving DecidableEq, Repr

/-- Ownership metadata, `UploadedFileMeta`. -/
structure Meta where
  module : Option String := none
  entity : Option String := none
  entityId : Option Uuid := none
  type : Option String := none
deriving DecidableEq, Repr

/-- Spread, `{ ...old, ...new }`: absent entries of `new` keep the old ones. -/
def Meta.over (new old : Meta) : Meta where
  module := new.module <|> old.module
  entity := new.entity <|> old.entity
  entityId := new.entityId <|> old.entityId
  type := new.type <|> old.type

/-- Whole megabytes, `Math.round(bytes / 1048576)`. -/
def toMb (bytes : Nat) : Nat := (bytes + 524288) / 1048576

structure Row where
  id : Uuid
  tenantCode : String
  departmentCode : Option String
  userId : Uuid
  fileName : String
  fileSize : Option Nat
  sizeBytes : Option Nat
  contentType : Option String
  key : StorageKey
  pendingKey : Option StorageKey
  cdn : String
  isUsed : Bool
  visibility : Visibility
  status : Status
  isTemporary : Bool
  uploadExpiredAt : Option Int
  expiredAt : Option Int
  completedAt : Option Int
  disposition : Disposition
  checksum : Option String
  etag : Option Etag
  uploadPendingAt : Option Int
  deletionPendingAt : Option Int
  metadata : Meta
  extraData : Option String
  createdAt : Int
  deletedAt : Option Moment
deriving DecidableEq, Repr

namespace Row

/-- Active: neither deleted nor pending. -/
def visible (row : Row) : Bool :=
  row.deletedAt.isNone && row.uploadPendingAt.isNone && row.deletionPendingAt.isNone

/-- A deletion has begun: such a row must never come back. -/
def touched (row : Row) : Bool := row.deletedAt.isSome || row.deletionPendingAt.isSome

theorem visible_eq_true {row : Row} :
    row.visible = true ↔
      row.deletedAt = none ∧ row.uploadPendingAt = none ∧ row.deletionPendingAt = none := by
  simp [visible, and_assoc]

theorem touched_eq_true {row : Row} :
    row.touched = true ↔ row.deletedAt ≠ none ∨ row.deletionPendingAt ≠ none := by
  simp [touched, Option.isSome_iff_ne_none]

theorem touched_eq_false {row : Row} :
    row.touched = false ↔ row.deletedAt = none ∧ row.deletionPendingAt = none := by
  simp [touched]

theorem not_visible_of_touched {row : Row} (touched : row.touched = true) :
    row.visible = false := by
  rw [touched_eq_true] at touched
  rw [Bool.eq_false_iff]
  intro visible
  obtain ⟨deleted, -, pending⟩ := visible_eq_true.mp visible
  exact touched.elim (· deleted) (· pending)

/-- The object keys of a row, the final one first. -/
def keys (row : Row) : List StorageKey := row.key :: row.pendingKey.toList

end Row

/-! ## Scope -/

structure Scope where
  tenantCode : String
  departmentCode : Option String
  userId : Uuid
deriving DecidableEq, Repr

/-- The decisions of a policy other than `deny`. -/
inductive Decision where
  | owner
  | tenant
deriving DecidableEq, Repr

/-- An approved request, `AuthorizedAccess`. -/
structure Access where
  decision : Decision
  scope : Scope
deriving DecidableEq, Repr

namespace Access

/-- The columns that `where`, `lifecycleWhere` and `pendingDeletionWhere` share:
a department is compared only when the scope has one, the owner only under an
owner decision. -/
def covers (access : Access) (row : Row) : Bool :=
  decide (row.tenantCode = access.scope.tenantCode) &&
  (match access.scope.departmentCode with
    | some code => decide (row.departmentCode = some code)
    | none => true) &&
  (match access.decision with
    | .owner => decide (row.userId = access.scope.userId)
    | .tenant => true)

/-- The columns of `pendingUploadWhere`: the row the caller itself inserted. -/
def owns (access : Access) (row : Row) : Bool :=
  decide (row.tenantCode = access.scope.tenantCode) &&
  decide (row.departmentCode = access.scope.departmentCode) &&
  decide (row.userId = access.scope.userId)

theorem covers_of_owns {access : Access} {row : Row} (owns : access.owns row = true) :
    access.covers row = true := by
  simp only [Access.owns, Bool.and_eq_true, decide_eq_true_eq] at owns
  obtain ⟨⟨tenant, department⟩, user⟩ := owns
  simp only [covers, Bool.and_eq_true, decide_eq_true_eq, tenant, true_and]
  constructor
  · cases here : access.scope.departmentCode with
    | none => rfl
    | some code => simp [department, here]
  · cases access.decision with
    | owner => simp [user]
    | tenant => rfl

/-- The criteria of `where(access)`. -/
def active (access : Access) (row : Row) : Bool := access.covers row && row.visible

/-- The criteria of `lifecycleWhere(access, id)`: a pending upload is not excluded. -/
def lifecycleWhere (access : Access) (id : Uuid) (row : Row) : Bool :=
  decide (row.id = id) && access.covers row && row.deletedAt.isNone &&
    row.deletionPendingAt.isNone

/-- The criteria of `pendingUploadWhere(saved, access, expectedMarker)`. -/
def pendingUploadWhere (access : Access) (saved : Row) (marker : Int) (row : Row) : Bool :=
  decide (row.id = saved.id) && access.owns row && row.deletedAt.isNone &&
    decide (row.uploadPendingAt = some marker) && row.deletionPendingAt.isNone

theorem active_eq_true {access : Access} {row : Row} :
    access.active row = true ↔ access.covers row = true ∧ row.visible = true := by
  simp [active]

theorem lifecycleWhere_eq_true {access : Access} {id : Uuid} {row : Row} :
    access.lifecycleWhere id row = true ↔
      row.id = id ∧ access.covers row = true ∧ row.deletedAt = none ∧
        row.deletionPendingAt = none := by
  simp [lifecycleWhere, and_assoc]

theorem pendingUploadWhere_eq_true {access : Access} {saved : Row} {marker : Int} {row : Row} :
    access.pendingUploadWhere saved marker row = true ↔
      row.id = saved.id ∧ access.owns row = true ∧ row.deletedAt = none ∧
        row.uploadPendingAt = some marker ∧ row.deletionPendingAt = none := by
  simp [pendingUploadWhere, and_assoc]

end Access

/-- The optional scope of maintenance statements: no access means no scope columns. -/
def coveredBy (access : Option Access) (row : Row) : Bool :=
  match access with
  | some access => access.covers row
  | none => true

end SdcoreNest.UploadedFile
