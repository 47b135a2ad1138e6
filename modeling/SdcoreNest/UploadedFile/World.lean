/-
# UploadedFile.World -- database, storage and clocks as calls see them

One `Call` per database statement, storage request and clock reading of
`UploadedFileService`.  `exec` says what a call answers and what it changes;
`machine` adds which calls never throw, what may still take effect of a call that
threw, and the moves of the environment (clocks advance, clients PUT to a signed
upload URL).

A statement inside `manager.transaction` whose affected count is checked before
the commit is one call, `transact`: the row locks it takes are held until the
commit, so the criteria it saw still hold there; a wrong count rolls it back.
The local driver's `promoteObject` is two calls, `link` then `unlink`.
-/
import SdcoreNest.Theory.Interleaving
import SdcoreNest.UploadedFile.Statements

namespace SdcoreNest.UploadedFile

open SdcoreNest.Theory

set_option autoImplicit false

inductive Driver where
  | s3
  | localDisk
deriving DecidableEq, Repr

/-! ## Storage -/

/-- An object as the store keeps it; `metadata` are the `upload-id` and `checksum`
entries of the user metadata. -/
structure StoredObject where
  body : Bytes
  contentType : Option String := none
  checksum : Option String := none
  uploadId : Option Uuid := none
  metadataChecksum : Option String := none
deriving DecidableEq, Repr

/-- What a HEAD request reports, `UploadedFileStorageObjectMetadata`. -/
structure ObjectMetadata where
  size : Nat
  contentType : Option String
  etag : Option Etag
  checksum : Option String
  uploadId : Option Uuid
  metadataChecksum : Option String
deriving DecidableEq, Repr

def StoredObject.etag (object : StoredObject) : Etag := ⟨object.body⟩

/-- What `headObject` reports: the local driver knows the size only. -/
def StoredObject.head (driver : Driver) (object : StoredObject) : ObjectMetadata :=
  match driver with
  | .s3 =>
      { size := object.body.length
        contentType := object.contentType
        etag := some object.etag
        checksum := object.checksum
        uploadId := object.uploadId
        metadataChecksum := object.metadataChecksum }
  | .localDisk =>
      { size := object.body.length
        contentType := none
        etag := none
        checksum := none
        uploadId := none
        metadataChecksum := none }

abbrev Objects := StorageKey → Option StoredObject

namespace Objects

def put (objects : Objects) (key : StorageKey) (object : StoredObject) : Objects :=
  fun other => if other = key then some object else objects other

def remove (objects : Objects) (key : StorageKey) : Objects :=
  fun other => if other = key then none else objects other

def removeAll (objects : Objects) (keys : List StorageKey) : Objects :=
  fun other => if other ∈ keys then none else objects other

@[simp] theorem put_self (objects : Objects) (key : StorageKey) (object : StoredObject) :
    objects.put key object key = some object := if_pos rfl

theorem put_of_ne (objects : Objects) {key other : StorageKey} (object : StoredObject)
    (different : other ≠ key) : objects.put key object other = objects other :=
  if_neg different

@[simp] theorem remove_self (objects : Objects) (key : StorageKey) :
    objects.remove key key = none := if_pos rfl

theorem remove_of_ne (objects : Objects) {key other : StorageKey} (different : other ≠ key) :
    objects.remove key other = objects other := if_neg different

theorem removeAll_of_mem (objects : Objects) {keys : List StorageKey} {key : StorageKey}
    (member : key ∈ keys) : objects.removeAll keys key = none := if_pos member

theorem removeAll_of_not_mem (objects : Objects) {keys : List StorageKey} {key : StorageKey}
    (outside : key ∉ keys) : objects.removeAll keys key = objects key := if_neg outside

end Objects

/-! ## World and calls -/

/-- Whose clock is read. -/
inductive Host where
  | database
  | process (number : Nat)
deriving DecidableEq

abbrev Table := Keyed Uuid Row Row.id

/-- The shared state; the clock of the database is `micros` past its whole milliseconds.  `drawnBy`
remembers which worker drew an id and `issued` which staging keys a signed upload URL was handed out
for. -/
structure World where
  table : Table
  objects : Objects
  clock : Host → Int
  micros : Fin 1000
  lastDeletionClaimAt : Nat → Int
  nextId : Uuid
  drawnBy : Uuid → Option Worker
  issued : List StorageKey

inductive Call where
  | now
  | nextDeletionClaim (expected : Option Int)
  | randomUUID
  | findOne (query : Query)
  | find (query : Query)
  | save (row : Row)
  | update (statement : Statement)
  | transact (statement : Statement) (count : Nat)
  | createUploadUrl (key : StorageKey) (contentType : String) (size : Nat) (expiresIn : Nat)
      (uploadId : Uuid) (checksum : Option String)
  | createDownloadUrl (key : StorageKey) (expiresIn : Nat) (contentType : String)
      (contentDisposition : String) (downloadUrl : String)
  | headObject (key : StorageKey)
  | putObject (key : StorageKey) (object : StoredObject)
  | uploadSigned (key : StorageKey) (object : StoredObject)
  | copyObject (source destination : StorageKey) (sourceEtag : Option Etag)
  | link (source destination : StorageKey)
  | unlink (key : StorageKey)
  | delete (keys : List StorageKey)
  | deleteObject (key : StorageKey)
  | download (key : StorageKey)
deriving DecidableEq

/-- Answers.  A `Bool` or `Option` of a storage call says whether the precondition
the store checks (object absent, present, of the expected version) was met. -/
abbrev Call.Answer : Call → Type
  | .now => Int
  | .nextDeletionClaim _ => Int
  | .randomUUID => Uuid
  | .findOne _ => Option Row
  | .find _ => List Row
  | .save _ => Row
  | .update _ => Nat
  | .transact _ _ => Bool
  | .createUploadUrl .. => String
  | .createDownloadUrl .. => String
  | .headObject _ => Option ObjectMetadata
  | .putObject _ _ => Bool
  | .uploadSigned _ _ => Bool
  | .copyObject _ _ _ => Bool
  | .link _ _ => Bool
  | .unlink _ => Bool
  | .delete _ => Unit
  | .deleteObject _ => Unit
  | .download _ => Option Bytes

abbrev sig : Signature where
  Call := Call
  Answer := Call.Answer

/-- The part of the module configuration that decides what storage and database
answer. -/
structure Deployment where
  driver : Driver
  keyText : StorageKey → String
  signedUploadUrl : StorageKey → String
  signedDownloadUrl : StorageKey → Nat → String

namespace World

/-- `CURRENT_TIMESTAMP` -/
def timestamp (world : World) : Moment := ⟨world.clock .database, world.micros⟩

/-- Run a statement on the table. -/
def apply (world : World) (statement : Statement) : World :=
  { world with
    table := world.table.update statement.chosen (statement.patch world.timestamp)
      (statement.patch_id world.timestamp) }

/-- Rows affected by a statement. -/
def affected (world : World) (statement : Statement) : Nat :=
  world.table.count statement.chosen

/-- The saved entity: `createdAt` is filled in by the database, and compared with whole milliseconds
only. -/
def stamped (world : World) (row : Row) : Row :=
  { row with createdAt := world.clock .database }

/-- The value of `nextDeletionClaim`: a fresh lease, later than every claim of the process and
than the marker it replaces. -/
def claimAt (world : World) (process : Nat) (expected : Option Int) : Int :=
  max (max (world.clock (.process process) + deletionClaimLeaseMs)
      (world.lastDeletionClaimAt process + 1))
    (match expected with
      | some marker => marker + 1
      | none => 0)

def setObjects (world : World) (objects : Objects) : World := { world with objects := objects }

end World

/-- What a call answers and changes. -/
def exec (deployment : Deployment) (world : World) (worker : Worker) :
    (call : Call) → call.Answer × World
  | .now => (world.clock (.process worker.process), world)
  | .nextDeletionClaim expected =>
      let claim := world.claimAt worker.process expected
      (claim, { world with
        lastDeletionClaimAt := fun process =>
          if process = worker.process then claim else world.lastDeletionClaimAt process })
  | .randomUUID =>
      (world.nextId, { world with
        nextId := world.nextId + 1
        drawnBy := fun id => if id = world.nextId then some worker else world.drawnBy id })
  | .findOne query => ((query.select deployment.keyText world.table.rows).head?, world)
  | .find query => (query.select deployment.keyText world.table.rows, world)
  | .save row =>
      (world.stamped row, { world with table := world.table.save (world.stamped row) })
  | .update statement => (world.affected statement, world.apply statement)
  | .transact statement count =>
      if world.affected statement = count then (true, world.apply statement) else (false, world)
  | .createUploadUrl key _ _ _ _ _ =>
      (deployment.signedUploadUrl key, { world with issued := key :: world.issued })
  | .createDownloadUrl key expiresIn _ _ _ =>
      (deployment.signedDownloadUrl key expiresIn, world)
  | .headObject key => ((world.objects key).map (StoredObject.head deployment.driver), world)
  | .putObject key object =>
      match world.objects key with
      | some _ => (false, world)
      | none => (true, world.setObjects (world.objects.put key object))
  | .uploadSigned key object =>
      if key ∈ world.issued then (true, world.setObjects (world.objects.put key object))
      else (false, world)
  | .copyObject source destination sourceEtag =>
      match world.objects source with
      | some object =>
          if sourceEtag = none ∨ sourceEtag = some object.etag then
            (true, world.setObjects (world.objects.put destination object))
          else (false, world)
      | none => (false, world)
  | .link source destination =>
      match world.objects source, world.objects destination with
      | some object, none => (true, world.setObjects (world.objects.put destination object))
      | _, _ => (false, world)
  | .unlink key =>
      match world.objects key with
      | some _ => (true, world.setObjects (world.objects.remove key))
      | none => (false, world)
  | .delete keys => ((), world.setObjects (world.objects.removeAll keys))
  | .deleteObject key => ((), world.setObjects (world.objects.remove key))
  | .download key => ((world.objects key).map StoredObject.body, world)

/-- Reading a process's own clock, counter or random source does not throw. -/
def sure : Call → Bool
  | .now | .nextDeletionClaim _ | .randomUUID => true
  | _ => false

/-- What may still take effect of a call that threw.  A failed multi-object delete
may have removed any of its objects. -/
def residue : Call → List Call
  | .save row => [.save row]
  | .update statement => [.update statement]
  | .transact statement count => [.transact statement count]
  | .putObject key object => [.putObject key object]
  | .uploadSigned key object => [.uploadSigned key object]
  | .copyObject source destination sourceEtag => [.copyObject source destination sourceEtag]
  | .link source destination => [.link source destination]
  | .unlink key => [.unlink key]
  | .delete keys => keys.map .deleteObject
  | .deleteObject key => [.deleteObject key]
  | _ => []

/-- Moves of the environment: all clocks advance together, to some microsecond, one clock alone runs
ahead, a client stores an object under a signed upload URL. -/
inductive Move where
  | advance (ms : Nat) (micros : Fin 1000 := noMicros)
  | drift (host : Host) (ms : Nat)
  | clientPut (key : StorageKey) (object : StoredObject)

def move (deployment : Deployment) (world : World) : Move → Option World
  | .advance ms micros => some { world with clock := fun host => world.clock host + ms, micros }
  | .drift host ms => some
      { world with
        clock := fun other =>
          if other = host then world.clock other + ms else world.clock other }
  | .clientPut key object =>
      if deployment.driver = .s3 ∧ key ∈ world.issued then
        some (world.setObjects (world.objects.put key object))
      else none

def machine (deployment : Deployment) : Machine sig where
  World := World
  Move := Move
  exec := exec deployment
  sure := sure
  residue := residue
  move := move deployment

/-- A fresh installation: no rows, no objects, all clocks at `time`. -/
def World.initial (time : Int) : World where
  table := Keyed.empty
  objects := fun _ => none
  clock := fun _ => time
  micros := noMicros
  lastDeletionClaimAt := fun _ => 0
  nextId := 0
  drawnBy := fun _ => none
  issued := []

end SdcoreNest.UploadedFile
