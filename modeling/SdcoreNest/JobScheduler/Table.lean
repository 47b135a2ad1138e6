/-
# JobScheduler.Table -- the job table and its three statements

The table carries both of its unique constraints, on `id` and on `lockKey`.  Each
statement is atomic and reads the database clock once; time is in microseconds, the
resolution of a timestamp.  `World.exec_cases` says everything a statement can do to a row.
-/
import SdcoreNest.JobScheduler.Types
import SdcoreNest.Theory.Interleaving
import SdcoreNest.Theory.Keyed

namespace SdcoreNest.JobScheduler

open SdcoreNest.Theory

set_option autoImplicit false

/-- The `data` column. -/
inductive Data where
  | released
  | error (error : JobError)
  | given (json : JsString)
deriving DecidableEq, Repr

structure Row where
  id : Uuid
  lockKey : JsString
  code : JsString
  name : Option JsString
  type : JobSchedulerType
  status : JobSchedulerStatus
  ownerToken : Uuid
  data : Option Data
  createdAt : Int
  modifiedAt : Int
deriving DecidableEq, Repr

structure Table extends Keyed Uuid Row Row.id where
  keys : (rows.map Row.lockKey).Nodup

namespace Table

instance : Membership Row Table where
  mem table row := row ∈ table.rows

def empty : Table := ⟨.empty, List.nodup_nil⟩

theorem ext_rows {x y : Table} (same : x.rows = y.rows) : x = y := by
  obtain ⟨⟨rows, distinct⟩, keys⟩ := x
  obtain ⟨⟨rows', distinct'⟩, keys'⟩ := y
  cases same
  rfl

@[simp] theorem not_mem_empty (row : Row) : row ∉ empty := List.not_mem_nil

theorem eq_of_lockKey {table : Table} {x y : Row} (hx : x ∈ table) (hy : y ∈ table)
    (same : x.lockKey = y.lockKey) : x = y :=
  List.inj_on_of_nodup_map table.keys hx hy same

/-- `INSERT ... ON CONFLICT DO NOTHING`: `none` when either key is taken. -/
def insertIgnore (table : Table) (row : Row) : Option Table :=
  if free : row.id ∉ table.rows.map Row.id ∧ row.lockKey ∉ table.rows.map Row.lockKey then some
    { rows := table.rows.concat row
      distinct := by
        rw [List.map_concat]
        exact table.distinct.concat free.1
      keys := by
        rw [List.map_concat]
        exact table.keys.concat free.2 }
  else none

theorem mem_insertIgnore {table table' : Table} {row : Row}
    (inserted : table.insertIgnore row = some table') :
    (∀ other ∈ table, other.lockKey ≠ row.lockKey) ∧
      ∀ other, other ∈ table' ↔ other ∈ table ∨ other = row := by
  unfold insertIgnore at inserted
  split at inserted
  · rename_i free
    cases inserted
    refine ⟨fun other member same => free.2 ?_, fun other => ?_⟩
    · exact List.mem_map.mpr ⟨other, member, same⟩
    · show other ∈ table.rows.concat row ↔ _
      simp only [List.concat_eq_append, List.mem_append, List.mem_singleton]
      rfl
  · cases inserted

theorem insertIgnore_of_taken {table : Table} {row other : Row} (member : other ∈ table)
    (same : other.lockKey = row.lockKey) : table.insertIgnore row = none :=
  dif_neg fun free => free.2 (List.mem_map.mpr ⟨other, member, same⟩)

theorem insertIgnore_empty (row : Row) :
    ∃ table, empty.insertIgnore row = some table ∧ row ∈ table :=
  ⟨⟨⟨[row], List.nodup_singleton _⟩, List.nodup_singleton _⟩, rfl, List.mem_singleton_self row⟩

/-- `UPDATE ... WHERE`, of columns other than the keys. -/
def update (table : Table) (chosen : Row → Bool) (patch : Row → Row)
    (sameId : ∀ row, (patch row).id = row.id)
    (sameKey : ∀ row, (patch row).lockKey = row.lockKey) : Table where
  toKeyed := table.toKeyed.update chosen patch sameId
  keys :=
    ((⟨table.rows, table.keys⟩ : Keyed JsString Row Row.lockKey).update chosen patch
      sameKey).distinct

theorem mem_update {table : Table} {chosen : Row → Bool} {patch : Row → Row}
    (sameId : ∀ row, (patch row).id = row.id)
    (sameKey : ∀ row, (patch row).lockKey = row.lockKey) {row : Row} :
    row ∈ table.update chosen patch sameId sameKey ↔
      ∃ old ∈ table, row = if chosen old then patch old else old :=
  Keyed.mem_update sameId

/-- An UPDATE that finds no row changes nothing. -/
theorem update_eq_self {table : Table} {chosen : Row → Bool} {patch : Row → Row}
    {sameId : ∀ row, (patch row).id = row.id}
    {sameKey : ∀ row, (patch row).lockKey = row.lockKey}
    (nothing : ∀ row ∈ table, chosen row = false) :
    table.update chosen patch sameId sameKey = table := by
  refine ext_rows ((List.map_congr_left fun row member => ?_).trans (List.map_id _))
  simp [nothing row member]

end Table

/-! ## Statements -/

/-- The columns of the INSERT of `acquire`. -/
structure Values where
  lockKey : JsString
  code : JsString
  name : Option JsString
  type : JobSchedulerType
  ownerToken : Uuid
deriving DecidableEq, Repr

/-- What the UPDATE of an owned lease sets; `modifiedAt` is set in either case. -/
inductive LeaseSet where
  | modifiedAt
  | success (data : Option Data)
  | fail (data : Option Data)
deriving DecidableEq, Repr

/-- The calls of the service.  The lease of `insertIgnore` is no part of the statement: it
records under which lease the caller acquires. -/
inductive Call where
  | randomUUID
  | insertIgnore (values : Values) (leaseMs : Nat)
  | reclaim (lockKey : JsString) (ownerToken : Uuid) (leaseMs : Nat)
  | updateOwned (lease : JobLease) (set : LeaseSet)
deriving DecidableEq, Repr

/-- What a call answers: the id of the row returned, or how many rows were affected. -/
@[reducible] def Call.Answer : Call → Type
  | .randomUUID => Uuid
  | .insertIgnore .. | .reclaim .. => Option Uuid
  | .updateOwned .. => Nat

abbrev sig : Signature := ⟨Call, Call.Answer⟩

structure World where
  clock : Int
  table : Table
  nextId : Uuid
  nextToken : Uuid

namespace World

/-- The row that an INSERT would store. -/
def newRow (world : World) (values : Values) : Row where
  id := world.nextId
  lockKey := values.lockKey
  code := values.code
  name := values.name
  type := values.type
  status := .running
  ownerToken := values.ownerToken
  data := none
  createdAt := world.clock
  modifiedAt := world.clock

/-- The row is a failed run, or a run that nobody touched for longer than the lease. -/
def reclaimable (world : World) (lockKey : JsString) (leaseMs : Nat) (row : Row) : Bool :=
  decide (row.lockKey = lockKey) && (decide (row.status = .fail) ||
    (decide (row.status = .running) && decide (row.modifiedAt < world.clock - leaseMs * 1000)))

def reclaimed (world : World) (ownerToken : Uuid) (row : Row) : Row :=
  { row with
    status := .running
    data := none
    ownerToken := ownerToken
    modifiedAt := world.clock }

@[simp] theorem reclaimed_id (world : World) (ownerToken : Uuid) (row : Row) :
    (world.reclaimed ownerToken row).id = row.id := rfl

@[simp] theorem reclaimed_lockKey (world : World) (ownerToken : Uuid) (row : Row) :
    (world.reclaimed ownerToken row).lockKey = row.lockKey := rfl

end World

def JobLease.owns (lease : JobLease) (row : Row) : Bool :=
  decide (row.id = lease.id) && decide (row.ownerToken = lease.ownerToken) &&
    decide (row.status = .running)

def LeaseSet.apply (set : LeaseSet) (clock : Int) (row : Row) : Row :=
  match set with
  | .modifiedAt => { row with modifiedAt := clock }
  | .success data => { row with status := .success, data := data, modifiedAt := clock }
  | .fail data => { row with status := .fail, data := data, modifiedAt := clock }

@[simp] theorem LeaseSet.apply_id (set : LeaseSet) (clock : Int) (row : Row) :
    (set.apply clock row).id = row.id := by
  cases set <;> rfl

@[simp] theorem LeaseSet.apply_lockKey (set : LeaseSet) (clock : Int) (row : Row) :
    (set.apply clock row).lockKey = row.lockKey := by
  cases set <;> rfl

@[simp] theorem LeaseSet.apply_ownerToken (set : LeaseSet) (clock : Int) (row : Row) :
    (set.apply clock row).ownerToken = row.ownerToken := by
  cases set <;> rfl

@[simp] theorem LeaseSet.apply_modifiedAt (set : LeaseSet) (clock : Int) (row : Row) :
    (set.apply clock row).modifiedAt = clock := by
  cases set <;> rfl

@[simp] theorem JobLease.owns_eq_true {lease : JobLease} {row : Row} :
    lease.owns row = true ↔
      row.id = lease.id ∧ row.ownerToken = lease.ownerToken ∧ row.status = .running := by
  simp [owns, and_assoc]

namespace World

@[simp] theorem reclaimable_eq_true {world : World} {lockKey : JsString} {leaseMs : Nat}
    {row : Row} :
    world.reclaimable lockKey leaseMs row = true ↔ row.lockKey = lockKey ∧
      (row.status = .fail ∨
        (row.status = .running ∧ row.modifiedAt < world.clock - leaseMs * 1000)) := by
  simp [reclaimable]

def updateOwned (world : World) (lease : JobLease) (set : LeaseSet) : World :=
  { world with
    table := world.table.update lease.owns (set.apply world.clock) (by simp) (by simp) }

def reclaim (world : World) (lockKey : JsString) (ownerToken : Uuid) (leaseMs : Nat) : World :=
  { world with
    table := world.table.update (world.reclaimable lockKey leaseMs)
      (world.reclaimed ownerToken) (world.reclaimed_id ownerToken)
      (world.reclaimed_lockKey ownerToken) }

theorem mem_updateOwned {world : World} {lease : JobLease} {set : LeaseSet} {row : Row} :
    row ∈ (world.updateOwned lease set).table ↔
      ∃ old ∈ world.table, row = if lease.owns old then set.apply world.clock old else old :=
  Table.mem_update (by simp) (by simp)

theorem mem_reclaim {world : World} {lockKey : JsString} {ownerToken : Uuid} {leaseMs : Nat}
    {row : Row} :
    row ∈ (world.reclaim lockKey ownerToken leaseMs).table ↔
      ∃ old ∈ world.table, row =
        if world.reclaimable lockKey leaseMs old then world.reclaimed ownerToken old else old :=
  Table.mem_update (world.reclaimed_id ownerToken) (world.reclaimed_lockKey ownerToken)

def exec (world : World) (_ : Worker) : (call : Call) → call.Answer × World
  | .randomUUID => (world.nextToken, { world with nextToken := world.nextToken + 1 })
  | .insertIgnore values _ =>
      match world.table.insertIgnore (world.newRow values) with
      | some table => (some world.nextId, { world with table := table, nextId := world.nextId + 1 })
      | none => (none, world)
  | .reclaim lockKey ownerToken leaseMs =>
      ((world.table.rows.find? (world.reclaimable lockKey leaseMs)).map Row.id,
        world.reclaim lockKey ownerToken leaseMs)
  | .updateOwned lease set =>
      (world.table.count lease.owns, world.updateOwned lease set)

/-- The database clock goes forward. -/
def tick (world : World) (microseconds : Nat) : World :=
  { world with clock := world.clock + microseconds }

def initial (time : Int) : World := ⟨time, .empty, 0, 0⟩

end World

/-- The job table as a machine.  Minting a token cannot fail; a statement that threw may
have taken effect, or may take effect later. -/
def machine : Machine sig where
  World := World
  Move := Nat
  exec := World.exec
  sure := fun
    | .randomUUID => true
    | _ => false
  residue := fun
    | .randomUUID => []
    | call => [call]
  move := fun world microseconds => some (world.tick microseconds)

/-! ## What a statement does -/

/-- An acquisition that took effect. -/
structure Acquisition where
  worker : Worker
  lockKey : JsString
  ownerToken : Uuid
  leaseMs : Nat
deriving DecidableEq

namespace World

/-- The acquisition that a call is in this world, if it takes effect. -/
def acquisition (world : World) (worker : Worker) : Call → Option Acquisition
  | .insertIgnore values leaseMs =>
      if (world.table.insertIgnore (world.newRow values)).isSome then
        some ⟨worker, values.lockKey, values.ownerToken, leaseMs⟩
      else none
  | .reclaim lockKey ownerToken leaseMs =>
      if world.table.rows.any (world.reclaimable lockKey leaseMs) then
        some ⟨worker, lockKey, ownerToken, leaseMs⟩
      else none
  | .randomUUID | .updateOwned .. => none

variable {world : World} {worker : Worker} {call : Call}

/-- Everything a call can do to the row of a lock key: nothing, acquire it, or change it for
the lease that owns it. -/
theorem exec_cases {row' : Row} (member : row' ∈ (world.exec worker call).2.table) :
    (row' ∈ world.table ∧
      (∀ acquisition, world.acquisition worker call = some acquisition →
        acquisition.lockKey ≠ row'.lockKey) ∧
      ∀ lease set, call = .updateOwned lease set → lease.owns row' = false) ∨
    (∃ leaseMs,
      world.acquisition worker call = some ⟨worker, row'.lockKey, row'.ownerToken, leaseMs⟩ ∧
      row'.status = .running ∧ row'.modifiedAt = world.clock) ∨
    ∃ lease set, ∃ row ∈ world.table, call = .updateOwned lease set ∧ lease.owns row = true ∧
      row' = set.apply world.clock row := by
  cases call with
  | randomUUID => exact .inl ⟨member, fun _ taken => (by cases taken), fun _ _ same => (by cases same)⟩
  | insertIgnore values leaseMs =>
      simp only [exec, acquisition] at member ⊢
      split at member
      · rename_i table inserted
        obtain ⟨free, grown⟩ := Table.mem_insertIgnore inserted
        rw [inserted]
        rcases (grown row').mp member with old | rfl
        · refine .inl ⟨old, fun acquisition taken => ?_, fun _ _ same => (by cases same)⟩
          cases taken
          exact (free row' old).symm
        · exact .inr (.inl ⟨leaseMs, rfl, rfl, rfl⟩)
      · rename_i conflict
        rw [conflict]
        exact .inl ⟨member, fun _ taken => (by cases taken), fun _ _ same => (by cases same)⟩
  | reclaim lockKey ownerToken leaseMs =>
      obtain ⟨row, there, changed⟩ := mem_reclaim.mp member
      have taken (found : world.reclaimable lockKey leaseMs row = true) :
          world.acquisition worker (.reclaim lockKey ownerToken leaseMs) =
            some ⟨worker, lockKey, ownerToken, leaseMs⟩ :=
        if_pos (List.any_eq_true.mpr ⟨row, there, found⟩)
      by_cases found : world.reclaimable lockKey leaseMs row = true
      · rw [if_pos found] at changed
        have key : row.lockKey = lockKey := (reclaimable_eq_true.mp found).1
        subst changed
        refine .inr (.inl ⟨leaseMs, ?_, rfl, rfl⟩)
        rw [taken found]
        simp [reclaimed, key]
      · rw [if_neg found] at changed
        subst changed
        refine .inl ⟨there, fun acquisition acquired same => found ?_,
          fun _ _ same => (by cases same)⟩
        simp only [World.acquisition] at acquired
        split at acquired
        · rename_i any
          cases acquired
          obtain ⟨row, there', reclaimable⟩ := List.any_eq_true.mp any
          have key := (reclaimable_eq_true.mp reclaimable).1
          rwa [Table.eq_of_lockKey there there' (same.symm.trans key.symm)]
        · cases acquired
  | updateOwned lease set =>
      obtain ⟨row, there, changed⟩ := mem_updateOwned.mp member
      by_cases owned : lease.owns row = true
      · rw [if_pos owned] at changed
        exact .inr (.inr ⟨lease, set, row, there, rfl, owned, changed⟩)
      · rw [if_neg owned] at changed
        subst changed
        refine .inl ⟨there, fun _ taken => (by cases taken), fun _ _ same => ?_⟩
        cases same
        exact Bool.eq_false_iff.mpr owned

/-- An acquisition found no row under its key, a failed one, or one untouched for longer than
the lease given. -/
theorem acquisition_found {acquisition : Acquisition}
    (taken : world.acquisition worker call = some acquisition) {row : Row} (member : row ∈ world.table)
    (key : row.lockKey = acquisition.lockKey) :
    row.status = .fail ∨
      (row.status = .running ∧ row.modifiedAt < world.clock - acquisition.leaseMs * 1000) := by
  cases call with
  | randomUUID => cases taken
  | updateOwned lease set => cases taken
  | insertIgnore values leaseMs =>
      simp only [World.acquisition] at taken
      split at taken
      · rename_i inserted
        cases taken
        obtain ⟨table, inserted⟩ := Option.isSome_iff_exists.mp inserted
        exact absurd key ((Table.mem_insertIgnore inserted).1 row member)
      · cases taken
  | reclaim lockKey ownerToken leaseMs =>
      simp only [World.acquisition] at taken
      split at taken
      · rename_i any
        cases taken
        obtain ⟨found, there, reclaimable⟩ := List.any_eq_true.mp any
        obtain ⟨key', state⟩ := reclaimable_eq_true.mp reclaimable
        rwa [Table.eq_of_lockKey member there (key.trans key'.symm)]
      · cases taken

/-- An UPDATE by a lease that owns no row affects none and changes nothing. -/
theorem exec_updateOwned_of_not_owns {lease : JobLease} {set : LeaseSet}
    (nothing : ∀ row ∈ world.table, lease.owns row = false) :
    world.exec worker (.updateOwned lease set) = ((0 : Nat), world) := by
  have none : world.table.count lease.owns = 0 := by
    refine List.length_eq_zero_iff.mpr (List.filter_eq_nil_iff.mpr fun row member => ?_)
    simp [nothing row member]
  have same : world.updateOwned lease set = world := by
    unfold updateOwned
    rw [Table.update_eq_self nothing]
  show (world.table.count lease.owns, world.updateOwned lease set) = _
  rw [none, same]

end World

end SdcoreNest.JobScheduler
