/-
# UploadedFile.Sweeps -- what a maintenance sweep does to one row

A sweep of one worker, at one instant, over a database whose statements work; a deletion in
the storage may throw.  A row the sweep takes up is claimed, its objects are deleted or not,
and it ends finalized or backed off.  Either way its markers leave the window that sweeps
select from (`Settles`), and no other row changes (`Replaced`).
-/
import SdcoreNest.UploadedFile.ChangeFiles

namespace SdcoreNest.UploadedFile

open SdcoreNest.Theory
open SdcoreNest.Theory.Program

set_option autoImplicit false

/-- Only deletions in the storage throw; what takes effect of one is part of it. -/
structure Faults.OfStorage (faults : Faults) : Prop where
  possible : faults.Possible
  only : ∀ log call, (∀ keys, call ≠ .delete keys) → (∀ key, call ≠ .deleteObject key) →
    faults log call = none

/-- Deletions of some keys throw, and nothing of them takes effect. -/
def Faults.refusing (failing : StorageKey → Bool) : Faults := fun _ call =>
  match call with
  | .delete keys => if keys.any failing then some [] else none
  | .deleteObject key => if failing key then some [] else none
  | _ => none

theorem refusing_ofStorage (failing : StorageKey → Bool) : (Faults.refusing failing).OfStorage := by
  refine ⟨?_, ?_⟩
  · intro log call landed thrown
    unfold Faults.refusing at thrown
    split at thrown
    next =>
      split at thrown <;> cases thrown
      exact ⟨rfl, List.nil_sublist _⟩
    next =>
      split at thrown <;> cases thrown
      exact ⟨rfl, List.nil_sublist _⟩
    next => cases thrown
  · intro log call many one
    cases call with
    | delete keys => exact absurd rfl (many keys)
    | deleteObject key => exact absurd rfl (one key)
    | _ => rfl

/-- Table, clocks and claim counters are the same. -/
structure SameRecords (world world' : World) : Prop where
  table : world'.table = world.table
  clock : world'.clock = world.clock
  lastDeletionClaimAt : world'.lastDeletionClaimAt = world.lastDeletionClaimAt

/-- One row gives way to another with its id. -/
structure Replaced (row after : Row) (world world' : World) : Prop where
  clock : world'.clock = world.clock
  rows : world'.table.rows =
    world.table.rows.map fun other => if other.id = row.id then after else other

/-- A row whose objects are gone.  An unresolved upload keeps its claim. -/
def Row.finalized (deletedAt : Moment) (row : Row) : Row :=
  { row with
    deletedAt := some deletedAt
    deletionPendingAt := if row.uploadPendingAt.isSome then row.deletionPendingAt else none }

/-- A row whose objects could not be deleted. -/
def Row.backedOff (now : Int) (row : Row) : Row :=
  { row with deletionPendingAt := some (now + deletionRetryBackoffMs) }

/-- The row a step claimed for deletion. -/
def claimedId (step : Step sig) : Option Uuid :=
  match step with
  | ⟨.update statement, some 1⟩ =>
      match statement.claims with
      | some ([row], _, _) => some row.id
      | _ => none
  | _ => none

/-- The objects a step asked the storage to delete. -/
def deletedKeys (step : Step sig) : Option (List StorageKey) :=
  match step with
  | ⟨.delete keys, _⟩ => some keys
  | _ => none

/-- The rows that some steps, newest first, claimed and the deletions they asked for. -/
structure Traces (steps : List (Step sig)) (ids : List Uuid) (keys : List (List StorageKey)) :
    Prop where
  claimed : steps.reverse.filterMap claimedId = ids
  deleted : steps.reverse.filterMap deletedKeys = keys

/-- The rows whose deletion was attempted: each was claimed and its objects were to be deleted. -/
def Attempts (steps : List (Step sig)) (rows : List Row) : Prop :=
  Traces steps (rows.map Row.id) (rows.map fun row => objectKeys [row])

namespace Traces

variable {steps steps' : List (Step sig)} {ids ids' : List Uuid} {keys keys' : List (List StorageKey)}

theorem nil : Traces [] [] [] := ⟨rfl, rfl⟩

theorem append (later : Traces steps' ids' keys') (earlier : Traces steps ids keys) :
    Traces (steps' ++ steps) (ids ++ ids') (keys ++ keys') := by
  refine ⟨?_, ?_⟩
  · rw [List.reverse_append, List.filterMap_append, earlier.claimed, later.claimed]
  · rw [List.reverse_append, List.filterMap_append, earlier.deleted, later.deleted]

theorem delete (keys : List StorageKey) (reply : Option Unit) :
    Traces [⟨.delete keys, reply⟩] [] [keys] := ⟨rfl, rfl⟩

/-- A statement that claims nothing. -/
theorem update {statement : Statement} (reply : Option Nat) (other : statement.claims = none) :
    Traces [⟨.update statement, reply⟩] [] [] := by
  refine ⟨?_, rfl⟩
  rw [List.reverse_singleton, List.filterMap_eq_nil_iff]
  intro step inside
  rw [List.mem_singleton.mp inside]
  unfold claimedId
  split
  next same =>
    cases same
    rw [other]
  next => rfl

theorem claim {statement : Statement} {row : Row} {marker : Int} {access : Option Access}
    (claims : statement.claims = some ([row], marker, access)) :
    Traces [⟨.update statement, some 1⟩] [row.id] [] := by
  refine ⟨?_, rfl⟩
  rw [List.reverse_singleton, List.filterMap_cons_some (b := row.id), List.filterMap_nil]
  simp only [claimedId, claims]

end Traces

section

variable {deployment : Deployment} {worker : Worker} {faults : Faults} {solo solo' : Solo}
  {world world' world'' : World}

/-! ## Calls -/

/-- A call that does not throw. -/
theorem serve_answered {call : Call} (sound : faults solo.log call = none) :
    serve deployment worker faults solo call =
      (some (exec deployment solo.world worker call).1,
        ⟨(exec deployment solo.world worker call).2,
          ⟨call, some (exec deployment solo.world worker call).1⟩ :: solo.log⟩) := by
  unfold serve
  rw [sound]

theorem runAlone_answered {β : Type} {call : Call} (sound : faults solo.log call = none)
    (next : call.Answer → Service β) :
    runAlone deployment worker faults (ask call >>= next) solo =
      runAlone deployment worker faults (next (exec deployment solo.world worker call).1)
        ⟨(exec deployment solo.world worker call).2,
          ⟨call, some (exec deployment solo.world worker call).1⟩ :: solo.log⟩ := by
  rw [runAlone_ask_bind, serve_answered sound]
  rfl

theorem Faults.OfStorage.update (storage : faults.OfStorage) (log : List (Step sig))
    (statement : Statement) : faults log (.update statement) = none :=
  storage.only log _ (fun _ => Call.noConfusion) fun _ => Call.noConfusion

theorem Faults.OfStorage.now (storage : faults.OfStorage) (log : List (Step sig)) :
    faults log .now = none :=
  storage.only log _ (fun _ => Call.noConfusion) fun _ => Call.noConfusion

theorem Faults.OfStorage.nextDeletionClaim (storage : faults.OfStorage) (log : List (Step sig))
    (expected : Option Int) : faults log (.nextDeletionClaim expected) = none :=
  storage.only log _ (fun _ => Call.noConfusion) fun _ => Call.noConfusion

theorem Faults.OfStorage.find (storage : faults.OfStorage) (log : List (Step sig))
    (query : Query) : faults log (.find query) = none :=
  storage.only log _ (fun _ => Call.noConfusion) fun _ => Call.noConfusion

theorem runAlone_now {β : Type} (storage : faults.OfStorage) (next : Int → Service β) :
    runAlone deployment worker faults (ask .now >>= next) solo =
      runAlone deployment worker faults (next (solo.world.clock (.process worker.process)))
        ⟨solo.world, ⟨.now, some (solo.world.clock (.process worker.process))⟩ :: solo.log⟩ :=
  runAlone_answered (storage.now _) next

theorem runAlone_select {β : Type} (storage : faults.OfStorage) (query : Query)
    (next : List Row → Service β) :
    runAlone deployment worker faults (ask (.find query) >>= next) solo =
      runAlone deployment worker faults (next (query.select deployment.keyText solo.world.table.rows))
        ⟨solo.world, ⟨.find query, some (query.select deployment.keyText solo.world.table.rows)⟩ ::
          solo.log⟩ :=
  runAlone_answered (storage.find _ _) next

/-- Objects that disappear leave the records alone. -/
theorem landAll_records {calls : List Call} (objects : ∀ call ∈ calls, ∃ key, call = .deleteObject key)
    (world : World) : SameRecords world (landAll deployment worker world calls) := by
  induction calls generalizing world with
  | nil => exact ⟨rfl, rfl, rfl⟩
  | cons call rest ih =>
      obtain ⟨key, rfl⟩ := objects call List.mem_cons_self
      obtain ⟨table, clock, last⟩ := ih (fun other inside => objects other (.tail _ inside))
        (exec deployment world worker (.deleteObject key)).2
      exact ⟨table, clock, last⟩

/-- A deletion in the storage, thrown or answered. -/
theorem serve_delete (storage : faults.OfStorage) (keys : List StorageKey) :
    ∃ reply world', serve deployment worker faults solo (.delete keys) =
        (reply, ⟨world', ⟨.delete keys, reply⟩ :: solo.log⟩) ∧
      SameRecords solo.world world' := by
  unfold serve
  cases thrown : faults solo.log (.delete keys) with
  | none => exact ⟨some (), _, rfl, rfl, rfl, rfl⟩
  | some landed =>
      have part := (storage.possible solo.log (.delete keys) landed thrown).2
      refine ⟨none, _, rfl, landAll_records (fun call inside => ?_) solo.world⟩
      obtain ⟨key, -, rfl⟩ := List.mem_map.mp (part.subset inside)
      exact ⟨key, rfl⟩

theorem serve_deleteObject (storage : faults.OfStorage) (key : StorageKey) :
    ∃ reply world', serve deployment worker faults solo (.deleteObject key) =
        (reply, ⟨world', ⟨.deleteObject key, reply⟩ :: solo.log⟩) ∧
      SameRecords solo.world world' ∧
      (reply = none ↔ (faults solo.log (.deleteObject key)).isSome = true) := by
  unfold serve
  cases thrown : faults solo.log (.deleteObject key) with
  | none => exact ⟨some (), _, rfl, ⟨rfl, rfl, rfl⟩, by simp⟩
  | some landed =>
      have part := (storage.possible solo.log (.deleteObject key) landed thrown).2
      refine ⟨none, _, rfl, landAll_records (fun call inside => ?_) solo.world, by simp⟩
      exact ⟨key, List.mem_singleton.mp (part.subset inside)⟩

/-! ## Replacing one row -/

theorem Replaced.trans {row between after : Row} (first : Replaced row between world world')
    (second : Replaced between after world' world'') (same : between.id = row.id) :
    Replaced row after world world'' := by
  refine ⟨second.clock.trans first.clock, ?_⟩
  rw [second.rows, first.rows, List.map_map]
  refine List.map_congr_left fun other _ => ?_
  simp only [Function.comp_apply, same]
  by_cases named : other.id = row.id
  · simp [named, same]
  · simp [named]

theorem Replaced.of_records {row after : Row} (same : SameRecords world world')
    (replaced : Replaced row after world' world'') : Replaced row after world world'' := by
  refine ⟨replaced.clock.trans same.clock, ?_⟩
  rw [replaced.rows, same.table]

/-- The new row is in the table, and every other row stays. -/
theorem Replaced.mem {row after : Row} (replaced : Replaced row after world world')
    (member : row ∈ world.table) : after ∈ world'.table := by
  change after ∈ world'.table.rows
  rw [replaced.rows]
  exact List.mem_map.mpr ⟨row, member, if_pos rfl⟩

theorem Replaced.other {row after other : Row} (replaced : Replaced row after world world')
    (member : other ∈ world.table) (different : other.id ≠ row.id) : other ∈ world'.table := by
  change other ∈ world'.table.rows
  rw [replaced.rows]
  exact List.mem_map.mpr ⟨other, member, if_neg different⟩

/-- A statement that names one row. -/
def Names (statement : Statement) (row : Row) (world : World) : Prop :=
  ∀ other ∈ world.table, statement.chosen other = true ↔ other.id = row.id

theorem Names.affected {statement : Statement} {row : Row} (names : Names statement row world)
    (member : row ∈ world.table) : world.affected statement = 1 := by
  have whole : world.table.count (fun other => true && decide (other.id ∈ [row.id])) =
      [row.id].length :=
    Keyed.count_eq_length_iff.mpr ⟨List.nodup_singleton _, fun id inside =>
      ⟨row, member, rfl, (List.mem_singleton.mp inside).symm⟩⟩
  rw [List.length_singleton] at whole
  rw [← whole]
  refine congrArg List.length (Keyed.select_congr fun other inside => ?_)
  rw [Bool.eq_iff_iff, names other inside]
  simp

theorem Names.replaced {statement : Statement} {row : Row} (names : Names statement row world)
    (member : row ∈ world.table) :
    Replaced row (statement.patch world.timestamp row) world (world.apply statement) := by
  refine ⟨rfl, ?_⟩
  rw [World.apply_rows]
  refine List.map_congr_left fun other inside => ?_
  by_cases named : other.id = row.id
  · obtain rfl := Keyed.eq_of_key inside member named
    rw [if_pos rfl]
    exact changing_pos _ ((names other inside).mpr rfl)
  · rw [if_neg named]
    exact changing_neg _ (by simpa [named] using (names other inside).not)

/-! ## Deleting a claimed row -/

theorem pendingDeletion_names {row : Row} {claim : Int} {access : Option Access}
    (member : row ∈ world.table) (covered : coveredBy access row = true)
    (open_ : row.deletedAt = none) (claimed : row.deletionPendingAt = some claim)
    {statement : Statement}
    (criteria : statement.chosen = pendingDeletionWhere [row] claim access) :
    Names statement row world := by
  intro other inside
  rw [criteria, pendingDeletionWhere_eq_true]
  constructor
  · rintro ⟨named, -⟩
    exact List.mem_singleton.mp named
  · intro named
    obtain rfl := Keyed.eq_of_key inside member named
    refine ⟨List.mem_singleton_self _, covered, ?_, rfl, claimed⟩
    simp [open_]

/-- After the storage threw, the claim is released to a later time. -/
theorem runAlone_release (storage : faults.OfStorage) {row : Row} {claim : Int}
    (member : row ∈ solo.world.table) (open_ : row.deletedAt = none)
    (claimed : row.deletionPendingAt = some claim) :
    ∃ steps world', runAlone deployment worker faults (releaseDeletionClaim [row] claim none) solo =
        (.ok (), ⟨world', steps ++ solo.log⟩) ∧ Traces steps [] [] ∧
      Replaced row (row.backedOff (solo.world.clock (.process worker.process))) solo.world world' := by
  unfold releaseDeletionClaim
  rw [if_neg (by simp), runAlone_answered (storage.now _), runAlone_answered (storage.update _ _)]
  have names : Names (.releaseDeletionClaim [row] claim none
      (solo.world.clock (.process worker.process) + deletionRetryBackoffMs)) row solo.world :=
    pendingDeletion_names member rfl open_ claimed rfl
  exact ⟨[_, _], _, rfl, .append (.update _ rfl) ⟨rfl, rfl⟩, names.replaced member⟩

/-- The last statement of a deletion: only a settled row gives its claim up. -/
theorem runAlone_clear (storage : faults.OfStorage) {row : Row} {claim : Int}
    (member : row ∈ solo.world.table) (deleted : row.deletedAt.isSome = true)
    (claimed : row.deletionPendingAt = some claim) {held : Row} (same : held.id = row.id)
    (pending : held.uploadPendingAt = row.uploadPendingAt) :
    ∃ steps world', runAlone deployment worker faults
        (clearFinalizedDeletionClaim [held] claim none) solo = (.ok (), ⟨world', steps ++ solo.log⟩) ∧
      Traces steps [] [] ∧
      Replaced row { row with deletionPendingAt :=
        if row.uploadPendingAt.isSome then row.deletionPendingAt else none } solo.world world' := by
  unfold clearFinalizedDeletionClaim
  by_cases unresolved : row.uploadPendingAt.isSome = true
  · rw [if_pos (by simpa [pending] using unresolved)]
    refine ⟨[], solo.world, rfl, .nil, rfl, ?_⟩
    rw [if_pos unresolved]
    refine (List.map_id _).symm.trans (List.map_congr_left fun other inside => ?_)
    split
    next named => exact (Keyed.eq_of_key inside member named)
    next => rfl
  · have resolved : row.uploadPendingAt = none := by simpa using unresolved
    have names : Names (.clearFinalizedDeletionClaim [held] claim none) row solo.world := by
      intro other inside
      constructor
      · intro chosen
        simp only [Statement.chosen, Bool.and_eq_true, decide_eq_true_eq, List.map_cons,
          List.map_nil, List.mem_singleton] at chosen
        rw [chosen.1.1.1.1, same]
      · intro named
        obtain rfl := Keyed.eq_of_key inside member named
        simp [Statement.chosen, same, deleted, claimed, resolved, coveredBy]
    rw [if_neg (by simpa [pending] using unresolved), runAlone_answered (storage.update _ _)]
    have one : (exec deployment solo.world worker
        (.update (.clearFinalizedDeletionClaim [held] claim none))).1 = 1 := names.affected member
    rw [one, if_pos List.length_singleton.symm]
    refine ⟨[_], _, rfl, .update _ rfl, ?_⟩
    rw [if_neg unresolved]
    exact names.replaced member

/-- A claimed row ends finalized or backed off. -/
theorem runAlone_deleteClaimedRow (storage : faults.OfStorage) {row : Row} {claim : Int}
    (member : row ∈ solo.world.table) (open_ : row.deletedAt = none)
    (claimed : row.deletionPendingAt = some claim) :
    ∃ count steps after world',
      runAlone deployment worker faults (deleteClaimedRow row claim) solo =
        (.ok count, ⟨world', steps ++ solo.log⟩) ∧
      Traces steps [] [objectKeys [row]] ∧
      Replaced row after solo.world world' ∧
      ((∃ moment, after = row.finalized moment) ∨
        after = row.backedOff (solo.world.clock (.process worker.process))) := by
  obtain ⟨reply, between, served, same⟩ := @serve_delete deployment worker faults solo storage
    (objectKeys [row])
  have there : row ∈ between.table := by
    rw [same.table]
    exact member
  unfold deleteClaimedRow deleteAndFinalizePendingRows
  rw [if_neg (by simp), runAlone_tryCatch, runAlone_tryCatch, runAlone_ask_bind, served]
  cases reply with
  | none =>
      obtain ⟨steps, world', ran, quiet, replaced⟩ := @runAlone_release deployment worker faults
        ⟨between, ⟨.delete (objectKeys [row]), none⟩ :: solo.log⟩ storage row claim there open_ claimed
      refine ⟨0, steps ++ [⟨.delete (objectKeys [row]), none⟩], _, world', ?_, quiet.append (.delete _ _),
        .of_records same replaced, .inr ?_⟩
      · simp only [answered, andThen_error, orHandle_error, runAlone_bind, runAlone_swallow, ran,
          andThen_ok, runAlone_throw, runAlone_pure, List.append_assoc, List.singleton_append]
      · rw [same.clock]
  | some _ =>
      have names : Names (.finalizePendingRows [row] claim none) row between :=
        pendingDeletion_names there rfl open_ claimed rfl
      have one : exec deployment between worker (.update (.finalizePendingRows [row] claim none)) =
          (1, between.apply (.finalizePendingRows [row] claim none)) :=
        Prod.ext (names.affected there) rfl
      have finalized := names.replaced there
      obtain ⟨steps, world', ran, quiet, replaced⟩ := @runAlone_clear deployment worker faults
        ⟨between.apply (.finalizePendingRows [row] claim none),
          ⟨.update (.finalizePendingRows [row] claim none), some 1⟩ ::
            ⟨.delete (objectKeys [row]), some ()⟩ :: solo.log⟩ storage
        { row with deletedAt := some between.timestamp } claim (finalized.mem there) rfl claimed
        row rfl rfl
      refine ⟨1, steps ++ ([⟨.update (.finalizePendingRows [row] claim none), some 1⟩] ++
          [⟨.delete (objectKeys [row]), some ()⟩]), _, world', ?_,
        quiet.append (.append (.update _ rfl) (.delete _ _)),
        .of_records same (finalized.trans replaced rfl), .inl ⟨between.timestamp, rfl⟩⟩
      simp only [answered, andThen_ok, finalizePendingRows]
      rw [if_neg (by simp), runAlone_answered (storage.update _ _), one,
        if_pos List.length_singleton.symm, runAlone_bind, runAlone_swallow, ran]
      simp only [andThen_ok, runAlone_pure, orHandle_ok, List.append_assoc, List.cons_append,
        List.nil_append]

/-! ## Taking rows up -/

/-- How a sweep claims the rows it selects: the statement, and the row as it holds it then. -/
structure Claiming (statement : Row → Int → Statement) (held : Row → Int → Row)
    (eligible : Row → Bool) : Prop where
  claims : ∀ row claim, (statement row claim).claims = some ([held row claim], claim, none)
  names : ∀ (world : World) row claim, row ∈ world.table → eligible row = true →
    Names (statement row claim) row world
  patched : ∀ row claim clock, eligible row = true →
    (statement row claim).patch clock row = held row claim
  undeleted : ∀ row claim, eligible row = true → (held row claim).deletedAt = none
  marked : ∀ row claim, (held row claim).deletionPendingAt = some claim
  id : ∀ row claim, (held row claim).id = row.id
  keys : ∀ row claim, (held row claim).keys = row.keys

/-- What a row becomes that a sweep took up. -/
def Settles (worker : Worker) (held : Row → Int → Row) (clock : Host → Int) (row after : Row) : Prop :=
  ∃ claim, clock (.process worker.process) + deletionClaimLeaseMs ≤ claim ∧
    ((∃ moment, after = (held row claim).finalized moment) ∨
      after = (held row claim).backedOff (clock (.process worker.process)))

/-- A sweep took one row up. -/
def TakesUp (worker : Worker) (held : Row → Int → Row) (row : Row) (solo solo' : Solo) : Prop :=
  ∃ after steps, solo'.log = steps ++ solo.log ∧ Attempts steps [row] ∧
    Replaced row after solo.world solo'.world ∧ Settles worker held solo.world.clock row after

/-- A sweep passed over a row: it claimed nothing and no row changed. -/
structure PassesOver (solo solo' : Solo) : Prop where
  quiet : ∃ steps, solo'.log = steps ++ solo.log ∧ Traces steps [] []
  rows : solo'.world.table.rows = solo.world.table.rows
  clock : solo'.world.clock = solo.world.clock

/-- A sweep took rows up, one after the other, and passed over others. -/
inductive TakesAll (worker : Worker) (held : Row → Int → Row) : List Row → Solo → Solo → Prop where
  | nil (solo : Solo) : TakesAll worker held [] solo solo
  | cons {row : Row} {rest : List Row} {solo between solo' : Solo}
      (first : TakesUp worker held row solo between) (later : TakesAll worker held rest between solo') :
      TakesAll worker held (row :: rest) solo solo'
  | pass {rows : List Row} {solo between solo' : Solo}
      (passed : PassesOver solo between) (later : TakesAll worker held rows between solo') :
      TakesAll worker held rows solo solo'

/-- The state of a sweep that has just claimed a row. -/
def claimedSolo (worker : Worker) (solo : Solo) (expected : Option Int) (statement : Int → Statement) :
    Solo :=
  let claim := solo.world.claimAt worker.process expected
  ⟨World.apply { solo.world with lastDeletionClaimAt := fun process =>
      if process = worker.process then claim else solo.world.lastDeletionClaimAt process }
      (statement claim),
    ⟨.update (statement claim), some 1⟩ :: ⟨.nextDeletionClaim expected, some claim⟩ :: solo.log⟩

/-- The state of a sweep whose claim matched no row. -/
def passedSolo (worker : Worker) (solo : Solo) (expected : Option Int) (statement : Int → Statement) :
    Solo :=
  let claim := solo.world.claimAt worker.process expected
  ⟨(claimedSolo worker solo expected statement).world,
    ⟨.update (statement claim), some 0⟩ :: ⟨.nextDeletionClaim expected, some claim⟩ :: solo.log⟩

/-- A statement that matches no row of a table. -/
def Misses (statement : Statement) (world : World) : Prop :=
  ∀ other ∈ world.table, statement.chosen other = false

theorem Misses.exec_claim {expected : Option Int} {statement : Int → Statement}
    (misses : ∀ claim, Misses (statement claim) solo.world) :
    exec deployment (exec deployment solo.world worker (.nextDeletionClaim expected)).2 worker
        (.update (statement (exec deployment solo.world worker (.nextDeletionClaim expected)).1)) =
      (0, (passedSolo worker solo expected statement).world) := by
  refine Prod.ext (List.length_eq_zero_iff.mpr (List.filter_eq_nil_iff.mpr fun other inside => ?_)) rfl
  rw [misses _ other inside]
  exact Bool.false_ne_true

theorem Misses.passesOver {expected : Option Int} {statement : Int → Statement}
    (misses : ∀ claim, Misses (statement claim) solo.world) :
    PassesOver solo (passedSolo worker solo expected statement) where
  quiet := ⟨[_, _], rfl, rfl, rfl⟩
  rows := by
    refine (List.map_congr_left fun other inside => ?_).trans (List.map_id solo.world.table.rows)
    rw [misses _ other inside]
    rfl
  clock := rfl

section

variable {statement : Row → Int → Statement} {held : Row → Int → Row} {eligible : Row → Bool}

/-- Nobody else writes, so the claim is met. -/
theorem Claiming.exec_claim (claiming : Claiming statement held eligible) {row : Row}
    (member : row ∈ solo.world.table) (taken : eligible row = true) (expected : Option Int) :
    exec deployment (exec deployment solo.world worker (.nextDeletionClaim expected)).2 worker
        (.update (statement row (exec deployment solo.world worker (.nextDeletionClaim expected)).1)) =
      (1, (claimedSolo worker solo expected (statement row)).world) := by
  refine Prod.ext ?_ rfl
  exact (claiming.names solo.world row _ member taken).affected member

/-- Deleting a row that was just claimed. -/
theorem Claiming.takesUp (claiming : Claiming statement held eligible) (storage : faults.OfStorage)
    {row : Row} (member : row ∈ solo.world.table) (taken : eligible row = true)
    (expected : Option Int) :
    ∃ count solo', runAlone deployment worker faults
        (deleteClaimedRow (held row (solo.world.claimAt worker.process expected))
          (solo.world.claimAt worker.process expected))
        (claimedSolo worker solo expected (statement row)) = (.ok count, solo') ∧
      TakesUp worker held row solo solo' := by
  have replaced : Replaced row (held row (solo.world.claimAt worker.process expected)) solo.world
      (claimedSolo worker solo expected (statement row)).world := by
    have named := claiming.names solo.world row (solo.world.claimAt worker.process expected) member taken
    rw [← claiming.patched row _ solo.world.timestamp taken]
    exact ⟨(named.replaced member).clock, (named.replaced member).rows⟩
  obtain ⟨count, steps, after, world', ran, traces, settled, shape⟩ :=
    @runAlone_deleteClaimedRow deployment worker faults
      (claimedSolo worker solo expected (statement row)) storage _ _ (replaced.mem member)
      (claiming.undeleted row _ taken) (claiming.marked row _)
  have claimed := (Traces.claim (claiming.claims row (solo.world.claimAt worker.process expected))).append
    (⟨rfl, rfl⟩ : Traces [⟨.nextDeletionClaim expected,
      some (solo.world.claimAt worker.process expected)⟩] [] [])
  refine ⟨count, _, ran, after, _, (List.append_assoc steps [_, _] solo.log).symm, ?_,
    replaced.trans settled (claiming.id row _), _, ?_, shape⟩
  · have both := traces.append claimed
    simpa [Attempts, claiming.id, objectKeys, claiming.keys] using both
  · exact le_trans (le_max_left _ _) (le_max_left _ _)

/-- A loop that takes up every row whose claim is met, one after the other. -/
theorem takesAll_of_step {loop : List Row → Nat → Service Nat} (finish : ∀ total, loop [] total = pure total)
    {met : Row → Bool}
    (step : ∀ row rest total (solo : Solo), row ∈ solo.world.table → eligible row = true →
      ∃ total' solo', runAlone deployment worker faults (loop (row :: rest) total) solo =
          runAlone deployment worker faults (loop rest total') solo' ∧
        if met row then TakesUp worker held row solo solo' else PassesOver solo solo') :
    ∀ (rows : List Row) (total : Nat) (solo : Solo), (rows.map Row.id).Nodup →
      (∀ row ∈ rows, row ∈ solo.world.table ∧ eligible row = true) →
      ∃ total' solo', runAlone deployment worker faults (loop rows total) solo = (.ok total', solo') ∧
        TakesAll worker held (rows.filter met) solo solo' := by
  intro rows
  induction rows with
  | nil =>
      intro total solo _ _
      rw [finish]
      exact ⟨total, solo, rfl, .nil solo⟩
  | cons row rest ih =>
      intro total solo distinct selected
      obtain ⟨outside, distinct⟩ := List.nodup_cons.mp distinct
      obtain ⟨member, taken⟩ := selected row List.mem_cons_self
      obtain ⟨total', between, ran, took⟩ := step row rest total solo member taken
      have selected' : ∀ other ∈ rest, other ∈ between.world.table ∧ eligible other = true := by
        intro other inside
        obtain ⟨there, taken'⟩ := selected other (.tail _ inside)
        refine ⟨?_, taken'⟩
        split at took
        · obtain ⟨_, _, _, _, replaced, _⟩ := took
          refine replaced.other there fun same => outside (same ▸ List.mem_map_of_mem inside)
        · change other ∈ between.world.table.rows
          rw [took.rows]
          exact there
      obtain ⟨total'', solo', ran', later⟩ := ih total' between distinct selected'
      refine ⟨total'', solo', ran.trans ran', ?_⟩
      split at took
      next met =>
        rw [List.filter_cons_of_pos met]
        exact .cons took later
      next unmet =>
        rw [List.filter_cons_of_neg unmet]
        exact .pass took later

end

/-! ## What a whole sweep leaves behind -/

section

variable {held : Row → Int → Row} {rows : List Row}

theorem TakesAll.clock (took : TakesAll worker held rows solo solo') :
    solo'.world.clock = solo.world.clock := by
  induction took with
  | nil solo => rfl
  | cons first _ ih =>
      obtain ⟨_, _, _, _, replaced, _⟩ := first
      exact ih.trans replaced.clock
  | pass passed _ ih => exact ih.trans passed.clock

theorem TakesAll.attempts (took : TakesAll worker held rows solo solo') :
    ∃ steps, solo'.log = steps ++ solo.log ∧ Attempts steps rows := by
  induction took with
  | nil solo => exact ⟨[], rfl, Traces.nil⟩
  | cons first _ ih =>
      obtain ⟨_, steps, log, attempts, _, _⟩ := first
      obtain ⟨later, log', attempts'⟩ := ih
      refine ⟨later ++ steps, ?_, attempts'.append attempts⟩
      rw [log', log, List.append_assoc]
  | pass passed _ ih =>
      obtain ⟨steps, log, quiet⟩ := passed.quiet
      obtain ⟨later, log', attempts⟩ := ih
      refine ⟨later ++ steps, ?_, attempts.append quiet⟩
      rw [log', log, List.append_assoc]

/-- A row that is not taken up stays as it is. -/
theorem TakesAll.stays (took : TakesAll worker held rows solo solo') {row : Row}
    (member : row ∈ solo.world.table) (outside : row.id ∉ rows.map Row.id) :
    row ∈ solo'.world.table := by
  induction took with
  | nil solo => exact member
  | cons first _ ih =>
      obtain ⟨_, _, _, _, replaced, _⟩ := first
      rw [List.map_cons, List.mem_cons, not_or] at outside
      exact ih (replaced.other member outside.1) outside.2
  | pass passed _ ih =>
      refine ih ?_ outside
      rw [← Keyed.mem_rows, passed.rows]
      exact member

/-- One row of a table, replaced by one that is not chosen. -/
theorem Replaced.filter {row after : Row} (replaced : Replaced row after world world')
    {chosen : Row → Bool} (dropped : chosen after = false) :
    world'.table.rows.filter chosen =
      (world.table.rows.filter chosen).filter fun other => decide (other.id ≠ row.id) := by
  rw [replaced.rows, List.filter_map, List.filter_filter]
  have kept : world.table.rows.filter
      (chosen ∘ fun other => if other.id = row.id then after else other) =
      world.table.rows.filter fun other => decide (other.id ≠ row.id) && chosen other := by
    refine List.filter_congr fun other _ => ?_
    by_cases named : other.id = row.id
    · simp [named, dropped]
    · simp [named]
  rw [kept]
  refine (List.map_congr_left fun other inside => ?_).trans (List.map_id _)
  have different := (Bool.and_eq_true_iff.mp (List.mem_filter.mp inside).2).1
  exact if_neg (of_decide_eq_true different)

/-- What the sweep took up is no longer chosen; everything else stays as it is. -/
theorem TakesAll.filter (took : TakesAll worker held rows solo solo') {chosen : Row → Bool}
    (dropped : ∀ row ∈ rows, ∀ after, Settles worker held solo.world.clock row after →
      chosen after = false) :
    solo'.world.table.rows.filter chosen =
      (solo.world.table.rows.filter chosen).filter fun other => decide (other.id ∉ rows.map Row.id) := by
  induction took with
  | nil solo => simp
  | cons first later ih =>
      obtain ⟨after, _, _, _, replaced, settled⟩ := first
      have gone := replaced.filter (dropped _ List.mem_cons_self after settled)
      rw [ih fun row inside after' settles => dropped row (.tail _ inside) after' (replaced.clock ▸ settles),
        gone, List.filter_filter]
      refine List.filter_congr fun other _ => ?_
      rw [Bool.eq_iff_iff, Bool.and_eq_true_iff, decide_eq_true_iff, decide_eq_true_iff,
        decide_eq_true_iff, List.map_cons, List.mem_cons, not_or, and_comm]
  | pass passed later ih =>
      rw [ih fun row inside after settles => dropped row inside after (passed.clock ▸ settles), passed.rows]

end

end

end SdcoreNest.UploadedFile
