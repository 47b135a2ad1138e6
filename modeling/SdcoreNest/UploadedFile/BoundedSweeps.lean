/-
# UploadedFile.BoundedSweeps -- which rows the bounded sweeps reach

Sweeps of one worker at one instant, with a fixed set of keys that the storage never deletes.
The sweeps over expired uploads and over expired temporary files claim a row before they touch
the storage, so it leaves their window and the next sweep goes on behind it.  The sweep over
completed staging claims nothing: a row whose object cannot be deleted stays where it is, and
the rows behind it are reached only as far as the limit leaves room.

The claim of an expired upload compares `deletedAt` with a date: an upload that was marked
deleted between two milliseconds is never attempted, and stays in the window as well.
-/
import SdcoreNest.UploadedFile.RetrySweep

namespace SdcoreNest.UploadedFile

open SdcoreNest.Theory
open SdcoreNest.Theory.Program

set_option autoImplicit false

/-- The storage never deletes these keys, and deletes every other. -/
structure Faults.FailsOn (failing : StorageKey → Bool) (faults : Faults) : Prop where
  ofStorage : faults.OfStorage
  delete : ∀ log keys, (faults log (.delete keys)).isSome = keys.any failing
  deleteObject : ∀ log key, (faults log (.deleteObject key)).isSome = failing key

/-! ## Sweeps that claim -/

/-- One sweep over the rows it selects, and those it attempted. -/
structure SweepsBatch (limit : Nat) (chosen : Row → Bool) (world : World) (solo' : Solo)
    (rows : List Row) : Prop where
  attempts : Attempts solo'.log rows
  distinct : (rows.map Row.id).Nodup
  within : ∀ row ∈ rows, row ∈ world.table.rows.filter chosen
  length : rows.length = min limit (world.table.rows.filter chosen).length
  leaves : solo'.world.table.rows.filter chosen =
    (world.table.rows.filter chosen).filter fun row => decide (row.id ∉ rows.map Row.id)
  clock : solo'.world.clock = world.clock

section

variable {deployment : Deployment} {worker : Worker} {faults : Faults} {world : World}

theorem sweepsBatch_of_takes {held : Row → Int → Row} {query : Query} {limit : Nat} {solo' : Solo}
    {log : List (Step sig)} (bounded : query.take? = some limit) (quiet : Traces log [] [])
    (took : TakesAll worker held (query.select deployment.keyText world.table.rows) ⟨world, log⟩ solo')
    (dropped : ∀ row after, query.chosen deployment.keyText row = true →
      Settles worker held world.clock row after → query.chosen deployment.keyText after = false) :
    SweepsBatch limit (query.chosen deployment.keyText) world solo'
      (query.select deployment.keyText world.table.rows) := by
  obtain ⟨steps, same, attempts⟩ := took.attempts
  refine ⟨?_, Query.select_distinct world.table.distinct, ?_, Query.select_length bounded _, ?_, took.clock⟩
  · rw [same]
    have whole := attempts.append quiet
    simpa [Attempts] using whole
  · exact fun row inside => List.mem_filter.mpr (Query.mem_of_mem_select inside)
  · exact took.filter fun row inside after settled =>
      dropped row after (Query.mem_of_mem_select inside).2 settled

/-- An expired upload as the sweep holds it after the claim. -/
def Row.abandoned (row : Row) (claim : Int) : Row :=
  { row with
    status := .failed
    deletedAt := none
    uploadPendingAt := none
    deletionPendingAt := some claim }

theorem claiming_expiredDirectUploads :
    Claiming (fun row claim => .claimExpiredDirectUpload row claim) Row.abandoned Row.dated where
  claims _ _ := rfl
  names world row claim member dated other inside := by
    rw [Statement.chosen, Bool.and_eq_true_iff, sameMarkers_names dated member inside]
    constructor
    · exact fun both => both.1
    · intro named
      obtain rfl := Keyed.eq_of_key inside member named
      exact ⟨rfl, decide_eq_true rfl⟩
  patched row claim clock _ := by
    simp only [Statement.patch, reopen_self]
    rfl
  undeleted _ _ _ := rfl
  marked _ _ := rfl
  id _ _ := rfl
  keys _ _ := rfl

theorem claiming_expiredTemporaryFiles (keyText : StorageKey → String) (now : Int) (limit : Nat) :
    Claiming (fun row claim => .claimExpiredTemporaryFile row claim) (fun row claim => row.claimed claim)
      ((Query.expiredTemporaryFiles now limit).chosen keyText) where
  claims _ _ := rfl
  names world row claim member taken other inside := by
    simp only [Query.chosen, Bool.and_eq_true, decide_eq_true_eq] at taken
    simp only [Statement.chosen, Bool.and_eq_true, decide_eq_true_eq]
    constructor
    · exact fun all => all.1.1.1.1
    · intro named
      obtain rfl := Keyed.eq_of_key inside member named
      exact ⟨⟨⟨⟨rfl, taken.1.1.1⟩, taken.1.1.2⟩, rfl⟩, taken.2⟩
  patched _ _ _ _ := rfl
  undeleted row _ taken := by
    simp only [Query.chosen, Bool.and_eq_true] at taken
    exact (Row.visible_eq_true.mp taken.2).1
  marked _ _ := rfl
  id _ _ := rfl
  keys _ _ := rfl

theorem cleanupExpiredDirectRows_takesAll (storage : faults.OfStorage) (now : Int) (limit : Nat)
    (rows : List Row) (total : Nat) (solo : Solo) (distinct : (rows.map Row.id).Nodup)
    (selected : ∀ row ∈ rows, row ∈ solo.world.table ∧
      (Query.expiredDirectUploads now limit).chosen deployment.keyText row = true) :
    ∃ total' solo', runAlone deployment worker faults (cleanupExpiredDirectRows rows total) solo =
        (.ok total', solo') ∧ TakesAll worker Row.abandoned (rows.filter Row.dated) solo solo' := by
  refine takesAll_of_step (fun _ => rfl) ?_ rows total solo distinct selected
  intro row rest total solo member taken
  obtain ⟨pending, marked⟩ : ∃ pending, row.uploadPendingAt = some pending := by
    simp only [Query.chosen, Bool.and_eq_true, notAfter_eq_true] at taken
    obtain ⟨moment, marked, -⟩ := taken.1.2
    exact ⟨moment, marked⟩
  rw [cleanupExpiredDirectRows, marked]
  simp only []
  rw [runAlone_answered (storage.nextDeletionClaim _ _), runAlone_answered (storage.update _ _)]
  cases dated : row.dated with
  | false =>
      have misses : ∀ claim, Misses (.claimExpiredDirectUpload row claim) solo.world := by
        intro claim other inside
        rw [Statement.chosen, sameMarkers_misses dated member inside, Bool.false_and]
      refine ⟨total, _, ?_, @Misses.passesOver worker solo (some (row.deletionPendingAt.getD pending)) _
        misses⟩
      rw [@Misses.exec_claim deployment worker solo (some (row.deletionPendingAt.getD pending)) _ misses]
      rfl
  | true =>
      obtain ⟨count, solo', ran, took⟩ := @Claiming.takesUp deployment worker faults solo _ _ _
        claiming_expiredDirectUploads storage row member dated (some (row.deletionPendingAt.getD pending))
      refine ⟨total + count, solo', ?_, took⟩
      have met := @Claiming.exec_claim deployment worker solo _ _ _ claiming_expiredDirectUploads row member
        dated (some (row.deletionPendingAt.getD pending))
      rw [met, if_pos rfl, runAlone_bind]
      exact congrArg (andThen · fun count solo' => runAlone deployment worker faults
        (cleanupExpiredDirectRows rest (total + count)) solo') ran

theorem cleanupExpiredTemporaryRows_takesAll (storage : faults.OfStorage) (now : Int) (limit : Nat)
    (rows : List Row) (total : Nat) (solo : Solo) (distinct : (rows.map Row.id).Nodup)
    (selected : ∀ row ∈ rows, row ∈ solo.world.table ∧
      (Query.expiredTemporaryFiles now limit).chosen deployment.keyText row = true) :
    ∃ total' solo', runAlone deployment worker faults (cleanupExpiredTemporaryRows rows total) solo =
        (.ok total', solo') ∧ TakesAll worker (fun row claim => row.claimed claim) rows solo solo' := by
  suffices all : ∃ total' solo', runAlone deployment worker faults (cleanupExpiredTemporaryRows rows total)
      solo = (.ok total', solo') ∧
        TakesAll worker (fun row claim => row.claimed claim) (rows.filter fun _ => true) solo solo' by
    rwa [List.filter_true] at all
  refine takesAll_of_step (fun _ => rfl) ?_ rows total solo distinct selected
  intro row rest total solo member taken
  have claiming := claiming_expiredTemporaryFiles deployment.keyText now limit
  obtain ⟨count, solo', ran, took⟩ := @Claiming.takesUp deployment worker faults solo _ _ _ claiming storage
    row member taken row.expiredAt
  refine ⟨total + count, solo', ?_, took⟩
  have met := @Claiming.exec_claim deployment worker solo _ _ _ claiming row member taken row.expiredAt
  rw [cleanupExpiredTemporaryRows, runAlone_answered (storage.nextDeletionClaim _ _),
    runAlone_answered (storage.update _ _), met, if_pos rfl, runAlone_bind]
  exact congrArg (andThen · fun count solo' => runAlone deployment worker faults
    (cleanupExpiredTemporaryRows rest (total + count)) solo') ran

/-- One sweep over the expired uploads takes up what its claims meet. -/
theorem expiredDirectUploads_takesAll (storage : faults.OfStorage) (limit : Option Int) :
    ∃ total solo' log, runAlone deployment worker faults (unsafeSystemCleanupExpiredDirectUploads limit)
        ⟨world, []⟩ = (.ok total, solo') ∧ Traces log [] [] ∧
      TakesAll worker Row.abandoned (((Query.expiredDirectUploads (world.clock (.process worker.process))
        (systemDeletionLimit limit)).select deployment.keyText world.table.rows).filter Row.dated)
        ⟨world, log⟩ solo' := by
  unfold unsafeSystemCleanupExpiredDirectUploads
  rw [runAlone_now storage, runAlone_select storage]
  obtain ⟨total, solo', ran, took⟩ := @cleanupExpiredDirectRows_takesAll deployment worker faults storage
    (world.clock (.process worker.process)) (systemDeletionLimit limit)
    ((Query.expiredDirectUploads (world.clock (.process worker.process))
      (systemDeletionLimit limit)).select deployment.keyText world.table.rows) 0
    ⟨world, [⟨.find (.expiredDirectUploads _ _), some _⟩, ⟨.now, some _⟩]⟩
    (Query.select_distinct world.table.distinct) fun row inside => Query.mem_of_mem_select inside
  exact ⟨total, solo', _, ran, ⟨rfl, rfl⟩, took⟩

theorem expiredDirectUploads_sweeps (storage : faults.OfStorage) (limit : Option Int)
    (dated : ∀ row ∈ world.table.rows.filter ((Query.expiredDirectUploads
      (world.clock (.process worker.process)) (systemDeletionLimit limit)).chosen deployment.keyText),
      row.dated = true) :
    ∃ total solo', runAlone deployment worker faults (unsafeSystemCleanupExpiredDirectUploads limit)
        ⟨world, []⟩ = (.ok total, solo') ∧
      ∃ rows, SweepsBatch (systemDeletionLimit limit)
        ((Query.expiredDirectUploads (world.clock (.process worker.process))
          (systemDeletionLimit limit)).chosen deployment.keyText) world solo' rows := by
  obtain ⟨total, solo', log, ran, quiet, took⟩ :=
    @expiredDirectUploads_takesAll deployment worker faults world storage limit
  rw [List.filter_eq_self.mpr fun row inside =>
    dated row (List.mem_filter.mpr (Query.mem_of_mem_select inside))] at took
  refine ⟨total, solo', ran, _, sweepsBatch_of_takes rfl quiet took ?_⟩
  intro row after _ settled
  obtain ⟨claim, -, ⟨moment, rfl⟩ | rfl⟩ := settled <;> rfl

theorem expiredTemporaryFiles_sweeps (storage : faults.OfStorage) (now? limit : Option Int) :
    ∃ total solo', runAlone deployment worker faults (cleanupExpiredTemporaryFiles now? limit)
        ⟨world, []⟩ = (.ok total, solo') ∧
      ∃ rows, SweepsBatch (systemDeletionLimit limit)
        ((Query.expiredTemporaryFiles (now?.getD (world.clock (.process worker.process)))
          (systemDeletionLimit limit)).chosen deployment.keyText) world solo' rows := by
  have loop : ∀ now log, Traces log [] [] → ∃ total solo', runAlone deployment worker faults (do
        let rows ← ask (.find (.expiredTemporaryFiles now (systemDeletionLimit limit)))
        cleanupExpiredTemporaryRows rows 0) ⟨world, log⟩ = (.ok total, solo') ∧
      ∃ rows, SweepsBatch (systemDeletionLimit limit)
        ((Query.expiredTemporaryFiles now (systemDeletionLimit limit)).chosen deployment.keyText)
        world solo' rows := by
    intro now log quiet
    rw [runAlone_select storage]
    obtain ⟨total, solo', ran, took⟩ := @cleanupExpiredTemporaryRows_takesAll deployment worker faults
      storage now (systemDeletionLimit limit)
      ((Query.expiredTemporaryFiles now (systemDeletionLimit limit)).select deployment.keyText
        world.table.rows) 0 ⟨world, ⟨.find (.expiredTemporaryFiles now _), some _⟩ :: log⟩
      (Query.select_distinct world.table.distinct) fun row inside => Query.mem_of_mem_select inside
    have found : Traces [⟨.find (.expiredTemporaryFiles now (systemDeletionLimit limit)), some
        ((Query.expiredTemporaryFiles now (systemDeletionLimit limit)).select deployment.keyText
          world.table.rows)⟩] [] [] := ⟨rfl, rfl⟩
    refine ⟨total, solo', ran, _, sweepsBatch_of_takes rfl (found.append quiet) took ?_⟩
    intro row after _ settled
    obtain ⟨claim, -, ⟨moment, rfl⟩ | rfl⟩ := settled
    · simp [Query.chosen, Row.visible, Row.finalized]
    · simp [Query.chosen, Row.visible, Row.backedOff]
  unfold cleanupExpiredTemporaryFiles
  cases now? with
  | some now => exact loop now [] .nil
  | none =>
      simp only []
      rw [runAlone_now storage]
      exact loop _ _ ⟨rfl, rfl⟩

/-! ## The sweep over completed staging -/

/-- The rows a step found. -/
def foundBy (step : Step sig) : Option (List Row) :=
  match step with
  | ⟨.find _, some rows⟩ => some rows
  | _ => none

/-- The object a step asked the storage to delete. -/
def deletedObject (step : Step sig) : Option StorageKey :=
  match step with
  | ⟨.deleteObject key, _⟩ => some key
  | _ => none

/-- The rows whose staging object a sweep tried to delete: those it found, in their order. -/
structure StagingAttempts (log : List (Step sig)) (rows : List Row) : Prop where
  found : log.filterMap foundBy = [rows]
  deleted : log.reverse.filterMap deletedObject = rows.filterMap Row.pendingKey

theorem StagingAttempts.unique {log : List (Step sig)} {rows rows' : List Row}
    (first : StagingAttempts log rows) (second : StagingAttempts log rows') : rows = rows' := by
  have same := first.found
  rw [second.found] at same
  exact (List.cons.inj same).1.symm

/-- The staging object of the row is one that the storage never deletes. -/
def Row.stuck (failing : StorageKey → Bool) (row : Row) : Bool := row.pendingKey.any failing

theorem clearPendingKey_names {now : Int} {limit : Nat} {row : Row} (member : row ∈ world.table)
    (taken : (Query.completedStaging now limit).chosen deployment.keyText row = true) :
    Names (.clearPendingKey row) row world := by
  intro other inside
  simp only [Query.chosen, Bool.and_eq_true, decide_eq_true_eq] at taken
  simp only [Statement.chosen, Bool.and_eq_true, decide_eq_true_eq]
  constructor
  · exact fun all => all.1.1.1.1
  · intro named
    obtain rfl := Keyed.eq_of_key inside member named
    exact ⟨⟨⟨⟨rfl, taken.1.1.1.1⟩, rfl⟩, taken.1.2⟩, taken.2⟩

/-- One row: its object goes and then its pending key, or nothing happens to it. -/
theorem staging_row {failing : StorageKey → Bool} (fails : faults.FailsOn failing) {now : Int}
    {limit : Nat} {row : Row} {key : StorageKey} {solo : Solo} (member : row ∈ solo.world.table)
    (taken : (Query.completedStaging now limit).chosen deployment.keyText row = true) :
    ∃ count steps world', runAlone deployment worker faults (tryCatch
          (do
            let _ ← ask (.deleteObject key)
            ask (.update (.clearPendingKey row)))
          fun _ => pure 0) solo = (.ok count, ⟨world', steps ++ solo.log⟩) ∧
      steps.filterMap foundBy = [] ∧ steps.reverse.filterMap deletedObject = [key] ∧
      (failing key = true ∧ SameRecords solo.world world' ∨
        failing key = false ∧ Replaced row { row with pendingKey := none } solo.world world') := by
  obtain ⟨reply, between, served, same, thrown⟩ :=
    @serve_deleteObject deployment worker faults solo fails.ofStorage key
  rw [fails.deleteObject] at thrown
  rw [runAlone_tryCatch, runAlone_ask_bind, served]
  cases reply with
  | none => exact ⟨0, [_], between, rfl, rfl, rfl, .inl ⟨thrown.mp rfl, same⟩⟩
  | some _ =>
      have there : row ∈ between.table := by
        rw [same.table]
        exact member
      have deleted : failing key = false := by
        rw [← Bool.not_eq_true, ← thrown]
        exact Option.some_ne_none _
      simp only [answered, andThen_ok]
      rw [runAlone_ask, serve_answered (fails.ofStorage.update _ _)]
      exact ⟨_, [_, _], _, rfl, rfl, rfl, .inr ⟨deleted,
        .of_records same ((clearPendingKey_names there taken).replaced there)⟩⟩

/-- The loop: every row is tried, and those that are not stuck leave the window. -/
theorem cleanupCompletedStagingRows_run {failing : StorageKey → Bool} (fails : faults.FailsOn failing)
    (now : Int) (limit : Nat) (rows : List Row) (total : Nat) (solo : Solo)
    (distinct : (rows.map Row.id).Nodup) (selected : ∀ row ∈ rows, row ∈ solo.world.table ∧
      (Query.completedStaging now limit).chosen deployment.keyText row = true) :
    ∃ total' steps world', runAlone deployment worker faults (cleanupCompletedStagingRows rows total) solo =
        (.ok total', ⟨world', steps ++ solo.log⟩) ∧
      steps.filterMap foundBy = [] ∧
      steps.reverse.filterMap deletedObject = rows.filterMap Row.pendingKey ∧
      world'.clock = solo.world.clock ∧
      world'.table.rows.filter ((Query.completedStaging now limit).chosen deployment.keyText) =
        (solo.world.table.rows.filter ((Query.completedStaging now limit).chosen
          deployment.keyText)).filter fun other =>
            decide (other.id ∉ (rows.filter fun row => !row.stuck failing).map Row.id) := by
  induction rows generalizing total solo with
  | nil => exact ⟨total, [], solo.world, rfl, rfl, rfl, rfl, by simp⟩
  | cons row rest ih =>
      obtain ⟨outside, distinct⟩ := List.nodup_cons.mp distinct
      obtain ⟨member, taken⟩ := selected row List.mem_cons_self
      obtain ⟨key, marked⟩ : ∃ key, row.pendingKey = some key := by
        simp only [Query.chosen, Bool.and_eq_true] at taken
        exact Option.isSome_iff_exists.mp taken.1.1.1.2
      obtain ⟨count, steps, between, ran, quiet, asked, outcome⟩ :=
        @staging_row deployment worker faults failing fails now limit row key solo member taken
      have stays : ∀ other ∈ solo.world.table, other.id ≠ row.id → other ∈ between.table := by
        intro other there different
        rcases outcome with ⟨-, same⟩ | ⟨-, replaced⟩
        · rw [same.table]
          exact there
        · exact replaced.other there different
      obtain ⟨total', steps', world', ran', quiet', asked', clock', left'⟩ :=
        ih (total + count) ⟨between, steps ++ solo.log⟩ distinct fun other inside => by
          obtain ⟨there, taken'⟩ := selected other (.tail _ inside)
          exact ⟨stays other there fun same => outside (same ▸ List.mem_map_of_mem inside), taken'⟩
      refine ⟨total', steps' ++ steps, world', ?_, ?_, ?_, ?_, ?_⟩
      · rw [cleanupCompletedStagingRows, marked]
        simp only []
        rw [runAlone_bind, ran, andThen_ok, ran', List.append_assoc]
      · rw [List.filterMap_append, quiet, quiet', List.append_nil]
      · rw [List.reverse_append, List.filterMap_append, asked, asked', List.filterMap_cons_some marked]
        rfl
      · rw [clock']
        rcases outcome with ⟨-, same⟩ | ⟨-, replaced⟩
        · exact same.clock
        · exact replaced.clock
      · rw [left']
        rcases outcome with ⟨stuck, same⟩ | ⟨free, replaced⟩
        · have held : (!row.stuck failing) = false := by simp [Row.stuck, marked, stuck]
          simp only [same.table, List.filter_cons, held, Bool.false_eq_true, if_false]
        · have left : (!row.stuck failing) = true := by simp [Row.stuck, marked, free]
          have gone : (Query.completedStaging now limit).chosen deployment.keyText
              { row with pendingKey := none } = false := by simp [Query.chosen]
          rw [replaced.filter gone, List.filter_filter]
          simp only [List.filter_cons, left, if_true]
          refine List.filter_congr fun other _ => ?_
          rw [Bool.eq_iff_iff, Bool.and_eq_true_iff, decide_eq_true_iff, decide_eq_true_iff,
            decide_eq_true_iff, List.map_cons, List.mem_cons, not_or, and_comm]

end

section Order

variable (column : Row → Option Int)

instance : Std.Total fun first second : Row => Query.ordered column first second = true where
  total first second := by
    unfold Query.ordered
    cases column first <;> cases column second <;> simp
    exact Int.le_total _ _

instance : IsTrans Row fun first second : Row => Query.ordered column first second = true where
  trans first second third := by
    unfold Query.ordered
    cases column first <;> cases column second <;> cases column third <;> simp
    exact Int.le_trans

end Order

/-- The completed uploads whose staging is due, in the order of the sweep. -/
def stagingQueue (keyText : StorageKey → String) (now : Int) (world : World) : List Row :=
  (world.table.rows.filter ((Query.completedStaging now 0).chosen keyText)).insertionSort
    fun first second => Query.ordered Row.uploadExpiredAt first second = true

section

variable {deployment : Deployment} {worker : Worker} {faults : Faults} {world : World}
  {keyText : StorageKey → String} {now : Int}

theorem stagingQueue_distinct : ((stagingQueue keyText now world).map Row.id).Nodup := by
  refine ((List.perm_insertionSort _ _).map Row.id).nodup_iff.mpr ?_
  exact world.table.distinct.sublist (List.filter_sublist.map Row.id)

/-- Dropping the rows of a batch that are not stuck. -/
theorem filter_workOff {queue : List Row} (distinct : (queue.map Row.id).Nodup) (limit : Nat)
    (stuck : Row → Bool) :
    (queue.filter fun other => decide
      (other.id ∉ ((queue.take limit).filter fun row => !stuck row).map Row.id)) =
      workOff limit stuck queue := by
  have split : (queue.take limit ++ queue.drop limit).map Row.id = queue.map Row.id := by
    rw [List.take_append_drop]
  rw [← split, List.map_append] at distinct
  obtain ⟨first, -, apart⟩ := List.nodup_append.mp distinct
  have halves : ∀ kept : Row → Bool, queue.filter kept =
      (queue.take limit).filter kept ++ (queue.drop limit).filter kept := by
    intro kept
    rw [← List.filter_append, List.take_append_drop]
  rw [halves, workOff]
  refine congr (congrArg _ (List.filter_congr fun row inside => ?_)) (List.filter_eq_self.mpr ?_)
  · rw [Bool.eq_iff_iff, decide_eq_true_iff]
    constructor
    · intro outside
      by_contra free
      refine outside (List.mem_map_of_mem (List.mem_filter.mpr ⟨inside, ?_⟩))
      simpa using free
    · intro held listed
      obtain ⟨other, kept, same⟩ := List.mem_map.mp listed
      obtain ⟨there, free⟩ := List.mem_filter.mp kept
      rw [List.inj_on_of_nodup_map first there inside same, held] at free
      cases free
  · intro row inside
    rw [decide_eq_true_iff]
    intro listed
    obtain ⟨other, kept, same⟩ := List.mem_map.mp listed
    exact apart _ (List.mem_map_of_mem (List.mem_filter.mp kept).1) _ (List.mem_map_of_mem inside) same

/-- One sweep tries the front of the queue and works it off. -/
theorem completedStaging_sweeps {failing : StorageKey → Bool} (fails : faults.FailsOn failing)
    (limit : Option Int) (clock : world.clock (.process worker.process) = now) :
    ∃ total solo', runAlone deployment worker faults (unsafeSystemCleanupCompletedStaging limit)
        ⟨world, []⟩ = (.ok total, solo') ∧
      StagingAttempts solo'.log
        ((stagingQueue deployment.keyText now world).take (systemDeletionLimit limit)) ∧
      solo'.world.clock = world.clock ∧
      stagingQueue deployment.keyText now solo'.world =
        workOff (systemDeletionLimit limit) (Row.stuck failing)
          (stagingQueue deployment.keyText now world) := by
  have batch : (Query.completedStaging now (systemDeletionLimit limit)).select deployment.keyText
      world.table.rows = (stagingQueue deployment.keyText now world).take (systemDeletionLimit limit) := rfl
  obtain ⟨total, steps, world', ran, quiet, asked, same, left⟩ :=
    @cleanupCompletedStagingRows_run deployment worker faults failing fails now (systemDeletionLimit limit)
      ((stagingQueue deployment.keyText now world).take (systemDeletionLimit limit)) 0
      ⟨world, [⟨.find (.completedStaging now (systemDeletionLimit limit)), some
        ((stagingQueue deployment.keyText now world).take (systemDeletionLimit limit))⟩, ⟨.now, some now⟩]⟩
      (stagingQueue_distinct.sublist ((List.take_sublist _ _).map Row.id))
      fun row inside => Query.mem_of_mem_select (batch ▸ inside)
  unfold unsafeSystemCleanupCompletedStaging
  rw [runAlone_now fails.ofStorage, clock, runAlone_select fails.ofStorage, batch]
  refine ⟨total, _, ran, ⟨?_, ?_⟩, same, ?_⟩
  · rw [List.filterMap_append, quiet]
    rfl
  · rw [List.reverse_append, List.filterMap_append, asked]
    rfl
  · rw [← filter_workOff stagingQueue_distinct, stagingQueue, stagingQueue, filter_insertionSort]
    exact congrArg _ left

end

/-! ## Consecutive sweeps -/

inductive BoundedSweep where
  | completedStaging
  | expiredDirectUploads
  /-- The time is a parameter of the method; without one the clock is read. -/
  | expiredTemporaryFiles (now? : Option Int)

namespace BoundedSweep

def body (limit : Option Int) : BoundedSweep → Service Nat
  | .completedStaging => unsafeSystemCleanupCompletedStaging limit
  | .expiredDirectUploads => unsafeSystemCleanupExpiredDirectUploads limit
  | .expiredTemporaryFiles now? => cleanupExpiredTemporaryFiles now? limit

/-- What the sweep selects when the clock shows `now`; how many of them is left open. -/
def query (now : Int) : BoundedSweep → Query
  | .completedStaging => .completedStaging now 0
  | .expiredDirectUploads => .expiredDirectUploads now 0
  | .expiredTemporaryFiles now? => .expiredTemporaryFiles (now?.getD now) 0

/-- The sweep tried to clean the row up. -/
def Attempted (log : List (Step sig)) (row : Row) : BoundedSweep → Prop
  | .completedStaging => ∃ rows, StagingAttempts log rows ∧ row ∈ rows
  | _ => ∃ rows, Attempts log rows ∧ row ∈ rows

end BoundedSweep

section

variable (deployment : Deployment) (worker : Worker) (faults : Nat → Faults) (limit : Option Int)
  (world : World)

def eligibleRows (sweep : BoundedSweep) : List Row :=
  world.table.rows.filter
    ((sweep.query (world.clock (.process worker.process))).chosen deployment.keyText)

/-- Sweeps at one instant, as many as there are full batches of eligible rows, rounded up, try
every row that was eligible at first. -/
def ReachesEveryRow (sweep : BoundedSweep) : Prop :=
  ∀ row ∈ eligibleRows deployment worker world sweep,
    ∃ i < ((eligibleRows deployment worker world sweep).length + systemDeletionLimit limit - 1) /
        systemDeletionLimit limit,
      sweep.Attempted (sweepRuns deployment worker faults (sweep.body limit) world (i + 1)).log row

/-- The staging sweeps, each with the room that the stuck rows reached before leave it, come to the
end of the queue. -/
def LeavesRoom (failing : StorageKey → Bool) : Prop :=
  (stagingQueue deployment.keyText (world.clock (.process worker.process)) world).length ≤
    reached (systemDeletionLimit limit) (Row.stuck failing)
      (stagingQueue deployment.keyText (world.clock (.process worker.process)) world)
      (((stagingQueue deployment.keyText (world.clock (.process worker.process)) world).length +
        systemDeletionLimit limit - 1) / systemDeletionLimit limit)

end

section

variable {deployment : Deployment} {worker : Worker} {faults : Nat → Faults} {limit : Option Int}
  {world : World} {failing : StorageKey → Bool}

/-- Sweeps that attempt a full batch of the rows they choose, where all of these are as they should
be, reach all of them. -/
theorem reaches_of_batches {body : Service Nat} {chosen : (Host → Int) → Row → Bool}
    {proper : Row → Prop}
    (sweep : ∀ i world, (∀ row ∈ world.table.rows.filter (chosen world.clock), proper row) →
      ∃ total solo', runAlone deployment worker (faults i) body ⟨world, []⟩ = (.ok total, solo') ∧
        ∃ rows, SweepsBatch (systemDeletionLimit limit) (chosen world.clock) world solo' rows)
    (all : ∀ row ∈ world.table.rows.filter (chosen world.clock), proper row)
    {row : Row} (eligible : row ∈ world.table.rows.filter (chosen world.clock)) :
    ∃ i < ((world.table.rows.filter (chosen world.clock)).length + systemDeletionLimit limit - 1) /
        systemDeletionLimit limit,
      ∃ rows, Attempts (sweepRuns deployment worker faults body world (i + 1)).log rows ∧ row ∈ rows := by
  have step : ∀ i, (sweepRuns deployment worker faults body world i).world.clock = world.clock →
      (∀ row ∈ (sweepRuns deployment worker faults body world i).world.table.rows.filter
        (chosen world.clock), proper row) →
      ∃ rows, SweepsBatch (systemDeletionLimit limit) (chosen world.clock)
        (sweepRuns deployment worker faults body world i).world
        (sweepRuns deployment worker faults body world (i + 1)) rows := by
    intro i clock all
    obtain ⟨_, solo', ran, rows, batch⟩ :=
      sweep i (sweepRuns deployment worker faults body world i).world (clock.symm ▸ all)
    have same : sweepRuns deployment worker faults body world (i + 1) = solo' := congrArg Prod.snd ran
    rw [same, ← clock]
    exact ⟨rows, batch⟩
  have still : ∀ i, (sweepRuns deployment worker faults body world i).world.clock = world.clock ∧
      ∀ row ∈ (sweepRuns deployment worker faults body world i).world.table.rows.filter
        (chosen world.clock), proper row := by
    intro i
    induction i with
    | zero => exact ⟨rfl, all⟩
    | succ i ih =>
        obtain ⟨rows, batch⟩ := step i ih.1 ih.2
        refine ⟨batch.clock.trans ih.1, fun row inside => ih.2 row ?_⟩
        rw [batch.leaves] at inside
        exact (List.mem_filter.mp inside).1
  have each := fun i => step i (still i).1 (still i).2
  choose rows batch using each
  obtain ⟨i, soon, taken⟩ := @rows_reached Row Uuid _ Row.id (systemDeletionLimit limit)
    (fun i => (sweepRuns deployment worker faults body world i).world.table.rows.filter
      (chosen world.clock)) rows (systemDeletionLimit_pos limit)
    (world.table.distinct.sublist (List.filter_sublist.map Row.id))
    (fun i => (batch i).within) (fun i => (batch i).distinct) (fun i => (batch i).length)
    (fun i => (batch i).leaves) row eligible
  exact ⟨i, soon, rows i, (batch i).attempts, taken⟩

/-- The sweep over the expired uploads reaches every row exactly if dates tell their deletions. -/
theorem expiredDirectUploads_reach_iff (storage : ∀ i, (faults i).OfStorage) :
    ReachesEveryRow deployment worker faults limit world .expiredDirectUploads ↔
      ∀ row ∈ eligibleRows deployment worker world .expiredDirectUploads,
        ∀ moment, row.deletedAt = some moment → moment.micros = 0 := by
  simp only [← Row.dated_eq_true]
  constructor
  · intro reaches row eligible
    obtain ⟨i, -, attempted⟩ := reaches row eligible
    by_contra undated
    refine @not_attempted worker Row.abandoned _ (fun i => ?_) row (List.mem_filter.mp eligible).1
      (Bool.eq_false_iff.mpr undated) i attempted
    obtain ⟨_, solo', log, ran, quiet, took⟩ := @expiredDirectUploads_takesAll deployment worker (faults i)
      (sweepRuns deployment worker faults (unsafeSystemCleanupExpiredDirectUploads limit) world i).world
      (storage i) limit
    have same : sweepRuns deployment worker faults (unsafeSystemCleanupExpiredDirectUploads limit) world
        (i + 1) = solo' := congrArg Prod.snd ran
    refine ⟨_, log, fun row inside => ?_, quiet, same ▸ took⟩
    obtain ⟨inside, dated⟩ := List.mem_filter.mp inside
    exact ⟨(Query.mem_of_mem_select inside).1, dated⟩
  · intro dated row eligible
    exact @reaches_of_batches deployment worker faults limit world _ (fun clock =>
      (Query.expiredDirectUploads (clock (.process worker.process)) 0).chosen deployment.keyText)
      (fun row => row.dated = true) (fun i world => expiredDirectUploads_sweeps (storage i) limit) dated row
      eligible

theorem expiredTemporaryFiles_reach (storage : ∀ i, (faults i).OfStorage) (now? : Option Int) :
    ReachesEveryRow deployment worker faults limit world (.expiredTemporaryFiles now?) := by
  intro row eligible
  exact @reaches_of_batches deployment worker faults limit world _ (fun clock =>
    (Query.expiredTemporaryFiles (now?.getD (clock (.process worker.process))) 0).chosen
      deployment.keyText)
    (fun _ => True) (fun i world _ => expiredTemporaryFiles_sweeps (storage i) now? limit)
    (fun _ _ => trivial) row eligible

/-- The queue of the staging sweep, run after run. -/
theorem stagingQueue_runs (fails : ∀ i, (faults i).FailsOn failing) (i : Nat) :
    let sweeps := sweepRuns deployment worker faults (unsafeSystemCleanupCompletedStaging limit) world
    let queue := stagingQueue deployment.keyText (world.clock (.process worker.process)) world
    (sweeps i).world.clock = world.clock ∧
      stagingQueue deployment.keyText (world.clock (.process worker.process)) (sweeps i).world =
        (workOff (systemDeletionLimit limit) (Row.stuck failing))^[i] queue ∧
      StagingAttempts (sweeps (i + 1)).log
        (((workOff (systemDeletionLimit limit) (Row.stuck failing))^[i] queue).take
          (systemDeletionLimit limit)) := by
  intro sweeps queue
  have step : ∀ i, (sweeps i).world.clock = world.clock → ∃ solo', sweeps (i + 1) = solo' ∧
      StagingAttempts solo'.log ((stagingQueue deployment.keyText
        (world.clock (.process worker.process)) (sweeps i).world).take (systemDeletionLimit limit)) ∧
      solo'.world.clock = world.clock ∧
      stagingQueue deployment.keyText (world.clock (.process worker.process)) solo'.world =
        workOff (systemDeletionLimit limit) (Row.stuck failing) (stagingQueue deployment.keyText
          (world.clock (.process worker.process)) (sweeps i).world) := by
    intro i clock
    obtain ⟨_, solo', ran, attempts, same, left⟩ := @completedStaging_sweeps deployment worker (faults i)
      (sweeps i).world (world.clock (.process worker.process)) failing (fails i) limit
      (congrFun clock _)
    exact ⟨solo', congrArg Prod.snd ran, attempts, same.trans clock, left⟩
  have states : (sweeps i).world.clock = world.clock ∧
      stagingQueue deployment.keyText (world.clock (.process worker.process)) (sweeps i).world =
        (workOff (systemDeletionLimit limit) (Row.stuck failing))^[i] queue := by
    induction i with
    | zero => exact ⟨rfl, rfl⟩
    | succ i ih =>
        obtain ⟨solo', same, -, clock, left⟩ := step i ih.1
        rw [same, Function.iterate_succ_apply', ← ih.2]
        exact ⟨clock, left⟩
  obtain ⟨solo', same, attempts, -⟩ := step i states.1
  rw [states.2] at attempts
  rw [same]
  exact ⟨states.1, states.2, attempts⟩

/-- The staging sweep reaches every row exactly if the limit leaves room beside the stuck rows. -/
theorem completedStaging_reach_iff (fails : ∀ i, (faults i).FailsOn failing) :
    ReachesEveryRow deployment worker faults limit world .completedStaging ↔
      LeavesRoom deployment worker limit world failing := by
  have members : ∀ row, row ∈ eligibleRows deployment worker world .completedStaging ↔
      row ∈ stagingQueue deployment.keyText (world.clock (.process worker.process)) world :=
    fun row => (List.mem_insertionSort _).symm
  have length : (eligibleRows deployment worker world .completedStaging).length =
      (stagingQueue deployment.keyText (world.clock (.process worker.process)) world).length :=
    (List.length_insertionSort _ _).symm
  unfold LeavesRoom ReachesEveryRow
  rw [length, ← all_taken_iff (systemDeletionLimit limit) (Row.stuck failing) _
    (List.Nodup.of_map Row.id stagingQueue_distinct)]
  constructor
  · intro all row inside
    obtain ⟨i, soon, rows, attempts, taken⟩ := all row ((members row).mpr inside)
    refine ⟨i, soon, ?_⟩
    rw [← attempts.unique (stagingQueue_runs fails i).2.2]
    exact taken
  · intro all row inside
    obtain ⟨i, soon, taken⟩ := all row ((members row).mp inside)
    exact ⟨i, soon, _, (stagingQueue_runs fails i).2.2, taken⟩

/-- **All three sweeps reach every eligible row** exactly if the staging sweep has room for all, and
no expired upload was marked deleted between two milliseconds. -/
theorem bounded_sweeps_reach_iff (fails : ∀ i, (faults i).FailsOn failing) :
    (∀ sweep, ReachesEveryRow deployment worker faults limit world sweep) ↔
      LeavesRoom deployment worker limit world failing ∧
        ∀ row ∈ eligibleRows deployment worker world .expiredDirectUploads,
          ∀ moment, row.deletedAt = some moment → moment.micros = 0 := by
  rw [← completedStaging_reach_iff fails, ← expiredDirectUploads_reach_iff fun i => (fails i).ofStorage]
  constructor
  · exact fun all => ⟨all .completedStaging, all .expiredDirectUploads⟩
  · rintro ⟨staging, uploads⟩ sweep
    cases sweep with
    | completedStaging => exact staging
    | expiredDirectUploads => exact uploads
    | expiredTemporaryFiles now? => exact expiredTemporaryFiles_reach (fun i => (fails i).ofStorage) now?

end

/-! Two completed uploads keep their staging objects; the older object cannot be deleted. -/

def stagedRow (id : Uuid) (expired : Int) : Row :=
  { readyRow with
    id := id
    pendingKey := some ⟨.pending, "t", id, "a.txt"⟩
    uploadExpiredAt := some expired }

def twoStaged : World :=
  { World.initial 1000 with table := ⟨[stagedRow 0 1, stagedRow 1 2], by decide⟩ }

theorem refusing_failsOn (failing : StorageKey → Bool) : (Faults.refusing failing).FailsOn failing := by
  refine ⟨refusing_ofStorage failing, ?_, ?_⟩
  · intro log keys
    cases held : keys.any failing <;> simp [Faults.refusing, held]
  · intro log key
    cases held : failing key <;> simp [Faults.refusing, held]

/-- With a storage that works every row is reached. -/
theorem bounded_sweeps_reach_twoStaged :
    ReachesEveryRow (smallConfig .s3).toDeployment ⟨0, 0⟩ (fun _ => .refusing fun _ => false)
      (some 1) twoStaged .completedStaging := by
  have room : LeavesRoom (smallConfig .s3).toDeployment ⟨0, 0⟩ (some 1) twoStaged fun _ => false := by
    unfold LeavesRoom
    decide +kernel
  refine (bounded_sweeps_reach_iff fun _ => refusing_failsOn fun _ => false).mpr ⟨room, fun row due => ?_⟩
    .completedStaging
  have none : eligibleRows (smallConfig .s3).toDeployment ⟨0, 0⟩ twoStaged .expiredDirectUploads = [] := by
    decide +kernel
  rw [none] at due
  cases due

/-- The older row is tried twice and the younger one never. -/
theorem stuck_row_starves :
    ¬ ReachesEveryRow (smallConfig .s3).toDeployment ⟨0, 0⟩ (fun _ => .refusing fun key => key.id = 0)
      (some 1) twoStaged .completedStaging := by
  rw [completedStaging_reach_iff fun _ => refusing_failsOn fun key => key.id = 0]
  unfold LeavesRoom
  decide +kernel

end SdcoreNest.UploadedFile
