/-
# UploadedFile.ChangeFiles -- what `changeFiles` keeps and what it deletes

`changeFiles` marks the new references used and then deletes the old references that are not
among the new ones.  The difference is taken of texts while deletion acts on rows, and a row
has two names, its key and its cdn: a file that an old reference and a new one name in the two
ways is marked used and deleted.

The run may meet any faults; the results are about the runs that succeed.
-/
import SdcoreNest.UploadedFile.Batches

namespace SdcoreNest.UploadedFile

open SdcoreNest.Theory
open SdcoreNest.Theory.Program

set_option autoImplicit false

section

variable (config : Config) (caller : Caller) (world : World) (olds news : List String)

/-- The old references that are not among the new ones. -/
def removedReferences : List String := olds.eraseDups.filter (· ∉ news.eraseDups)

/-- Every file that a new reference names is used and stays, and the files deleted are those that
old references name and no new one does. -/
structure KeepsNews (world' : World) : Prop where
  kept : ∀ row ∈ world.table, row.named config news = true →
    ∃ row' ∈ world'.table, row'.id = row.id ∧ row'.isUsed = true ∧
      row'.deletionPendingAt = none ∧ row'.deletedAt = none ∧
      ∀ key ∈ row.keys, world'.objects key = world.objects key
  deleted : ∀ row ∈ world.table,
    (row.deletedAt = none ∧ ∃ row' ∈ world'.table, row'.id = row.id ∧ row'.deletedAt ≠ none) ↔
      row.named config olds = true ∧ row.named config news = false

/-- A removed reference names this row, within the caller's reach. -/
def Doomed (row : Row) : Prop :=
  row.named config (removedReferences olds news) = true ∧
    caller.reaches .delete [] (removedReferences olds news) row = true

/-- No row has a new reference for one of its names and a removed one for the other, and rows out
of the caller's reach share no name with the rest. -/
structure NamedApart : Prop where
  apart : ∀ row ∈ world.table, row.named config news = true →
    ¬ Doomed config caller olds news row
  newInReach : ∀ row ∈ world.table, row.named config news = true →
    caller.reaches .markUsed [] news.eraseDups row = true ∨
      (row.isUsed = true ∧ row.deletionPendingAt = none ∧ row.deletedAt = none)
  removedInReach : ∀ row ∈ world.table,
    row.named config (removedReferences olds news) = true → row.named config news = false →
      Doomed config caller olds news row

/-- No object belongs to two rows. -/
def UniqueKeys : Prop :=
  ∀ row ∈ world.table, ∀ other ∈ world.table, ∀ key, key ∈ row.keys → key ∈ other.keys →
    row = other

end

variable {config : Config} {caller : Caller} {worker : Worker} {faults : Faults}
  {solo solo' : Solo}

/-! ## Using files, if it succeeds -/

theorem of_runAlone_rowsForReferences {access : Access} {references : List String}
    {rows : List Row}
    (ran : runAlone config.toDeployment worker faults (rowsForReferences config access references)
      solo = (.ok rows, solo')) :
    rows = foundRows config solo.world access references ∧ solo'.world = solo.world := by
  unfold rowsForReferences at ran
  obtain ⟨between, same, rest⟩ := of_runAlone_ask ran
  split at rest
  · cases rest
    exact ⟨rfl, same⟩
  · cases rest

/-- A committed transaction over rows that were just found. -/
theorem of_runAlone_commit {α : Type} {access : Access} {references : List String}
    (statement : List Row → Statement) (value : List Row → α) {result : α}
    (byIds : ∀ rows, (statement rows).ByIds access (rows.map Row.id))
    (ran : runAlone config.toDeployment worker faults
      (do
        let rows ← rowsForReferences config access references
        let committed ← ask (.transact (statement rows) rows.length)
        if committed then pure (value rows) else throw .notFound) solo = (.ok result, solo')) :
    result = value (foundRows config solo.world access references) ∧
      solo'.world = solo.world.apply (statement (foundRows config solo.world access references)) := by
  obtain ⟨rows, between, read, rest⟩ := of_runAlone_bind ran
  obtain ⟨rfl, same⟩ := of_runAlone_rowsForReferences read
  obtain ⟨between', committed, last⟩ := of_runAlone_ask rest
  have counted : between.world.affected (statement (foundRows config solo.world access references)) =
      (foundRows config solo.world access references).length := by
    rw [same]
    exact World.affected_found (byIds _)
  have whole : exec config.toDeployment between.world worker
      (.transact (statement (foundRows config solo.world access references))
        (foundRows config solo.world access references).length) =
      (true, between.world.apply (statement (foundRows config solo.world access references))) :=
    if_pos counted
  rw [whole] at committed last
  cases last
  rw [committed, same]
  exact ⟨rfl, rfl⟩

/-- The checks in front of a batch passed: nothing was named, or the body ran. -/
theorem of_runAlone_batch {α : Type} {operation : Operation} {references : List String}
    {idle result : α} {body : List String → Access → Service α}
    (ran : runAlone config.toDeployment worker faults
      (do
        let unique ← check (batchReferences config references)
        if unique.isEmpty then pure idle
        else do
          let access ← check (authorize caller operation [] unique)
          body unique access) solo = (.ok result, solo')) :
    (references = [] ∧ result = idle ∧ solo' = solo) ∨
      ∃ access, authorize caller operation [] references.eraseDups = .ok access ∧
        runAlone config.toDeployment worker faults (body references.eraseDups access) solo =
          (.ok result, solo') := by
  obtain ⟨unique, passed, rest⟩ := of_runAlone_check ran
  have same : unique = references.eraseDups := by
    unfold batchReferences at passed
    split at passed
    · cases passed
    · exact (Except.ok.inj passed).symm
  subst same
  split at rest
  next empty =>
    cases rest
    refine .inl ⟨?_, rfl, rfl⟩
    cases references with
    | nil => rfl
    | cons first rest =>
        rw [List.eraseDups_cons] at empty
        cases empty
  next =>
    obtain ⟨access, granted, rest⟩ := of_runAlone_check rest
    exact .inr ⟨access, granted, rest⟩

theorem changing_pos {chosen : Row → Bool} {row : Row} (patch : Row → Row)
    (taken : chosen row = true) : changing chosen patch row = patch row := if_pos taken

theorem changing_neg {chosen : Row → Bool} {row : Row} (patch : Row → Row)
    (passed : chosen row = false) : changing chosen patch row = row :=
  if_neg (by rw [passed]; exact Bool.false_ne_true)

/-- What a statement makes of a row. -/
def Statement.touch (clock : Moment) (statement : Statement) : Row → Row :=
  changing statement.chosen (statement.patch clock)

theorem World.apply_rows (world : World) (statement : Statement) :
    (world.apply statement).table.rows =
      world.table.rows.map (statement.touch world.timestamp) := rfl

theorem Statement.touch_id (clock : Moment) (statement : Statement) (row : Row) :
    (statement.touch clock row).id = row.id := by
  unfold touch changing
  split
  · exact statement.patch_id clock row
  · rfl

theorem changing_never (patch : Row → Row) : changing (fun _ => false) patch = id := rfl

theorem of_runAlone_useFiles {references : List String} {entity entityId : Option String}
    {result : Unit}
    (ran : runAlone config.toDeployment worker faults
      (useFiles config caller references entity entityId) solo = (.ok result, solo')) :
    solo'.world.objects = solo.world.objects ∧
      ∃ metadata, solo'.world.table.rows = solo.world.table.rows.map
        (changing (fun row => caller.reaches .markUsed [] references.eraseDups row &&
          row.named config references) (Row.used metadata)) := by
  rcases of_runAlone_batch ran with ⟨rfl, -, rfl⟩ | ⟨access, granted, rest⟩
  · refine ⟨rfl, {}, ?_⟩
    simp [changing_never, Row.named]
  · obtain ⟨metadata, -, rest⟩ := of_runAlone_check rest
    obtain ⟨-, same⟩ := of_runAlone_commit
      (fun rows => .markUsed (rows.map Row.id) access metadata) (fun _ => ()) (fun _ => rfl) rest
    rw [same]
    refine ⟨rfl, metadata, ?_⟩
    have reaches : ∀ row, caller.reaches .markUsed [] references.eraseDups row =
        access.active row := fun row => by simp [Caller.reaches, granted]
    simp only [reaches]
    have applied : (solo.world.apply (.markUsed ((foundRows config solo.world access
        references.eraseDups).map Row.id) access metadata)).table.rows =
      solo.world.table.rows.map (changing (fun row => access.active row &&
        row.named config references.eraseDups) (Row.used metadata)) := World.apply_found rfl
    simp only [named_eraseDups] at applied
    exact applied

/-! ## Deleting the claimed rows, if it succeeds -/

/-- The last statement of a deletion took effect or did not. -/
theorem runAlone_clearFinalizedDeletionClaim (possible : faults.Possible) (rows : List Row)
    (claim : Int) (access : Option Access) :
    let world := (runAlone config.toDeployment worker faults
      (clearFinalizedDeletionClaim rows claim access) solo).2.world
    world = solo.world ∨ world = solo.world.apply (.clearFinalizedDeletionClaim rows claim access) := by
  unfold clearFinalizedDeletionClaim
  split
  · exact .inl rfl
  · rw [runAlone_ask_bind]
    cases fault : faults solo.log (.update (.clearFinalizedDeletionClaim rows claim access)) with
    | none =>
        simp only [serve, fault, answered, andThen_ok]
        split <;> exact .inr rfl
    | some landed =>
        have part := (possible _ _ _ fault).2
        simp only [serve, fault, answered, andThen_error]
        rcases List.sublist_singleton.mp part with rfl | rfl
        · exact .inl rfl
        · exact .inr rfl

theorem of_runAlone_deleteAndFinalize (possible : faults.Possible) {rows : List Row} {claim : Int}
    {access : Option Access} {finalized : Nat} (nonempty : rows ≠ [])
    (ran : runAlone config.toDeployment worker faults
      (deleteAndFinalizePendingRows rows claim access) solo = (.ok finalized, solo')) :
    ∃ final : World, final = (solo.world.setObjects
        (solo.world.objects.removeAll (objectKeys rows))).apply
          (.finalizePendingRows rows claim access) ∧
      (solo'.world = final ∨
        solo'.world = final.apply (.clearFinalizedDeletionClaim rows claim access)) := by
  unfold deleteAndFinalizePendingRows at ran
  rw [if_neg (by simpa using nonempty), runAlone_tryCatch] at ran
  rcases body : runAlone config.toDeployment worker faults _ solo with ⟨error | finalized', between⟩
  · rw [body, orHandle_error, runAlone_bind, runAlone_swallow, andThen_ok, runAlone_throw] at ran
    cases ran
  · rw [body, orHandle_ok] at ran
    cases ran
    obtain ⟨deleted, removed, rest⟩ := of_runAlone_ask body
    obtain ⟨count, finalizing, finish, rest⟩ := of_runAlone_bind rest
    unfold finalizePendingRows at finish
    rw [if_neg (by simpa using nonempty)] at finish
    obtain ⟨-, applied⟩ := of_runAlone_answer finish
    refine ⟨finalizing.world, ?_, ?_⟩
    · rw [applied, removed]
      rfl
    · split at rest
      · rw [runAlone_bind, runAlone_swallow, andThen_ok] at rest
        cases rest
        exact runAlone_clearFinalizedDeletionClaim possible rows claim access
      · cases rest

/-- The rows of a batch as `delete` holds them after its first phase. -/
def claimedRows (config : Config) (world : World) (access : Access) (references : List String)
    (claim : Int) : List Row :=
  (foundRows config world access references).map (Row.claimed claim)

theorem claimed_ids (claim : Int) (rows : List Row) :
    (rows.map (Row.claimed claim)).map Row.id = rows.map Row.id := by
  rw [List.map_map]
  rfl

theorem clear_of_active {access : Access} {row : Row} (active : access.active row = true) :
    row.deletedAt = none ∧ row.uploadPendingAt = none :=
  have visible := Row.visible_eq_true.mp (Access.active_eq_true.mp active).2
  ⟨visible.1, visible.2.1⟩

/-- The expected markers of claimed rows are those of any of them. -/
theorem claimedRows_head {world : World} {access : Access} {references : List String} {claim : Int}
    {β : Type} {column : Row → Option β} (clear : ∀ row, access.active row = true →
      column (row.claimed claim) = none) :
    (claimedRows config world access references claim).head?.bind column = none := by
  cases first : (claimedRows config world access references claim).head? with
  | none => rfl
  | some row =>
      obtain ⟨other, found, rfl⟩ := List.mem_map.mp (List.mem_of_mem_head? first)
      exact clear other (Bool.and_eq_true_iff.mp (List.mem_filter.mp found).2).1

/-- Finalising deletes each of the rows that were found and claimed, and no other. -/
theorem finalize_chosen {world : World} {access : Access} {references : List String} {claim : Int}
    {row : Row} (member : row ∈ world.table) :
    (Statement.finalizePendingRows (claimedRows config world access references claim) claim
        (some access)).chosen
      (changing (fun row => access.active row && row.named config references)
        (Row.claimed claim) row) = (access.active row && row.named config references) := by
  have ids : (claimedRows config world access references claim).map Row.id =
      (foundRows config world access references).map Row.id := claimed_ids claim _
  have tells : row.id ∈ (foundRows config world access references).map Row.id ↔
      (access.active row && row.named config references) = true := Keyed.key_mem_select member
  cases chosen : access.active row && row.named config references with
  | false =>
      rw [changing_neg _ chosen, Bool.eq_false_iff]
      intro finalized
      have inside := (pendingDeletionWhere_eq_true.mp finalized).1
      rw [ids, tells, chosen] at inside
      cases inside
  | true =>
      have active : access.active row = true := (Bool.and_eq_true_iff.mp chosen).1
      rw [changing_pos _ chosen]
      refine pendingDeletionWhere_eq_true.mpr ⟨?_, (Access.active_eq_true.mp active).1, ?_, ?_, rfl⟩
      · rw [ids]
        exact tells.mpr chosen
      · rw [claimedRows_head fun row active => (clear_of_active active).1]
        exact (clear_of_active active).1
      · rw [claimedRows_head fun row active => (clear_of_active active).2]
        exact (clear_of_active active).2

section

variable (config) (world : World) (access : Access) (references : List String) (claim : Int) (clock : Moment)

/-- A row after the claim and the finalisation. -/
def finalizedRow (row : Row) : Row :=
  (Statement.finalizePendingRows (claimedRows config world access references claim) claim
    (some access)).touch clock
    (changing (fun row => access.active row && row.named config references) (Row.claimed claim) row)

/-- And after the claim was cleared. -/
def clearedRow (row : Row) : Row :=
  (Statement.clearFinalizedDeletionClaim (claimedRows config world access references claim) claim
    (some access)).touch clock (finalizedRow config world access references claim clock row)

end

section

variable {world : World} {access : Access} {references : List String} {claim : Int} {clock : Moment}
  {row : Row}

theorem finalizedRow_id :
    (finalizedRow config world access references claim clock row).id = row.id := by
  unfold finalizedRow
  rw [Statement.touch_id]
  unfold changing
  split <;> rfl

theorem clearedRow_id :
    (clearedRow config world access references claim clock row).id = row.id := by
  unfold clearedRow
  rw [Statement.touch_id, finalizedRow_id]

theorem finalizedRow_deleted (member : row ∈ world.table)
    (doomed : (access.active row && row.named config references) = true) :
    (finalizedRow config world access references claim clock row).deletedAt = some clock := by
  unfold finalizedRow Statement.touch
  rw [changing_pos _ ((finalize_chosen member).trans doomed)]
  rfl

theorem finalizedRow_spared (member : row ∈ world.table)
    (spared : (access.active row && row.named config references) = false) :
    finalizedRow config world access references claim clock row = row := by
  unfold finalizedRow Statement.touch
  rw [changing_neg _ ((finalize_chosen member).trans spared), changing_neg _ spared]

theorem clearedRow_deletedAt :
    (clearedRow config world access references claim clock row).deletedAt =
      (finalizedRow config world access references claim clock row).deletedAt := by
  unfold clearedRow Statement.touch changing
  split <;> rfl

theorem clearedRow_spared (member : row ∈ world.table)
    (spared : (access.active row && row.named config references) = false) :
    clearedRow config world access references claim clock row = row := by
  unfold clearedRow
  rw [finalizedRow_spared member spared]
  refine changing_neg _ ?_
  rw [Bool.eq_false_iff]
  intro chosen
  simp only [Statement.chosen, Bool.and_eq_true, decide_eq_true_eq, claimedRows, claimed_ids]
    at chosen
  have found : (access.active row && row.named config references) = true :=
    (Keyed.key_mem_select member).mp chosen.1.1.1.1
  rw [spared] at found
  cases found

end

/-- What became of the rows and objects when rows were deleted. -/
structure Deletes (doomed : Row → Bool) (world world' : World) : Prop where
  objects : ∀ key, (∀ row ∈ world.table, doomed row = true → key ∉ row.keys) →
    world'.objects key = world.objects key
  rows : ∃ fate : Row → Row, world'.table.rows = world.table.rows.map fate ∧
    ∀ row ∈ world.table, (fate row).id = row.id ∧
      (doomed row = true → (fate row).deletedAt ≠ none) ∧ (doomed row = false → fate row = row)

/-- No rows are found, so none is deleted. -/
theorem Deletes.nobody {doomed : Row → Bool} {world world' : World}
    (nobody : ∀ row ∈ world.table, doomed row = false) (objects : world'.objects = world.objects)
    (rows : world'.table.rows = world.table.rows) : Deletes doomed world world' where
  objects := fun key _ => congrFun objects key
  rows := by
    refine ⟨id, by simpa using rows, fun row member => ⟨rfl, fun wrong => ?_, fun _ => rfl⟩⟩
    rw [nobody row member] at wrong
    cases wrong

theorem deletes_found (possible : faults.Possible) {access : Access} {references : List String}
    {claim : Int} {finalized : Nat} {world : World}
    (claimed : solo.world.table.rows = world.table.rows.map
      (changing (fun row => access.active row && row.named config references) (Row.claimed claim)))
    (same : solo.world.objects = world.objects)
    (ran : runAlone config.toDeployment worker faults
      (deleteAndFinalizePendingRows (claimedRows config world access references claim) claim
        (some access)) solo = (.ok finalized, solo')) :
    Deletes (fun row => access.active row && row.named config references) world solo'.world := by
  by_cases empty : claimedRows config world access references claim = []
  · rw [empty] at ran
    cases ran
    have nobody : ∀ row ∈ world.table, (access.active row && row.named config references) = false := by
      intro row member
      have outside := List.filter_eq_nil_iff.mp (List.map_eq_nil_iff.mp empty) row member
      simpa using outside
    refine Deletes.nobody nobody same (claimed.trans ?_)
    conv_rhs => rw [← List.map_id world.table.rows]
    exact List.map_congr_left fun row member => changing_neg _ (nobody row member)
  · obtain ⟨final, rfl, ended⟩ := of_runAlone_deleteAndFinalize possible empty ran
    let clock := solo.world.timestamp
    constructor
    · intro key outside
      have removed : solo'.world.objects = solo.world.objects.removeAll
          (objectKeys (claimedRows config world access references claim)) := by
        rcases ended with ended | ended <;> (rw [ended]; rfl)
      rw [removed, Objects.removeAll_of_not_mem _ (fun inside => ?_), same]
      simp only [objectKeys, List.mem_eraseDups, List.mem_flatMap, claimedRows, List.mem_map]
        at inside
      obtain ⟨-, ⟨row, found, rfl⟩, held⟩ := inside
      obtain ⟨member, doomed⟩ := List.mem_filter.mp found
      exact outside row member doomed held
    · rcases ended with ended | ended
      · refine ⟨finalizedRow config world access references claim clock, ?_, ?_⟩
        · rw [ended, World.apply_rows]
          show solo.world.table.rows.map _ = _
          rw [claimed, List.map_map]
          rfl
        · exact fun row member => ⟨finalizedRow_id, fun doomed => by
            rw [finalizedRow_deleted member doomed]
            exact Option.some_ne_none _, finalizedRow_spared member⟩
      · refine ⟨clearedRow config world access references claim clock, ?_, ?_⟩
        · rw [ended, World.apply_rows, World.apply_rows]
          show (solo.world.table.rows.map _).map _ = _
          rw [claimed, List.map_map, List.map_map]
          rfl
        · exact fun row member => ⟨clearedRow_id, fun doomed => by
            rw [clearedRow_deletedAt, finalizedRow_deleted member doomed]
            exact Option.some_ne_none _, clearedRow_spared member⟩

theorem of_runAlone_delete (possible : faults.Possible) {references : List String} {result : Unit}
    (ran : runAlone config.toDeployment worker faults (delete config caller references) solo =
      (.ok result, solo')) :
    Deletes (fun row => caller.reaches .delete [] references.eraseDups row &&
      row.named config references) solo.world solo'.world := by
  rw [runAlone_delete] at ran
  obtain ⟨claimed, between, first, rest⟩ := of_andThen ran
  rcases of_runAlone_batch first with ⟨rfl, rfl, rfl⟩ | ⟨access, granted, first⟩
  · cases rest
    exact Deletes.nobody (fun row _ => by simp [Row.named]) rfl rfl
  · obtain ⟨drawn, drew, first⟩ := of_runAlone_ask first
    let claim := solo.world.claimAt worker.process none
    obtain ⟨rfl, marked⟩ := of_runAlone_commit (fun rows => .claimReferences rows access claim)
      (fun rows => some (rows, claim, access)) (fun _ => rfl) first
    have table : drawn.world.table = solo.world.table := by
      rw [drew]
      rfl
    have objects : drawn.world.objects = solo.world.objects := by
      rw [drew]
      rfl
    have found : foundRows config drawn.world access references.eraseDups =
        foundRows config solo.world access references.eraseDups := by
      unfold foundRows
      rw [table]
    have claimed : between.world.table.rows = solo.world.table.rows.map (changing
        (fun row => access.active row && row.named config references.eraseDups)
        (Row.claimed claim)) := by
      rw [marked, ← table]
      exact World.apply_found rfl
    simp only [runAlone_tryCatch] at rest
    rcases inner : runAlone config.toDeployment worker faults _ between with ⟨error | value, ended⟩
    · rw [inner] at rest
      cases rest
    · rw [inner] at rest
      cases rest
      obtain ⟨finalized, last, finalizing, done⟩ := of_runAlone_bind inner
      cases done
      rw [found] at finalizing
      have deletes := deletes_found possible claimed (by rw [marked]; exact objects) finalizing
      have reaches : ∀ row, caller.reaches .delete [] references.eraseDups row =
          access.active row := fun row => by simp [Caller.reaches, granted]
      simp only [reaches]
      simpa only [named_eraseDups] using deletes

/-! ## Changing files -/

section

variable {olds news : List String} {world world' : World}

theorem removedReferences_nodup : (removedReferences olds news).Nodup :=
  (nodup_eraseDups olds).filter _

/-- A file that old references name and no new one does is named by a removed reference. -/
theorem named_removed {row : Row} (old : row.named config olds = true)
    (new : row.named config news = false) : row.named config (removedReferences olds news) = true := by
  simp only [Row.named, Bool.or_eq_true, decide_eq_true_eq, Bool.or_eq_false_iff,
    decide_eq_false_iff_not, removedReferences, List.mem_filter, List.mem_eraseDups] at old new ⊢
  rcases old with key | cdn
  · exact .inl ⟨key, new.1⟩
  · exact .inr ⟨cdn, new.2⟩

theorem named_old {row : Row} (removed : row.named config (removedReferences olds news) = true) :
    row.named config olds = true := by
  simp only [Row.named, Bool.or_eq_true, decide_eq_true_eq, removedReferences, List.mem_filter,
    List.mem_eraseDups] at removed ⊢
  exact removed.imp And.left And.left

/-- What became of every row and object in a successful `changeFiles`. -/
structure Changes (config : Config) (caller : Caller) (olds news : List String)
    (world world' : World) : Prop where
  objects : ∀ key, (∀ row ∈ world.table, Doomed config caller olds news row → key ∉ row.keys) →
    world'.objects key = world.objects key
  rows : ∃ (metadata : Meta) (fate : Row → Row), world'.table.rows = world.table.rows.map fate ∧
    ∀ row ∈ world.table, (fate row).id = row.id ∧
      (Doomed config caller olds news row → (fate row).deletedAt ≠ none) ∧
      (¬ Doomed config caller olds news row → fate row =
        changing (fun row => caller.reaches .markUsed [] news.eraseDups row && row.named config news)
          (Row.used metadata) row)

theorem visible_of_reaches {operation : Operation} {ids : List Uuid} {references : List String}
    {row : Row} (reached : caller.reaches operation ids references row = true) :
    row.visible = true := by
  unfold Caller.reaches at reached
  split at reached
  · exact (Access.active_eq_true.mp reached).2
  · cases reached

/-- Using a file does not touch its deletion. -/
theorem changing_used_deletedAt (chosen : Row → Bool) (metadata : Meta) (row : Row) :
    (changing chosen (Row.used metadata) row).deletedAt = row.deletedAt := by
  unfold changing
  split <;> rfl

theorem Changes.keepsNews_iff (changes : Changes config caller olds news world world')
    (unique : UniqueKeys world) :
    KeepsNews config world olds news world' ↔ NamedApart config caller world olds news := by
  obtain ⟨metadata, fate, rows, fates⟩ := changes.rows
  have final : ∀ row ∈ world.table, fate row ∈ world'.table := fun row member =>
    Keyed.mem_rows.mp (rows ▸ List.mem_map_of_mem member)
  have only : ∀ row ∈ world.table, ∀ row' ∈ world'.table, row'.id = row.id → row' = fate row :=
    fun row member row' member' same =>
      Keyed.eq_of_key member' (final row member) (same.trans (fates row member).1.symm)
  constructor
  · intro keeps
    have apart : ∀ row ∈ world.table, row.named config news = true →
        ¬ Doomed config caller olds news row := by
      intro row member new doomed
      obtain ⟨row', member', same, -, -, kept, -⟩ := keeps.kept row member new
      rw [only row member row' member' same] at kept
      exact (fates row member).2.1 doomed kept
    refine ⟨apart, fun row member new => ?_, fun row member removed new => ?_⟩
    · obtain ⟨row', member', same, used, unclaimed, kept, -⟩ := keeps.kept row member new
      rw [only row member row' member' same, (fates row member).2.2 (apart row member new)]
        at used unclaimed kept
      cases reached : caller.reaches .markUsed [] news.eraseDups row with
      | true => exact .inl rfl
      | false =>
          rw [changing_neg _ (by rw [reached, Bool.false_and])] at used unclaimed kept
          exact .inr ⟨used, unclaimed, kept⟩
    · obtain ⟨before, row', member', same, deleted⟩ :=
        (keeps.deleted row member).mpr ⟨named_old removed, new⟩
      by_contra spared
      rw [only row member row' member' same, (fates row member).2.2 spared] at deleted
      exact deleted ((changing_used_deletedAt _ _ row).trans before)
  · intro named
    refine ⟨fun row member new => ?_, fun row member => ⟨?_, ?_⟩⟩
    · have spared := named.apart row member new
      have objects : ∀ key ∈ row.keys, world'.objects key = world.objects key := by
        intro key held
        refine changes.objects key fun other member' doomed held' => spared ?_
        rwa [unique row member other member' key held held']
      refine ⟨fate row, final row member, (fates row member).1, ?_⟩
      rw [(fates row member).2.2 spared]
      cases reached : caller.reaches .markUsed [] news.eraseDups row with
      | true =>
          have visible := Row.visible_eq_true.mp (visible_of_reaches reached)
          rw [changing_pos _ (by rw [reached, new]; rfl)]
          exact ⟨rfl, visible.2.2, visible.1, objects⟩
      | false =>
          rw [changing_neg _ (by rw [reached, Bool.false_and])]
          rcases named.newInReach row member new with wrong | ⟨used, unclaimed, kept⟩
          · rw [reached] at wrong
            cases wrong
          · exact ⟨used, unclaimed, kept, objects⟩
    · rintro ⟨before, row', member', same, deleted⟩
      have doomed : Doomed config caller olds news row := by
        by_contra spared
        rw [only row member row' member' same, (fates row member).2.2 spared] at deleted
        exact deleted ((changing_used_deletedAt _ _ row).trans before)
      refine ⟨named_old doomed.1, Bool.eq_false_iff.mpr fun new => ?_⟩
      exact named.apart row member new doomed
    · rintro ⟨old, new⟩
      have doomed := named.removedInReach row member (named_removed old new) new
      exact ⟨(Row.visible_eq_true.mp (visible_of_reaches doomed.2)).1, fate row, final row member,
        (fates row member).1, (fates row member).2.1 doomed⟩

theorem reaches_changing_used (operation : Operation) (ids : List Uuid) (references : List String)
    (chosen : Row → Bool) (metadata : Meta) (row : Row) :
    caller.reaches operation ids references (changing chosen (Row.used metadata) row) =
      caller.reaches operation ids references row := by
  unfold Caller.reaches changing
  split
  · split <;> rfl
  · rfl

theorem named_changing_used (references : List String) (chosen : Row → Bool) (metadata : Meta)
    (row : Row) :
    (changing chosen (Row.used metadata) row).named config references =
      row.named config references := by
  unfold changing
  split <;> rfl

end

theorem of_batchReferences {references unique : List String}
    (passed : batchReferences config references = .ok unique) : unique = references.eraseDups := by
  unfold batchReferences at passed
  split at passed
  · cases passed
  · exact (Except.ok.inj passed).symm

theorem changes_of_runAlone (possible : faults.Possible) {olds news : List String}
    {entity entityId : Option String} {result : Unit}
    (ran : runAlone config.toDeployment worker faults
      (changeFiles config caller olds news entity entityId) solo = (.ok result, solo')) :
    Changes config caller olds news solo.world solo'.world := by
  obtain ⟨oldReferences, passed, rest⟩ := of_runAlone_check ran
  obtain rfl := of_batchReferences passed
  obtain ⟨newReferences, passed', rest⟩ := of_runAlone_check rest
  obtain rfl := of_batchReferences passed'
  obtain ⟨_, between, used, rest⟩ := of_runAlone_bind rest
  obtain ⟨objects, metadata, marked⟩ := of_runAlone_useFiles used
  have deletes : Deletes (fun row => caller.reaches .delete [] (removedReferences olds news).eraseDups
      row && row.named config (removedReferences olds news)) between.world solo'.world :=
    of_runAlone_delete possible rest
  simp only [eraseDups_of_nodup (nodup_eraseDups news), named_eraseDups] at marked
  rw [eraseDups_of_nodup removedReferences_nodup] at deletes
  let uses := changing (fun row => caller.reaches .markUsed [] news.eraseDups row &&
    row.named config news) (Row.used metadata)
  have doomed : ∀ row, (caller.reaches .delete [] (removedReferences olds news) (uses row) &&
      (uses row).named config (removedReferences olds news)) = true ↔
      Doomed config caller olds news row := by
    intro row
    rw [reaches_changing_used, named_changing_used, Bool.and_eq_true]
    exact and_comm
  have moved : ∀ row, row ∈ between.world.table ↔ ∃ old ∈ solo.world.table, uses old = row := by
    intro row
    rw [← Keyed.mem_rows, marked]
    exact List.mem_map
  obtain ⟨fate, rows, fates⟩ := deletes.rows
  constructor
  · intro key spared
    rw [deletes.objects key fun row member chosen held => ?_, objects]
    obtain ⟨old, there, rfl⟩ := (moved row).mp member
    refine spared old there ((doomed old).mp chosen) ?_
    have same : (uses old).keys = old.keys := by
      show (changing _ _ old).keys = _
      unfold changing
      split <;> rfl
    rwa [same] at held
  · refine ⟨metadata, fate ∘ uses, by rw [rows, marked, List.map_map], fun row member => ?_⟩
    obtain ⟨same, gone, stays⟩ := fates (uses row) ((moved _).mpr ⟨row, member, rfl⟩)
    refine ⟨same.trans ?_, fun holds => gone ((doomed row).mpr holds), fun spared => stays ?_⟩
    · show (changing _ _ row).id = _
      unfold changing
      split <;> rfl
    · exact Bool.eq_false_iff.mpr fun holds => spared ((doomed row).mp holds)

/-- **`changeFiles` keeps what the caller keeps**, in the runs that succeed, exactly if no file is
named by a new reference and, under its other name, by a removed one. -/
theorem changeFiles_keeps_news_iff (possible : faults.Possible) {olds news : List String}
    {entity entityId : Option String} (unique : UniqueKeys solo.world)
    (ran : runAlone config.toDeployment worker faults
      (changeFiles config caller olds news entity entityId) solo = (.ok (), solo')) :
    KeepsNews config solo.world olds news solo'.world ↔
      NamedApart config caller solo.world olds news :=
  (changes_of_runAlone possible ran).keepsNews_iff unique

theorem working_possible : Faults.working.Possible := fun _ _ _ wrong => (nomatch wrong)

theorem oneReady_unique : UniqueKeys oneReady.world := by
  intro row member other member' _ _ _
  rw [List.mem_singleton.mp member, List.mem_singleton.mp member']

/-- Another file of the same owner. -/
def otherRow : Row :=
  { managedRow (smallConfig .s3) ⟨.owner, ⟨"t", none, 7⟩⟩ ⟨"b.txt", "text/plain", 2⟩ .privateFile
      .attachment {} none false 1 0 with
    status := .ready
    uploadPendingAt := none
    pendingKey := none }

def twoReady : Solo := ⟨{ World.initial 0 with table := ⟨[readyRow, otherRow], by decide⟩ }, []⟩

theorem mem_twoReady {row : Row} (member : row ∈ twoReady.world.table) :
    row = readyRow ∨ row = otherRow := by
  rcases List.mem_cons.mp member with same | member
  · exact .inl same
  · exact .inr (List.mem_singleton.mp member)

theorem twoReady_unique : UniqueKeys twoReady.world := by
  have apart : ∀ key ∈ readyRow.keys, key ∉ otherRow.keys := by decide +kernel
  intro row member other member' key own own'
  rcases mem_twoReady member with rfl | rfl <;> rcases mem_twoReady member' with rfl | rfl
  · rfl
  · exact absurd own' (apart key own)
  · exact absurd own (apart key own')
  · rfl

/-- One of the two files is given back, the other is removed. -/
theorem changeFiles_keeps_news_twoReady :
    KeepsNews (smallConfig .s3) twoReady.world ["a.txt", "b.txt"] ["b.txt"]
      (runAlone (smallConfig .s3).toDeployment ⟨0, 0⟩ .working
        (changeFiles (smallConfig .s3) smallCaller ["a.txt", "b.txt"] ["b.txt"] none none)
        twoReady).2.world := by
  have succeeded : (runAlone (smallConfig .s3).toDeployment ⟨0, 0⟩ .working
      (changeFiles (smallConfig .s3) smallCaller ["a.txt", "b.txt"] ["b.txt"] none none) twoReady).1 =
        .ok () := by
    decide +kernel
  refine (changeFiles_keeps_news_iff working_possible twoReady_unique
    (Prod.ext succeeded rfl)).mpr ⟨?_, ?_, ?_⟩
  · intro row member new doomed
    rcases mem_twoReady member with rfl | rfl
    · exact absurd new (by decide +kernel)
    · exact absurd doomed.1 (by decide +kernel)
  · intro row member new
    rcases mem_twoReady member with rfl | rfl
    · exact absurd new (by decide +kernel)
    · exact .inl (by decide +kernel)
  · intro row member removed _
    rcases mem_twoReady member with rfl | rfl
    · exact ⟨removed, by decide +kernel⟩
    · exact absurd removed (by decide +kernel)

/-- The one file is given back under its other name: it is marked used and deleted. -/
theorem other_name_deleted :
    (runAlone (smallConfig .s3).toDeployment ⟨0, 0⟩ .working
      (changeFiles (smallConfig .s3) smallCaller ["a.txt"] ["private"] none none) oneReady).1 =
        .ok () ∧
      UniqueKeys oneReady.world ∧
      ¬ KeepsNews (smallConfig .s3) oneReady.world ["a.txt"] ["private"]
        (runAlone (smallConfig .s3).toDeployment ⟨0, 0⟩ .working
          (changeFiles (smallConfig .s3) smallCaller ["a.txt"] ["private"] none none)
          oneReady).2.world := by
  have succeeded : (runAlone (smallConfig .s3).toDeployment ⟨0, 0⟩ .working
      (changeFiles (smallConfig .s3) smallCaller ["a.txt"] ["private"] none none) oneReady).1 =
        .ok () := by
    decide +kernel
  have deleted : (runAlone (smallConfig .s3).toDeployment ⟨0, 0⟩ .working
      (changeFiles (smallConfig .s3) smallCaller ["a.txt"] ["private"] none none)
      oneReady).2.world.table.rows.all (fun row => row.isUsed && row.deletedAt.isSome) = true := by
    decide +kernel
  refine ⟨succeeded, oneReady_unique, fun keeps => ?_⟩
  obtain ⟨row', member, -, -, -, kept, -⟩ :=
    keeps.kept readyRow (List.mem_singleton_self _) (by decide +kernel)
  have gone := List.all_eq_true.mp deleted row' member
  simp [kept] at gone

end SdcoreNest.UploadedFile
