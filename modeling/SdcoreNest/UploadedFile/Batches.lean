/-
# UploadedFile.Batches -- batch operations are all or nothing

`markUsed`, `useFiles` and the first phase of `delete` read the rows a batch names, compare
counts and change the rows in one transaction.  `AllOrNothing` says what such an operation
owes: it succeeds exactly for the accepted batches, then changes exactly the named rows, and
otherwise changes nothing and answers `notFound`.

A batch of ids is deduplicated as texts, but the database knows a UUID in any letter case: two
spellings of one id count as two ids and one row.
-/
import SdcoreNest.UploadedFile.Alone

namespace SdcoreNest.UploadedFile

open SdcoreNest.Theory
open SdcoreNest.Theory.Program

set_option autoImplicit false

/-- The rows a caller reaches with an operation on a batch; none if the operation is denied. -/
def Caller.reaches (caller : Caller) (operation : Operation) (ids : List Uuid)
    (references : List String) (row : Row) : Bool :=
  match authorize caller operation ids references with
  | .ok access => access.active row
  | .error _ => false

/-- One of the references is the row's key or its cdn. -/
def Row.named (config : Config) (references : List String) (row : Row) : Bool :=
  decide (config.keyText row.key ∈ references) || decide (row.cdn ∈ references)

/-- What a batch operation owes, run on a world. -/
structure AllOrNothing {α : Type} (world : World) (ran : Except ServiceError α × Solo)
    (accepted : Prop) (changed : Row → Row) : Prop where
  succeeds : (∃ value, ran.1 = .ok value) ↔ accepted
  changes : ∀ value, ran.1 = .ok value → ran.2.world.table.rows = world.table.rows.map changed
  nothing : ∀ error, ran.1 = .error error →
    ran.2.world.table = world.table ∧ error = .notFound

section

variable (config : Config) (caller : Caller) (world : World)

/-- The ids of a batch, each once. -/
def sentIds (ids : List (Option SentId)) : List SentId := (ids.filterMap id).eraseDups

/-- Every id is well formed and names a row within reach. -/
def AcceptedIds (ids : List (Option SentId)) : Prop :=
  ids.length ≤ uploadedFileBatchLimit ∧ none ∉ ids ∧
    ∀ sent, some sent ∈ ids → ∃ row ∈ world.table,
      caller.reaches .markUsed ((sentIds ids).map SentId.uuid) [] row = true ∧ row.id = sent.uuid

/-- Every reference is well formed and names a row within reach. -/
def AcceptedReferences (operation : Operation) (references : List String) : Prop :=
  references.length ≤ uploadedFileBatchLimit ∧
    ∀ reference ∈ references, config.validReference reference = true ∧
      ∃ row ∈ world.table, caller.reaches operation [] references.eraseDups row = true ∧
        row.named config [reference] = true

/-- The first phase of `delete`: draw a claim and put it on every named row. -/
def claimBatch (references : List String) : Service (Option (List Row × Int × Access)) := do
  let unique ← check (batchReferences config references)
  if unique.isEmpty then pure none
  else do
    let access ← check (authorize caller .delete [] unique)
    let claim ← ask (.nextDeletionClaim none)
    let rows ← rowsForReferences config access unique
    let committed ← ask (.transact (.claimReferences rows access claim) rows.length)
    if committed then pure (some (rows, claim, access)) else throw .notFound

end

/-- What using a file changes. -/
def Row.used (metadata : Meta) (row : Row) : Row :=
  { row with isUsed := true, metadata := metadata.over row.metadata }

/-- What claiming a file for deletion changes. -/
def Row.claimed (claim : Int) (row : Row) : Row := { row with deletionPendingAt := some claim }

/-- Change the chosen rows. -/
def changing (chosen : Row → Bool) (patch : Row → Row) (row : Row) : Row :=
  if chosen row then patch row else row

section

variable (config : Config) (caller : Caller) (worker : Worker) (solo : Solo)

/-- What `markUsed` owes. -/
def MarksIds (ids : List (Option SentId)) (meta? : MetaInput) (metadata : Meta) : Prop :=
  AllOrNothing solo.world
    (runAlone config.toDeployment worker .working (markUsed config caller ids meta?) solo)
    (AcceptedIds caller solo.world ids)
    (changing (fun row => caller.reaches .markUsed ((sentIds ids).map SentId.uuid) [] row &&
      decide (row.id ∈ (sentIds ids).map SentId.uuid)) (Row.used metadata))

/-- What `useFiles` owes. -/
def UsesFiles (references : List String) (entity entityId : Option String) (metadata : Meta) :
    Prop :=
  AllOrNothing solo.world
    (runAlone config.toDeployment worker .working
      (useFiles config caller references entity entityId) solo)
    (AcceptedReferences config caller solo.world .markUsed references)
    (changing (fun row => caller.reaches .markUsed [] references.eraseDups row &&
      row.named config references) (Row.used metadata))

/-- What the first phase of `delete` owes. -/
def ClaimsBatch (references : List String) : Prop :=
  AllOrNothing solo.world
    (runAlone config.toDeployment worker .working (claimBatch config caller references) solo)
    (AcceptedReferences config caller solo.world .delete references)
    (changing (fun row => caller.reaches .delete [] references.eraseDups row &&
      row.named config references) (Row.claimed (solo.world.claimAt worker.process none)))

end

variable {config : Config} {caller : Caller} {worker : Worker} {solo : Solo}

/-! ## Reading and changing the same rows -/

/-- A statement that changes the active rows with the ids of a list. -/
def Statement.ByIds (statement : Statement) (access : Access) (ids : List Uuid) : Prop :=
  statement.chosen = fun row => access.active row && decide (row.id ∈ ids)

theorem World.affected_byIds {world : World} {statement : Statement} {access : Access}
    {ids : List Uuid} (byIds : statement.ByIds access ids) :
    world.affected statement = ids.length ↔
      ids.Nodup ∧ ∀ id ∈ ids, ∃ row ∈ world.table, access.active row = true ∧ row.id = id := by
  unfold World.affected
  rw [byIds]
  exact Keyed.count_eq_length_iff

/-- The ids of the rows that a query of active rows found choose the same rows again. -/
theorem World.chosen_found {world : World} {statement : Statement} {access : Access}
    {accepted : Row → Bool}
    (byIds : statement.ByIds access
      ((world.table.rows.filter fun row => access.active row && accepted row).map Row.id))
    {row : Row} (member : row ∈ world.table) :
    statement.chosen row = (access.active row && accepted row) := by
  rw [byIds]
  cases active : access.active row with
  | false => simp [active]
  | true =>
      have tells : row.id ∈ (world.table.select fun row => access.active row && accepted row).map
          Row.id ↔ (access.active row && accepted row) = true := Keyed.key_mem_select member
      simp only [active, Bool.true_and] at tells ⊢
      rw [Bool.eq_iff_iff, decide_eq_true_eq]
      exact tells

theorem World.apply_found {world : World} {statement : Statement} {access : Access}
    {accepted : Row → Bool}
    (byIds : statement.ByIds access
      ((world.table.rows.filter fun row => access.active row && accepted row).map Row.id)) :
    (world.apply statement).table.rows = world.table.rows.map
      (changing (fun row => access.active row && accepted row)
        (statement.patch world.timestamp)) :=
  Keyed.update_rows_congr (statement.patch_id _) fun _ member => World.chosen_found byIds member

theorem World.affected_found {world : World} {statement : Statement} {access : Access}
    {accepted : Row → Bool}
    (byIds : statement.ByIds access
      ((world.table.rows.filter fun row => access.active row && accepted row).map Row.id)) :
    world.affected statement =
      (world.table.rows.filter fun row => access.active row && accepted row).length := by
  refine (world.affected_byIds byIds).mpr ⟨?_, fun id inside => ?_⟩ |>.trans (List.length_map _)
  · exact world.table.select_distinct fun row => access.active row && accepted row
  · obtain ⟨row, found, rfl⟩ := List.mem_map.mp inside
    obtain ⟨member, both⟩ := List.mem_filter.mp found
    simp only [Bool.and_eq_true] at both
    exact ⟨row, member, both.1, rfl⟩

/-! ## Batches of references -/

/-- The rows that an access and a batch of references select. -/
def foundRows (config : Config) (world : World) (access : Access) (references : List String) :
    List Row :=
  world.table.rows.filter fun row => access.active row && row.named config references

theorem named_of_mem {row : Row} {references : List String} {reference : String}
    (member : reference ∈ references) (named : row.named config [reference] = true) :
    row.named config references = true := by
  simp only [Row.named, List.mem_singleton, Bool.or_eq_true, decide_eq_true_eq] at named ⊢
  rcases named with rfl | rfl
  · exact .inl member
  · exact .inr member

/-- Every reference is matched exactly when each names an active row. -/
theorem matchedReferences_length {world : World} {access : Access} {references : List String} :
    (matchedReferences config references (foundRows config world access references)).length =
        references.length ↔
      ∀ reference ∈ references, ∃ row ∈ world.table,
        access.active row = true ∧ row.named config [reference] = true := by
  unfold matchedReferences
  rw [List.length_filter_eq_length_iff]
  refine forall₂_congr fun reference member => ?_
  simp only [List.any_eq_true, foundRows, List.mem_filter, Bool.and_eq_true, Bool.or_eq_true,
    decide_eq_true_eq]
  constructor
  · rintro ⟨row, ⟨there, active, -⟩, same⟩
    refine ⟨row, there, active, ?_⟩
    simpa [Row.named] using same
  · rintro ⟨row, there, active, named⟩
    refine ⟨row, ⟨there, active, named_of_mem member named⟩, ?_⟩
    simpa [Row.named] using named

theorem runAlone_rowsForReferences (access : Access) (references : List String) :
    ∃ log, runAlone config.toDeployment worker .working
        (rowsForReferences config access references) solo =
      (if (matchedReferences config references
          (foundRows config solo.world access references)).length = references.length
        then .ok (foundRows config solo.world access references) else .error .notFound,
        ⟨solo.world, log⟩) := by
  obtain ⟨log, read⟩ := @runAlone_find config.toDeployment worker solo (List Row)
    (.byReferences access references references) (fun rows =>
      if (matchedReferences config references rows).length = references.length then pure rows
      else throw .notFound)
  refine ⟨log, read.trans ?_⟩
  show runAlone _ _ _ (if (matchedReferences config references
    (foundRows config solo.world access references)).length = references.length then _ else _) _ = _
  split <;> rfl

/-- What is owed depends on the table of the world only. -/
theorem AllOrNothing.of_table {α : Type} {world world' : World} {accepted : Prop}
    {changed : Row → Row} {ran : Except ServiceError α × Solo} (same : world'.table = world.table)
    (kept : AllOrNothing world' ran accepted changed) : AllOrNothing world ran accepted changed where
  succeeds := kept.succeeds
  changes := by rw [← same]; exact kept.changes
  nothing := by rw [← same]; exact kept.nothing

/-- A refusal changes nothing. -/
theorem AllOrNothing.refused {α : Type} {world : World} {log : List (Step sig)} {accepted : Prop}
    {changed : Row → Row} (rejected : ¬ accepted) :
    AllOrNothing (α := α) world (.error .notFound, ⟨world, log⟩) accepted changed where
  succeeds := ⟨fun ⟨_, wrong⟩ => (nomatch wrong), fun holds => absurd holds rejected⟩
  changes := fun _ wrong => (nomatch wrong)
  nothing := fun _ same => ⟨rfl, (Except.error.inj same).symm⟩

/-- So does a batch that names nothing. -/
theorem AllOrNothing.idle {α : Type} {world : World} {log : List (Step sig)} {accepted : Prop}
    {changed : Row → Row} {value : α} (holds : accepted) (same : ∀ row, changed row = row) :
    AllOrNothing world (.ok value, ⟨world, log⟩) accepted changed where
  succeeds := iff_of_true ⟨value, rfl⟩ holds
  changes := fun _ _ => by simp [funext same]
  nothing := fun _ wrong => (nomatch wrong)

/-- Read the rows of a batch and change them in one transaction. -/
theorem allOrNothing_commit {α : Type} (access : Access) (references : List String)
    (statement : List Row → Statement) (value : List Row → α)
    (byIds : ∀ rows, (statement rows).ByIds access (rows.map Row.id)) :
    AllOrNothing solo.world
      (runAlone config.toDeployment worker .working
        (do
          let rows ← rowsForReferences config access references
          let committed ← ask (.transact (statement rows) rows.length)
          if committed then pure (value rows) else throw .notFound) solo)
      (∀ reference ∈ references, ∃ row ∈ solo.world.table,
        access.active row = true ∧ row.named config [reference] = true)
      (changing (fun row => access.active row && row.named config references)
        ((statement (foundRows config solo.world access references)).patch
          solo.world.timestamp)) := by
  rw [runAlone_bind]
  obtain ⟨log, ran⟩ := @runAlone_rowsForReferences config worker solo access references
  rw [ran]
  by_cases matched : (matchedReferences config references
      (foundRows config solo.world access references)).length = references.length
  · rw [if_pos matched, andThen_ok]
    have counted : solo.world.affected (statement (foundRows config solo.world access references)) =
        (foundRows config solo.world access references).length := World.affected_found (byIds _)
    obtain ⟨log', committed⟩ := @runAlone_transact config.toDeployment worker ⟨solo.world, log⟩ _ _ _
      counted (fun committed => if committed then
        pure (value (foundRows config solo.world access references)) else throw .notFound)
    rw [committed]
    exact
      { succeeds := iff_of_true ⟨_, rfl⟩ (matchedReferences_length.mp matched)
        changes := fun _ _ => World.apply_found (byIds _)
        nothing := fun _ wrong => (nomatch wrong) }
  · rw [if_neg matched, andThen_error]
    exact AllOrNothing.refused fun named => matched (matchedReferences_length.mpr named)

/-- Every denial looks like a missing file. -/
theorem authorize_error {operation : Operation} {ids : List Uuid} {references : List String}
    {denied : ServiceError} (refused : authorize caller operation ids references = .error denied) :
    denied = .notFound := by
  unfold authorize at refused
  split at refused
  · exact (Except.error.inj refused).symm
  · split at refused
    · exact (Except.error.inj refused).symm
    · cases refused

theorem named_eraseDups (references : List String) (row : Row) :
    row.named config references.eraseDups = row.named config references := by
  simp only [Row.named, List.mem_eraseDups]

/-- The checks in front of a batch of references. -/
theorem allOrNothing_batch {α : Type} {operation : Operation} {references : List String}
    {idle : α} {body : List String → Access → Service α} {patch : Row → Row}
    (commits : ∀ access, authorize caller operation [] references.eraseDups = .ok access →
      AllOrNothing solo.world
        (runAlone config.toDeployment worker .working (body references.eraseDups access) solo)
        (∀ reference ∈ references.eraseDups, ∃ row ∈ solo.world.table,
          access.active row = true ∧ row.named config [reference] = true)
        (changing (fun row => access.active row && row.named config references.eraseDups) patch)) :
    AllOrNothing solo.world
      (runAlone config.toDeployment worker .working
        (do
          let unique ← check (batchReferences config references)
          if unique.isEmpty then pure idle
          else do
            let access ← check (authorize caller operation [] unique)
            body unique access) solo)
      (AcceptedReferences config caller solo.world operation references)
      (changing (fun row => caller.reaches operation [] references.eraseDups row &&
        row.named config references) patch) := by
  rw [runAlone_check_bind]
  by_cases malformed : references.length > uploadedFileBatchLimit ∨
      references.any (fun reference => !config.validReference reference)
  · have refused : batchReferences config references = .error .notFound := if_pos malformed
    rw [refused, andThen_error]
    refine AllOrNothing.refused fun accepted => ?_
    rcases malformed with long | invalid
    · have short := accepted.1
      omega
    · obtain ⟨reference, member, wrong⟩ := List.any_eq_true.mp invalid
      simp [(accepted.2 reference member).1] at wrong
  · have passed : batchReferences config references = .ok references.eraseDups := if_neg malformed
    simp only [not_or, Bool.not_eq_true, List.any_eq_false, not_lt,
      Bool.not_eq_eq_eq_not] at malformed
    rw [passed, andThen_ok]
    by_cases empty : references = []
    · subst empty
      refine AllOrNothing.idle ⟨Nat.zero_le _, fun _ wrong => (by cases wrong)⟩ fun row => ?_
      simp [changing, Row.named]
    · have nonempty : references.eraseDups.isEmpty = false := by
        cases references with
        | nil => exact absurd rfl empty
        | cons first rest => rw [List.eraseDups_cons]; rfl
      rw [nonempty]
      simp only [Bool.false_eq_true, if_false]
      rw [runAlone_check_bind]
      have accepts : AcceptedReferences config caller solo.world operation references ↔
          ∀ reference ∈ references.eraseDups, ∃ row ∈ solo.world.table,
            caller.reaches operation [] references.eraseDups row = true ∧
              row.named config [reference] = true := by
        simp only [List.mem_eraseDups]
        exact ⟨fun accepted reference member => (accepted.2 reference member).2,
          fun found => ⟨malformed.1, fun reference member =>
            ⟨by simpa using malformed.2 reference member, found reference member⟩⟩⟩
      cases granted : authorize caller operation [] references.eraseDups with
      | error denied =>
          have hidden : denied = .notFound := authorize_error granted
          rw [hidden, andThen_error]
          refine AllOrNothing.refused fun accepted => ?_
          obtain ⟨first, rest, rfl⟩ := List.exists_cons_of_ne_nil empty
          obtain ⟨row, -, reached, -⟩ := (accepted.2 first List.mem_cons_self).2
          simp [Caller.reaches, granted] at reached
      | ok access =>
          rw [andThen_ok]
          have reaches : ∀ row, caller.reaches operation [] references.eraseDups row =
              access.active row := fun row => by simp [Caller.reaches, granted]
          have kept := commits access granted
          simp only [accepts, reaches]
          simpa only [named_eraseDups] using kept

theorem normalizeMeta_ok {input : MetaInput} {metadata : Meta}
    (normalized : config.normalizeMeta input = some metadata) :
    normalizeMeta config input = .ok metadata := by
  unfold normalizeMeta
  rw [normalized]

theorem usesFiles {references : List String} {entity entityId : Option String} {metadata : Meta}
    (normalized : config.normalizeMeta { entity := entity, entityId := entityId } = some metadata) :
    UsesFiles config caller worker solo references entity entityId metadata := by
  refine allOrNothing_batch fun access granted => ?_
  rw [normalizeMeta_ok normalized, runAlone_check_bind, andThen_ok]
  exact allOrNothing_commit access _ (fun rows => .markUsed (rows.map Row.id) access metadata)
    (fun _ => ()) fun _ => rfl

theorem claimsBatch (references : List String) :
    ClaimsBatch config caller worker solo references := by
  refine allOrNothing_batch fun access granted => ?_
  rw [runAlone_working_ask_bind]
  let claim := solo.world.claimAt worker.process none
  have committed := @allOrNothing_commit config worker
    ⟨(exec config.toDeployment solo.world worker (.nextDeletionClaim none)).2,
      ⟨.nextDeletionClaim none, some claim⟩ :: solo.log⟩ _ access references.eraseDups
    (fun rows => .claimReferences rows access claim) (fun rows => some (rows, claim, access))
    fun _ => rfl
  refine AllOrNothing.of_table ?_ committed
  rfl

/-- `delete` is its first phase and then the removal of the claimed rows. -/
theorem runAlone_delete {faults : Faults} (references : List String) :
    runAlone config.toDeployment worker faults (delete config caller references) solo =
      andThen (runAlone config.toDeployment worker faults (claimBatch config caller references) solo)
        fun claimed solo' => runAlone config.toDeployment worker faults
          (match claimed with
          | none => pure ()
          | some (rows, claim, access) =>
              tryCatch
                (do
                  let _ ← deleteAndFinalizePendingRows
                    (rows.map fun row => { row with deletionPendingAt := some claim }) claim
                    (some access)
                  pure ())
                fun _ => throw deleteFailed) solo' := by
  unfold UploadedFile.delete claimBatch
  rw [runAlone_check_bind, runAlone_check_bind]
  cases batchReferences config references with
  | error error => rfl
  | ok unique =>
      simp only [andThen_ok]
      split
      · rfl
      · rw [runAlone_check_bind, runAlone_check_bind]
        cases authorize caller .delete [] unique with
        | error error => rfl
        | ok access =>
            simp only [andThen_ok]
            rw [runAlone_bind, runAlone_bind]
            rcases runAlone config.toDeployment worker faults (ask (.nextDeletionClaim none)) solo with
              ⟨error | claim, solo⟩
            · rfl
            · simp only [andThen_ok]
              rw [runAlone_bind, runAlone_bind]
              rcases runAlone config.toDeployment worker faults
                (rowsForReferences config access unique) solo with ⟨error | rows, solo⟩
              · rfl
              · simp only [andThen_ok]
                rw [runAlone_bind, runAlone_bind]
                rcases runAlone config.toDeployment worker faults
                  (ask (.transact (.claimReferences rows access claim) rows.length)) solo with
                  ⟨error | committed, solo⟩
                · rfl
                · cases committed <;> rfl

/-! ## Batches of ids -/

/-- No id of the batch is spelled in two ways. -/
def SpelledOnce (ids : List (Option SentId)) : Prop :=
  ∀ first second : SentId, some first ∈ ids → some second ∈ ids → first.uuid = second.uuid →
    first = second

theorem mem_sentIds {ids : List (Option SentId)} {sent : SentId} :
    sent ∈ sentIds ids ↔ some sent ∈ ids := by
  simp [sentIds, List.mem_eraseDups]

theorem spelledOnce_iff {ids : List (Option SentId)} :
    SpelledOnce ids ↔ ((sentIds ids).map SentId.uuid).Nodup := by
  have distinct : (sentIds ids).Nodup := nodup_eraseDups _
  rw [List.nodup_map_iff_inj_on distinct]
  simp only [mem_sentIds]
  exact ⟨fun once first firstIn second secondIn => once first second firstIn secondIn,
    fun once first second firstIn secondIn => once first firstIn second secondIn⟩

/-- The transaction of `markUsed`, whose ids may stand twice. -/
theorem mutateIds_allOrNothing_iff (access : Access) (ids : List SentId) (metadata : Meta) :
    AllOrNothing solo.world
        (runAlone config.toDeployment worker .working (mutateIds access ids metadata) solo)
        (∀ id ∈ ids.map SentId.uuid, ∃ row ∈ solo.world.table,
          access.active row = true ∧ row.id = id)
        (changing (fun row => access.active row && decide (row.id ∈ ids.map SentId.uuid))
          (Row.used metadata)) ↔
      ((∀ id ∈ ids.map SentId.uuid, ∃ row ∈ solo.world.table,
          access.active row = true ∧ row.id = id) → (ids.map SentId.uuid).Nodup) := by
  have byIds : (Statement.markUsed (ids.map SentId.uuid) access metadata).ByIds access
      (ids.map SentId.uuid) := rfl
  have counted := solo.world.affected_byIds byIds
  rw [List.length_map] at counted
  have found : ((Query.byIds access (ids.map SentId.uuid)).select config.keyText
      solo.world.table.rows).length = ids.length ↔
      solo.world.affected (.markUsed (ids.map SentId.uuid) access metadata) = ids.length := Iff.rfl
  unfold mutateIds
  obtain ⟨log, read⟩ := @runAlone_find config.toDeployment worker solo Unit
    (.byIds access (ids.map SentId.uuid)) (fun rows => if rows.length ≠ ids.length then
      throw .notFound else do
        let committed ← ask
          (.transact (.markUsed (ids.map SentId.uuid) access metadata) ids.length)
        if committed then pure () else throw .notFound)
  rw [read]
  by_cases whole : solo.world.affected (.markUsed (ids.map SentId.uuid) access metadata) = ids.length
  · rw [if_neg (not_not.mpr (found.mpr whole))]
    obtain ⟨log', committed⟩ := @runAlone_transact config.toDeployment worker ⟨solo.world, log⟩ _ _ _
      whole (fun committed => if committed then pure () else throw .notFound)
    rw [committed]
    refine iff_of_true ?_ fun _ => (counted.mp whole).1
    exact
      { succeeds := iff_of_true ⟨_, rfl⟩ (counted.mp whole).2
        changes := fun _ _ => rfl
        nothing := fun _ wrong => (nomatch wrong) }
  · rw [if_pos (fun same => whole (found.mp same))]
    constructor
    · intro kept accepted
      obtain ⟨value, wrong⟩ := kept.succeeds.mpr accepted
      cases wrong
    · intro once
      exact AllOrNothing.refused fun accepted => whole (counted.mpr ⟨once accepted, accepted⟩)

/-- Unless an id is spelled twice, `markUsed` is all or nothing; if it is, a batch that should
pass is refused. -/
theorem marksIds_iff {ids : List (Option SentId)} {meta? : MetaInput} {metadata : Meta}
    (normalized : config.normalizeMeta meta? = some metadata) :
    MarksIds config caller worker solo ids meta? metadata ↔
      (AcceptedIds caller solo.world ids → SpelledOnce ids) := by
  unfold MarksIds UploadedFile.markUsed
  rw [runAlone_check_bind]
  by_cases malformed : ids.length > uploadedFileBatchLimit ∨ none ∈ ids
  · have refused : batchIds ids = .error .notFound := if_pos malformed
    have rejected : ¬ AcceptedIds caller solo.world ids := by
      rintro ⟨short, formed, -⟩
      rcases malformed with long | wrong
      · omega
      · exact formed wrong
    rw [refused, andThen_error]
    exact iff_of_true (AllOrNothing.refused rejected) fun accepted => absurd accepted rejected
  · have passed : batchIds ids = .ok (sentIds ids) := if_neg malformed
    simp only [not_or, not_lt] at malformed
    rw [passed, andThen_ok]
    by_cases empty : sentIds ids = []
    · rw [empty]
      refine iff_of_true (AllOrNothing.idle ?_ fun row => ?_) fun _ first _ firstIn => ?_
      · refine ⟨malformed.1, malformed.2, fun sent inside => ?_⟩
        rw [← mem_sentIds, empty] at inside
        cases inside
      · simp [changing]
      · rw [← mem_sentIds, empty] at firstIn
        cases firstIn
    · have nonempty : (sentIds ids).isEmpty = false := by
        simpa [List.isEmpty_iff] using empty
      rw [nonempty]
      simp only [Bool.false_eq_true, if_false]
      rw [runAlone_check_bind]
      cases granted : authorize caller .markUsed ((sentIds ids).map SentId.uuid) [] with
      | error denied =>
          have hidden : denied = .notFound := authorize_error granted
          have rejected : ¬ AcceptedIds caller solo.world ids := by
            rintro ⟨-, -, found⟩
            obtain ⟨first, rest, same⟩ := List.exists_cons_of_ne_nil empty
            have inside : some first ∈ ids := mem_sentIds.mp (same ▸ List.mem_cons_self)
            obtain ⟨row, -, reached, -⟩ := found first inside
            simp [Caller.reaches, granted] at reached
          rw [hidden, andThen_error]
          exact iff_of_true (AllOrNothing.refused rejected) fun accepted => absurd accepted rejected
      | ok access =>
          rw [andThen_ok, normalizeMeta_ok normalized, runAlone_check_bind, andThen_ok]
          have reaches : ∀ row, caller.reaches .markUsed ((sentIds ids).map SentId.uuid) [] row =
              access.active row := fun row => by simp [Caller.reaches, granted]
          have accepts : AcceptedIds caller solo.world ids ↔
              ∀ id ∈ (sentIds ids).map SentId.uuid, ∃ row ∈ solo.world.table,
                access.active row = true ∧ row.id = id := by
            simp only [List.forall_mem_map, mem_sentIds, AcceptedIds, reaches]
            exact ⟨fun accepted => accepted.2.2, fun found => ⟨malformed.1, malformed.2, found⟩⟩
          rw [accepts, spelledOnce_iff]
          simp only [reaches]
          exact mutateIds_allOrNothing_iff access (sentIds ids) metadata

/-- **Batch operations are all or nothing**, exactly if no id of an otherwise good batch is
spelled in two ways. -/
theorem batches_all_or_nothing_iff {ids : List (Option SentId)} {references removed : List String}
    {meta? : MetaInput} {entity entityId : Option String} {metadata metadata' : Meta}
    (normalized : config.normalizeMeta meta? = some metadata)
    (normalized' : config.normalizeMeta { entity := entity, entityId := entityId } =
      some metadata') :
    (MarksIds config caller worker solo ids meta? metadata ∧
        UsesFiles config caller worker solo references entity entityId metadata' ∧
        ClaimsBatch config caller worker solo removed) ↔
      (AcceptedIds caller solo.world ids → SpelledOnce ids) := by
  rw [marksIds_iff normalized]
  exact and_iff_left ⟨usesFiles normalized', claimsBatch removed⟩

/-- A finished file of the small installation. -/
def readyRow : Row :=
  { managedRow (smallConfig .s3) ⟨.owner, ⟨"t", none, 7⟩⟩ ⟨"a.txt", "text/plain", 2⟩ .privateFile
      .attachment {} none false 0 0 with
    status := .ready
    uploadPendingAt := none
    pendingKey := none }

/-- An installation that holds it. -/
def oneReady : Solo := ⟨{ World.initial 0 with table := ⟨[readyRow], by simp⟩ }, []⟩

theorem batches_all_or_nothing_oneReady :
    MarksIds (smallConfig .s3) smallCaller ⟨0, 0⟩ oneReady [some ⟨0, 0⟩, some ⟨0, 0⟩] {} {} ∧
      UsesFiles (smallConfig .s3) smallCaller ⟨0, 0⟩ oneReady ["a.txt", "private"] none none {} ∧
      ClaimsBatch (smallConfig .s3) smallCaller ⟨0, 0⟩ oneReady ["b.txt"] := by
  have once : SpelledOnce [some ⟨0, 0⟩, some ⟨0, 0⟩] := by
    intro first second firstIn secondIn _
    simp only [List.mem_cons, Option.some.injEq, List.not_mem_nil, or_false, or_self]
      at firstIn secondIn
    rw [firstIn, secondIn]
  exact (batches_all_or_nothing_iff rfl rfl).mpr fun _ => once

/-- The same id in two spellings: the batch names the one file twice and is refused. -/
theorem two_spellings_refused :
    ¬ MarksIds (smallConfig .s3) smallCaller ⟨0, 0⟩ oneReady [some ⟨0, 0⟩, some ⟨0, 1⟩] {} {} := by
  intro owed
  have refused : (runAlone (smallConfig .s3).toDeployment ⟨0, 0⟩ .working
      (markUsed (smallConfig .s3) smallCaller [some ⟨0, 0⟩, some ⟨0, 1⟩] {}) oneReady).1 =
        .error .notFound := by decide +kernel
  have accepted : AcceptedIds smallCaller oneReady.world [some ⟨0, 0⟩, some ⟨0, 1⟩] := by
    refine ⟨by decide, by decide, fun sent inside => ?_⟩
    refine ⟨readyRow, List.mem_singleton_self _, by decide +kernel, ?_⟩
    simp only [List.mem_cons, Option.some.injEq, List.not_mem_nil, or_false] at inside
    rcases inside with rfl | rfl <;> rfl
  obtain ⟨value, wrong⟩ := owed.succeeds.mpr accepted
  rw [refused] at wrong
  cases wrong

end SdcoreNest.UploadedFile
