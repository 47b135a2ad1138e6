/-
# UploadedFile.StatusMachine -- the upload status machine over whole runs

A row is born `pending` or `ready`.  `Row.Moves` lists what one step may do to its
status and `Row.Stamped` when it may write `completedAt` and `expiredAt`.  The finalising
UPDATE of a completion moves a row from `completing` to `ready`, and `ready` is never
left, so at most one of them takes effect (`finalises_le_one`).

The completion lease is a marker, not an owner: `lease_reused_within_a_millisecond` is a
run in which two completions are granted the same marker, and the late UPDATE of the
first one changes the row under the lease of the second.
-/
import SdcoreNest.UploadedFile.Leases

namespace SdcoreNest.UploadedFile

open SdcoreNest.Theory
open SdcoreNest.Theory.Machine

set_option autoImplicit false

/-- The moves of the status machine in one step. -/
def Row.Moves (row row' : Row) : Prop :=
  row'.status = row.status ∨
    (row.status = .pending ∧ row'.status = .completing) ∨
    (row.status = .completing ∧ row'.status = .ready) ∨
    (row.status = .pending ∧ row'.status = .ready ∧ row.uploadExpiredAt = none ∧
      row.isTemporary = true) ∨
    ((row.status = .pending ∨ row.status = .completing) ∧ row'.status = .failed)

/-- The completion stamps are written together with the move to `ready`, over empty ones. -/
def Row.Stamped (row row' : Row) : Prop :=
  row'.completedAt ≠ row.completedAt ∨ row'.expiredAt ≠ row.expiredAt →
    row.completedAt = none ∧ row.expiredAt = none ∧ row.status ≠ .ready ∧ row'.status = .ready

namespace Statement

variable (clock : Moment) {statement : Statement} {row : Row}

theorem moves_patch (sound : row.Sound) (chosen : statement.chosen row = true)
    (fits : statement.Fits row) : row.Moves (statement.patch clock row) := by
  unfold Row.Moves
  cases statement with
  | activateTemporaryPendingUpload saved access marker completedAt =>
      have marked := (Access.pendingUploadWhere_eq_true.mp chosen).2.2.2.1
      have pending := (sound.temporary fits.1 fits.2).2 (by simp [marked])
      exact .inr (.inr (.inr (.inl ⟨pending, rfl, fits.1, fits.2⟩)))
  | claimCompletion snapshot access marker etag =>
      simp only [Statement.chosen, Bool.and_eq_true, decide_eq_true_eq] at chosen
      exact .inr (.inl ⟨chosen.1.2, rfl⟩)
  | finalizeCompletion snapshot access marker completedAt etag checksum drop =>
      simp only [Statement.chosen, Bool.and_eq_true, decide_eq_true_eq] at chosen
      exact .inr (.inr (.inl ⟨chosen.1.2, rfl⟩))
  | claimAbort snapshot access claim =>
      refine .inr (.inr (.inr (.inr ⟨?_, rfl⟩)))
      obtain ⟨unready, unfailed⟩ := fits
      cases status : row.status <;> simp_all
  | claimExpiredDirectUpload snapshot claim =>
      refine .inr (.inr (.inr (.inr ⟨?_, rfl⟩)))
      obtain ⟨unready, unfailed⟩ := fits
      cases status : row.status <;> simp_all
  | claimById current access claim =>
      simp only [Statement.chosen, Bool.and_eq_true, decide_eq_true_eq] at chosen
      simp only [patch, chosen.1.2]
      cases current.status <;> simp
  | _ => exact .inl rfl

theorem stamped_patch (sound : row.Sound) (chosen : statement.chosen row = true)
    (fits : statement.Fits row) : row.Stamped (statement.patch clock row) := by
  intro written
  cases statement with
  | activateTemporaryPendingUpload saved access marker completedAt =>
      have marked := (Access.pendingUploadWhere_eq_true.mp chosen).2.2.2.1
      have pending := (sound.temporary fits.1 fits.2).2 (by simp [marked])
      have unready : row.status ≠ .ready := by simp [pending]
      obtain ⟨completedAt, expiredAt⟩ := sound.unfinished unready
      exact ⟨completedAt, expiredAt, unready, rfl⟩
  | finalizeCompletion snapshot access marker completedAt etag checksum drop =>
      simp only [Statement.chosen, Bool.and_eq_true, decide_eq_true_eq] at chosen
      have unready : row.status ≠ .ready := by simp [chosen.1.2]
      obtain ⟨completedAt, expiredAt⟩ := sound.unfinished unready
      exact ⟨completedAt, expiredAt, unready, rfl⟩
  | _ => simp [patch] at written

end Statement

variable {config : Config}

/-! ## At most one finalising UPDATE -/

def Statement.isFinalize : Statement → Bool
  | .finalizeCompletion .. => true
  | _ => false

/-- The event carried out a finalising UPDATE on the row with this id. -/
def finalises (id : Uuid) (event : Event (system config)) : Bool :=
  match statementOf event with
  | some (_, statement) =>
      statement.isFinalize &&
        (World.table event.before).rows.any fun row =>
          decide (row.id = id) && statement.chosen row
  | none => false

theorem finalises_eq_true {id : Uuid} {event : Event (system config)} :
    finalises id event = true ↔ ∃ worker statement,
      statementOf event = some (worker, statement) ∧ statement.isFinalize = true ∧
      ∃ row ∈ World.table event.before, row.id = id ∧ statement.chosen row = true := by
  unfold finalises
  cases carried : statementOf event with
  | none => simp
  | some done =>
      simp only [Bool.and_eq_true, List.any_eq_true, decide_eq_true_eq, Option.some.injEq]
      constructor
      · rintro ⟨final, row, member, named, chosen⟩
        exact ⟨done.1, done.2, rfl, final, row, member, named, chosen⟩
      · rintro ⟨worker, statement, rfl, final, row, member, named, chosen⟩
        exact ⟨final, row, member, named, chosen⟩

/-- A finalising UPDATE finds a completing row and leaves it ready. -/
theorem Statement.ready_of_isFinalize {statement : Statement} (final : statement.isFinalize = true)
    {row : Row} (chosen : statement.chosen row = true) (clock : Moment) :
    row.status = .completing ∧ (statement.patch clock row).status = .ready := by
  cases statement with
  | finalizeCompletion snapshot access marker completedAt etag checksum drop =>
      simp only [Statement.chosen, Bool.and_eq_true, decide_eq_true_eq] at chosen
      exact ⟨chosen.1.2, rfl⟩
  | _ => cases final

/-- Per row at most one finalising UPDATE so far, and after it the row is ready. -/
structure Finalised (core : SystemCore config) : Prop extends Clocked core where
  ready : ∀ id, ∀ event ∈ core.history, finalises id event = true →
    ∃ row ∈ core.world.table, row.id = id ∧ row.status = .ready
  single : ∀ id, (core.history.filter (finalises id)).length ≤ 1

theorem finalised_keeps (config : Config) :
    Keeps (discipline config.toDeployment) (fun _ _ => True) (@Finalised config) where
  credible finalised := (known_keeps config).credible finalised.toKnown
  admits finalised admitted := by
    rename_i core act core'
    have forward := finalised.toKnown.forward admitted
    have old : ∀ id, ∀ event ∈ core.history, finalises id event = true →
        ∃ row ∈ core'.world.table, row.id = id ∧ row.status = .ready := by
      intro id event member final
      obtain ⟨row, there, named, ready⟩ := finalised.ready id event member final
      obtain ⟨row', there', later⟩ := forward.later row there
      exact ⟨row', there', later.sameFile.id.trans named, later.ready ready⟩
    refine ⟨(clocked_keeps config).admits finalised.toClocked admitted, ?_, ?_⟩
    · intro id event member final
      rw [admitted.history] at member
      rcases List.mem_cons.mp member with rfl | older
      · obtain ⟨worker, statement, carried, isFinal, row, there, named, chosen⟩ :=
          finalises_eq_true.mp final
        have world := (finalised.applied admitted carried).1
        refine ⟨statement.patch core.world.timestamp row, ?_, by simp [named],
          (Statement.ready_of_isFinalize isFinal chosen _).2⟩
        rw [world]
        exact World.mem_apply.mpr ⟨row, there, by rw [if_pos chosen]⟩
      · exact old id event older final
    · intro id
      rw [admitted.history, List.filter_cons]
      split
      · rename_i final
        obtain ⟨worker, statement, -, isFinal, row, there, named, chosen⟩ :=
          finalises_eq_true.mp final
        have none : core.history.filter (finalises id) = [] := by
          refine List.filter_eq_nil_iff.mpr fun event member already => ?_
          obtain ⟨row', there', named', ready⟩ := finalised.ready id event member already
          have itself : row' = row := Keyed.eq_of_key there' there (named'.trans named.symm)
          rw [itself, (Statement.ready_of_isFinalize isFinal chosen ⟨0, 0⟩).1] at ready
          cases ready
        rw [none]
        exact Nat.le_refl 1
      · exact finalised.single id

theorem finalised_of_reachable {time : Int} {state : SystemConfig config}
    (reached : Reachable config time state) :
    Maintained (launch config) (discipline config.toDeployment) Finalised state := by
  refine Reach.keeps (finalised_keeps config) (launch_follows config) ?_ reached
  exact ⟨clocked_initial time, fun _ _ member => absurd member List.not_mem_nil,
    fun _ => Nat.zero_le 1⟩

/-! ## The status machine -/

/-- What one act may do to one row. -/
theorem Clocked.moves_and_stamps {core core' : SystemCore config} {act : Act (system config)}
    {ok : SystemCore config → Act (system config) → Prop} (clocked : Clocked core)
    (admitted : Core.Admits (discipline config.toDeployment) ok core act core') {row row' : Row}
    (member : row ∈ core.world.table) (member' : row' ∈ core'.world.table)
    (same : row'.id = row.id) : row.Moves row' ∧ row.Stamped row' := by
  rcases clocked.row_step admitted member member' same with rfl |
    ⟨worker, statement, -, chosen, ⟨past, suffix, allowed⟩, rfl⟩
  · exact ⟨.inl rfl, fun written => by simp at written⟩
  · have sound := clocked.good.sound row member
    have fits := World.fits_of_rooted (clocked.toKnown.rooted suffix allowed) member chosen
    exact ⟨Statement.moves_patch _ sound chosen fits, Statement.stamped_patch _ sound chosen fits⟩

/-- The act of a step carried out an UPDATE under the lease `marker`, and its worker was granted
that marker for the row. -/
def UnderLease (state : SystemConfig config) (label : SystemLabel config) (id : Uuid)
    (marker : Int) : Prop :=
  ∃ act worker statement, state.act label = some act ∧
    statementOf ⟨act, state.core.world⟩ = some (worker, statement) ∧
    statement.leaseMarker = some marker ∧ LeaseGranted (state.core.pastOf worker) id marker

/-- The **upload status machine**: in every reachable state, for every next step. -/
theorem upload_status_machine {time : Int} {state : SystemConfig config}
    (reached : Reachable config time state) :
    (∀ label state', state.step (launch config) label = some state' →
      ∀ row ∈ state.core.world.table, ∀ row' ∈ state'.core.world.table, row'.id = row.id →
        row.Moves row' ∧ row.Stamped row' ∧
        ∀ marker, row.status = .completing → row.uploadPendingAt = some marker →
          (∀ host, state.core.world.clock host < marker) → row' ≠ row →
            UnderLease state label row.id marker) ∧
    (∀ id, (state.core.history.filter (finalises id)).length ≤ 1) ∧
    ∀ row ∈ state.core.world.table, row.status = .ready → row.isTemporary = true →
      row.visibility = .privateFile ∧ ∃ completedAt, row.completedAt = some completedAt ∧
        row.expiredAt = some (completedAt + 24 * 60 * 60 * 1000) := by
  have maintained := finalised_of_reachable reached
  have clocked := maintained.inv.toClocked
  refine ⟨?_, maintained.inv.single, ?_⟩
  · intro label state' stepped row member row' member' same
    rcases admits_of_step maintained stepped with idle | ⟨act, acted, admitted⟩
    · rw [idle] at member'
      have unchanged : row' = row := Keyed.eq_of_key member' member same
      subst unchanged
      exact ⟨.inl rfl, fun written => by simp at written,
        fun _ _ _ _ changed => absurd rfl changed⟩
    · obtain ⟨moves, stamped⟩ := clocked.moves_and_stamps admitted member member' same
      refine ⟨moves, stamped, fun marker completing marked future changed => ?_⟩
      obtain ⟨worker, statement, carried, lease, granted⟩ :=
        clocked.changed_under_lease admitted member member' same completing marked future changed
      exact ⟨act, worker, statement, acted, carried, lease, granted⟩
  · intro row member ready temporary
    have sound := clocked.good.sound row member
    exact ⟨sound.hidden temporary, sound.lifetime ready temporary⟩

/-! ## Two completions under one marker -/

/-- The worker whose claim of the completion took effect last. -/
def leaseHolder (id : Uuid) (history : List (Event (system config))) : Option Worker :=
  history.findSome? fun event =>
    match statementOf event with
    | some (worker, .claimCompletion snapshot access marker etag) =>
        if (World.table event.before).rows.any fun row => decide (row.id = id) &&
          (Statement.claimCompletion snapshot access marker etag).chosen row
        then some worker else none
    | some (worker, .reclaimCompletion snapshot access marker etag) =>
        if (World.table event.before).rows.any fun row => decide (row.id = id) &&
          (Statement.reclaimCompletion snapshot access marker etag).chosen row
        then some worker else none
    | _ => none

/-- A direct upload to S3, stored by the client. -/
def stagedUpload : List (SystemLabel (smallConfig .s3)) :=
  .spawn 0 (.initiateUpload smallCaller ⟨"a.txt", "text/plain", 2, none⟩) :: answering 0 4 ++
    [.move (.clientPut ⟨.pending, "t", 0, "a.txt"⟩
      { body := [1, 2], contentType := some "text/plain", uploadId := some 0 })]

theorem upload_status_machine_completed :
    ∃ state : SystemConfig (smallConfig .s3), Reachable (smallConfig .s3) 0 state ∧
      state.core.world.table.rows.map Row.status = [.ready] ∧
      (∀ id, (state.core.history.filter (finalises id)).length ≤ 1) := by
  have observed : (after (smallConfig .s3) (stagedUpload ++ .spawn 0 (.completeUpload smallCaller (some 0)) :: answering 1 9)).map
      (fun state => state.core.world.table.rows.map Row.status) = some [Status.ready] := by
    decide +kernel
  obtain ⟨state, followed, statuses⟩ := Option.map_eq_some_iff.mp observed
  have reached := reachable_after followed
  exact ⟨state, reached, statuses, (upload_status_machine reached).2.1⟩

/-- The finalising UPDATE of a first completion throws and stays under way; the row is marked
retryable and a second completion is granted a lease within the same millisecond. -/
def leaseReused : List (SystemLabel (smallConfig .s3)) :=
  stagedUpload ++ .spawn 0 (.completeUpload smallCaller (some 0)) :: answering 1 8 ++
    [.issue .defer 1] ++ answering 1 3 ++
    .spawn 0 (.completeUpload smallCaller (some 0)) :: answering 2 4

/-- What is seen of a row in a state and of the step that lets the first late call land. -/
structure LateView where
  rows : List (Status × Option Int)
  databaseClock : Int
  processClock : Int
  holder : Option Worker
  author : Option Worker
  after : Option (List Status)
deriving DecidableEq

def lateView (state : SystemConfig (smallConfig .s3)) : LateView where
  rows := state.core.world.table.rows.map fun row => (row.status, row.uploadPendingAt)
  databaseClock := state.core.world.clock .database
  processClock := state.core.world.clock (.process 0)
  holder := leaseHolder 0 state.core.history
  author := (state.act (.land 0 : SystemLabel (smallConfig .s3))).bind fun act =>
    (statementOf ⟨act, state.core.world⟩).map Prod.fst
  after := (state.step (launch (smallConfig .s3)) (.land 0)).map fun state' =>
    state'.core.world.table.rows.map Row.status

/-- The row is completing under a lease that ends 15 minutes ahead on every clock, held by
thread 2; an UPDATE of thread 1 makes it ready. -/
theorem lease_reused_within_a_millisecond :
    ∃ state : SystemConfig (smallConfig .s3), Reachable (smallConfig .s3) 0 state ∧
      lateView state =
        { rows := [(.completing, some 900000)]
          databaseClock := 0
          processClock := 0
          holder := some ⟨0, 2⟩
          author := some ⟨0, 1⟩
          after := some [.ready] } := by
  have observed : (after (smallConfig .s3) leaseReused).map lateView = some
        { rows := [(.completing, some 900000)]
          databaseClock := 0
          processClock := 0
          holder := some ⟨0, 2⟩
          author := some ⟨0, 1⟩
          after := some [.ready] } := by
    decide +kernel
  obtain ⟨state, followed, seen⟩ := Option.map_eq_some_iff.mp observed
  exact ⟨state, reachable_after followed, seen⟩

end SdcoreNest.UploadedFile
