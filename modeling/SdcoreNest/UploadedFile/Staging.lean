/-
# UploadedFile.Staging -- staging keys that no sweep will visit

A signed upload URL lets the client store an object at the staging key until
`uploadExpiredAt`, whatever the database says by then.  So until then the row has to keep
something a sweep selects on.  It does not: a deletion that is closed early leaves a row
without markers.  In every run that closes deletions of direct uploads only after their
URL ran out, every staging key that can still be written is visited later.
-/
import SdcoreNest.UploadedFile.DeletionClaims
import SdcoreNest.UploadedFile.Orphans
import SdcoreNest.UploadedFile.Verification

namespace SdcoreNest.UploadedFile

open SdcoreNest.Theory
open SdcoreNest.Theory.Machine

set_option autoImplicit false

variable {config : Config}

/-- The selections of the sweeps that delete staging objects. -/
def stagingSweeps (now : Int) (take : Nat) : List Query :=
  [.expiredDirectUploads now take, .completedStaging now take, .settledDeletions now take,
    .initialTombstones now take, .retryTombstones now take]

/-- Some sweep selects the row at every late enough time. -/
def SweptLater (keyText : StorageKey → String) (row : Row) : Prop :=
  ∃ moment : Int, ∀ now, moment < now → ∀ take,
    ∃ query ∈ stagingSweeps now take, query.chosen keyText row = true

/-- The URL of the upload has not run out on any clock. -/
def World.Open (world : World) (row : Row) : Prop :=
  ∃ expiry, row.uploadExpiredAt = some expiry ∧ ∀ host, world.clock host < expiry

/-- Every staging key that can still be written is known to a sweep. -/
def StagingReferenced (config : Config) (world : World) : Prop :=
  ∀ row ∈ world.table, world.Open row →
    (∃ key, row.pendingKey = some key) ∧ SweptLater config.keyText row

/-- The condition on runs: a deletion of a direct upload is closed only when its URL ran
out. -/
def ClosesExpired (core : SystemCore config) (act : Act (system config)) : Prop :=
  ∀ worker rows claim access,
    statementOf ⟨act, core.world⟩ = some (worker, .clearFinalizedDeletionClaim rows claim access) →
    ∀ row ∈ core.world.table,
      (Statement.clearFinalizedDeletionClaim rows claim access).chosen row = true →
      ¬ core.world.Open row

/-! ## What a row keeps -/

/-- The row keeps its staging key and something to select on. -/
structure Row.Referenced (row : Row) : Prop where
  staging : row.pendingKey ≠ none
  marked : (row.uploadPendingAt ≠ none ∨ row.deletionPendingAt ≠ none) ∨
    row.status = .ready ∧ row.deletedAt = none

theorem Row.Referenced.sweptLater {row : Row} (referenced : row.Referenced)
    (managed : row.uploadExpiredAt ≠ none) (keyText : StorageKey → String) :
    SweptLater keyText row := by
  by_cases marked : row.uploadPendingAt ≠ none ∨ row.deletionPendingAt ≠ none
  · obtain ⟨moment, visited⟩ : Revisited keyText row := revisited_of_marker marked
    refine ⟨moment, fun now passed take => ?_⟩
    rcases visited now passed take with settled | initial | retried
    · exact ⟨_, by simp [stagingSweeps], settled⟩
    · exact ⟨_, by simp [stagingSweeps], initial⟩
    · exact ⟨_, by simp [stagingSweeps], retried⟩
  · obtain ⟨ready, live⟩ := referenced.marked.resolve_left marked
    obtain ⟨expiry, expires⟩ := Option.ne_none_iff_exists'.mp managed
    obtain ⟨key, staging⟩ := Option.ne_none_iff_exists'.mp referenced.staging
    simp only [not_or, not_not] at marked
    refine ⟨expiry, fun now passed take => ⟨.completedStaging now take, ?_, ?_⟩⟩
    · simp [stagingSweeps]
    · simp [Query.chosen, ready, live, staging, expires, marked.2, passed.le]

/-- Every statement keeps the row referenced, unless it forgets the staging key or closes the
deletion. -/
theorem Row.Referenced.patch {statement : Statement} {row : Row} {driver : Driver} {past : Past}
    (clock : Moment) (referenced : row.Referenced) (managed : row.uploadExpiredAt ≠ none)
    (chosen : statement.chosen row = true) (fits : statement.Fits row)
    (allowed : statement.Allowed driver past) (s3 : driver = .s3)
    (keeps : ∀ snapshot, statement ≠ .clearPendingKey snapshot)
    (open_ : ∀ rows claim access, statement ≠ .clearFinalizedDeletionClaim rows claim access) :
    (statement.patch clock row).Referenced := by
  obtain ⟨staging, marked⟩ := referenced
  cases statement with
  | clearPendingKey snapshot => exact absurd rfl (keeps snapshot)
  | clearFinalizedDeletionClaim rows claim access => exact absurd rfl (open_ rows claim access)
  | activatePendingUpload saved access marker => exact absurd fits.1 managed
  | activateTemporaryPendingUpload saved access marker completedAt => exact absurd fits.1 managed
  | finalizePendingRows rows claim access =>
      refine ⟨staging, .inl (.inr ?_)⟩
      simp [Statement.patch, (pendingDeletionWhere_eq_true.mp chosen).2.2.2.2]
  | finalizeCompletion snapshot access marker completedAt etag checksum drop =>
      have kept : drop = false := by simpa [s3] using allowed.2.2
      simp only [Statement.chosen, Bool.and_eq_true] at chosen
      refine ⟨by simpa [Statement.patch, kept] using staging, .inr ⟨rfl, ?_⟩⟩
      exact (Access.lifecycleWhere_eq_true.mp chosen.1.1).2.2.1
  | markUsed ids access metadata => exact ⟨staging, marked⟩
  | setExtraData id access extraData => exact ⟨staging, marked⟩
  | markCompletionRetryable snapshot access marker retryAt =>
      exact ⟨staging, .inl (.inl (by simp [Statement.patch]))⟩
  | claimCompletion snapshot access marker etag =>
      exact ⟨staging, .inl (.inl (by simp [Statement.patch]))⟩
  | reclaimCompletion snapshot access marker etag =>
      exact ⟨staging, .inl (.inl (by simp [Statement.patch]))⟩
  | _ => exact ⟨staging, .inl (.inr (by simp [Statement.patch]))⟩

/-! ## What a run keeps -/

structure Referencing (core : SystemCore config) : Prop extends Attested core where
  referenced : config.driver = .s3 → ∀ row ∈ core.world.table, core.world.Open row →
    row.Referenced

section

variable {core core' : SystemCore config} {act : Act (system config)}
  {ok : SystemCore config → Act (system config) → Prop}

/-- A URL that has not run out had not run out before. -/
theorem World.Open.before {world world' : World} {row row' : Row} (forward : world.Forward world')
    (same : row'.uploadExpiredAt = row.uploadExpiredAt) (stays : world'.Open row') :
    world.Open row := by
  obtain ⟨expiry, expires, early⟩ := stays
  exact ⟨expiry, same ▸ expires, fun host => Int.lt_of_le_of_lt (forward.clock host) (early host)⟩

/-- The sweep forgets a staging key only when its URL ran out. -/
theorem Attested.expired_of_clearPendingKey (attested : Attested core)
    (admitted : Core.Admits (careful config) ok core act core') {worker : Worker}
    {snapshot row : Row} {past : Past} (suffix : past <:+ core.pastOf worker)
    (allowed : (Statement.clearPendingKey snapshot).Allowed config.driver past)
    (carried : statementOf ⟨act, core.world⟩ = some (worker, .clearPendingKey snapshot))
    (member : row ∈ core.world.table)
    (chosen : (Statement.clearPendingKey snapshot).chosen row = true) : ¬ core.world.Open row := by
  rintro ⟨expiry, expires, early⟩
  obtain ⟨past', suffix', time, read, ranOut⟩ := attested.verified_of_carried admitted carried
  simp only [Statement.chosen, Bool.and_eq_true, decide_eq_true_eq] at chosen
  obtain ⟨current, there, later⟩ :=
    attested.seen worker snapshot (.inr (Read.mono suffix allowed))
  have same : current = row :=
    Keyed.eq_of_key there member (later.sameFile.id.trans chosen.1.1.1.1.symm)
  obtain ⟨moment, expired, passed⟩ := notAfter_eq_true.mp ranOut
  rw [← later.sameFile.uploadExpiredAt, same, expires] at expired
  obtain rfl := Option.some.inj expired
  have clock := attested.clocks worker time (read.mono suffix')
  have := early (.process worker.process)
  omega

/-- One step keeps every open upload referenced. -/
theorem Referencing.step (referencing : Referencing core)
    (admitted : Core.Admits (careful config) ClosesExpired core act core')
    (s3 : config.driver = .s3) {row' : Row} (member' : row' ∈ core'.world.table)
    (stays : core'.world.Open row') : row'.Referenced := by
  have forward := referencing.toKnown.forward (disciplined admitted)
  rcases referencing.toChronicle.row_cases (disciplined admitted) member' with ⟨member, -⟩ |
    ⟨row, member, worker, statement, carried, chosen, ⟨past, suffix, allowed⟩, rfl⟩ |
    ⟨newborn, -⟩
  · exact referencing.referenced s3 row' member (stays.before forward rfl)
  · have same := Statement.patch_sameFile core.world.timestamp statement row
    have opened := stays.before forward same.uploadExpiredAt
    have referenced := referencing.referenced s3 row member opened
    have fits := World.fits_of_rooted (referencing.toKnown.rooted suffix allowed) member chosen
    have managed : row.uploadExpiredAt ≠ none := by
      obtain ⟨expiry, expires, -⟩ := opened
      simp [expires]
    refine referenced.patch _ managed chosen fits allowed s3 ?_ ?_
    · rintro snapshot rfl
      exact referencing.expired_of_clearPendingKey admitted suffix allowed carried member chosen
        opened
    · rintro rows claim access rfl
      exact admitted.met worker rows claim access carried row member chosen opened
  · obtain ⟨expiry, expires, -⟩ := stays
    have managed : row'.uploadExpiredAt ≠ none := by simp [expires]
    refine ⟨newborn.sound.stagingKept managed ?_, .inl (.inl newborn.marked)⟩
    intro ready
    rcases newborn.sound.managed managed newborn.marked with pending | completing
    · simp [ready] at pending
    · simp [ready] at completing

theorem referencing_keeps (config : Config) :
    Keeps (careful config) ClosesExpired (@Referencing config) where
  credible referencing := (attested_keeps config).credible referencing.toAttested
  admits referencing admitted :=
    ⟨((attested_keeps config).weaken fun _ _ _ => trivial).admits referencing.toAttested admitted,
      fun s3 _ member' stays => referencing.step admitted s3 member' stays⟩

theorem referencing_initial (time : Int) :
    Referencing (⟨World.initial time, [], []⟩ : SystemCore config) where
  toAttested := attested_initial time
  referenced _ row member := absurd member (Keyed.not_mem_empty row)

end

/-- **Staging objects stay referenced**: in every run that closes the deletion of a direct
upload only after its URL ran out, every staging key that a client can still write belongs to
a row that some sweep will select. -/
theorem staging_stays_referenced {time : Int} {state : SystemConfig config}
    (s3 : config.driver = .s3) (reached : ReachableIf config ClosesExpired time state) :
    StagingReferenced config state.core.world := by
  have referencing := (Reach.keeps (referencing_keeps config) (launch_careful config)
    (referencing_initial time) reached).inv
  intro row member opened
  have referenced := referencing.referenced s3 row member opened
  obtain ⟨expiry, expires, -⟩ := opened
  exact ⟨Option.ne_none_iff_exists'.mp referenced.staging,
    referenced.sweptLater (by simp [expires]) config.keyText⟩

/-! ## Runs in which no clock drifts -/

/-- The act moves no clock on its own. -/
def driftless (act : Act (system config)) : Bool :=
  match act with
  | .move (.drift _ _) => false
  | _ => true

/-- The clocks began together, so they stay together. -/
theorem clock_of_driftless {time : Int} {state : SystemConfig config}
    (reached : ReachableIf config (fun _ act => driftless act = true) time state) (host : Host) :
    state.core.world.clock host = state.core.world.clock .database := by
  have kept : Keeps (discipline config.toDeployment) (fun _ act => driftless act = true)
      fun core : SystemCore config =>
        Chronicle core ∧ core.world.clock host = core.world.clock .database := by
    refine ((chronicle_keeps config).weaken fun _ _ _ => trivial).and ?_
    intro core act core' _ same admitted _
    cases performed : act.performed with
    | some done =>
        rw [admitted.world_of_performed performed]
        exact ((congrFun exec_clock host).trans same).trans (congrFun exec_clock Host.database).symm
    | none =>
        rcases admitted.world_of_idle performed with idle | ⟨m, rfl, moved⟩
        · rw [idle]
          exact same
        · have together := admitted.met
          cases m with
          | advance ms micros =>
              rw [← Option.some.inj moved]
              show core.world.clock host + ms = core.world.clock .database + ms
              rw [same]
          | drift host ms => cases together
          | clientPut key object =>
              obtain ⟨-, after⟩ := Option.ite_none_right_eq_some.mp moved
              rw [← Option.some.inj after]
              exact same
  exact (Reach.keeps kept (launch_follows config) ⟨chronicle_initial time, rfl⟩ reached).inv.2

/-- Without drift a URL that did not run out at the database did not run out anywhere. -/
theorem open_of_driftless {time : Int} {state : SystemConfig config}
    (reached : ReachableIf config (fun _ act => driftless act = true) time state) {row : Row}
    (opened : row.uploadExpiredAt.any (state.core.world.clock .database < ·) = true) :
    state.core.world.Open row := by
  obtain ⟨expiry, expires, later⟩ := (Option.any_eq_true _ _).mp opened
  refine ⟨expiry, expires, fun host => ?_⟩
  rw [clock_of_driftless reached host]
  exact of_decide_eq_true later

/-- A check that is enough for `ClosesExpired`. -/
def closesExpired (core : SystemCore config) (act : Act (system config)) : Bool :=
  driftless act &&
    match statementOf ⟨act, core.world⟩ with
    | some (_, .clearFinalizedDeletionClaim rows claim access) => core.world.table.rows.all fun row =>
        !(Statement.clearFinalizedDeletionClaim rows claim access).chosen row ||
          !row.uploadExpiredAt.any (core.world.clock .database < ·)
    | _ => true

theorem closesExpired_sound {core : SystemCore config} {act : Act (system config)}
    (checked : closesExpired core act = true) : ClosesExpired core act := by
  rintro worker rows claim access carried row member chosen ⟨expiry, expires, opened⟩
  simp only [closesExpired, carried, Bool.and_eq_true, List.all_eq_true] at checked
  have expired := checked.2 row member
  simp [chosen, expires, opened .database] at expired

def smallInput : InitiateInput := ⟨"a.txt", "text/plain", 2, none⟩

/-- A direct upload is initiated. -/
def oneInitiation : List (SystemLabel (smallConfig .s3)) :=
  .spawn 0 (.initiateUpload smallCaller smallInput) :: answering 0 4

/-- Two hours later another one is, and the first, whose URL ran out, is aborted. -/
def abortedExpired : List (SystemLabel (smallConfig .s3)) :=
  oneInitiation ++ .move (.advance 7200000) ::
    .spawn 0 (.initiateUpload smallCaller smallInput) :: answering 1 4 ++
    .spawn 0 (.abortUpload smallCaller (some 0)) :: answering 2 6

/-- The deletion of the first upload is closed; the second is open and stays referenced. -/
theorem staging_stays_referenced_closed :
    ∃ state : SystemConfig (smallConfig .s3),
      ReachableIf (smallConfig .s3) ClosesExpired 0 state ∧
      (∃ row ∈ state.core.world.table, row.deletedAt ≠ none ∧ row.deletionPendingAt = none) ∧
      (∃ row ∈ state.core.world.table, state.core.world.Open row) ∧
      StagingReferenced (smallConfig .s3) state.core.world := by
  have observed : (after (smallConfig .s3) abortedExpired closesExpired).any (fun state =>
      (state.core.world.table.rows.any fun row =>
        row.deletedAt.isSome && row.deletionPendingAt.isNone) &&
      state.core.world.table.rows.any fun row =>
        row.uploadExpiredAt.any (state.core.world.clock .database < ·)) = true := by
    decide +kernel
  obtain ⟨state, followed, seen⟩ := (Option.any_eq_true _ _).mp observed
  simp only [Bool.and_eq_true, List.any_eq_true, Option.isNone_iff_eq_none,
    Option.isSome_iff_ne_none] at seen
  obtain ⟨⟨closed, member, isClosed⟩, row, member', opened⟩ := seen
  have reached : ReachableIf (smallConfig .s3) ClosesExpired 0 state :=
    reach_follow _ (fun _ _ => closesExpired_sound) .start followed
  have together : ReachableIf (smallConfig .s3) (fun _ act => driftless act = true) 0 state :=
    reach_follow _ (fun _ _ checked => (Bool.and_eq_true_iff.mp checked).1) .start followed
  exact ⟨state, reached, ⟨closed, member, isClosed⟩, ⟨row, member', open_of_driftless together opened⟩,
    staging_stays_referenced rfl reached⟩

/-- An aborted upload, whose client then uses its URL. -/
def abortedThenStored : List (SystemLabel (smallConfig .s3)) :=
  oneInitiation ++ .spawn 1 (.abortUpload smallCaller (some 0)) :: answering 1 6 ++
    [.move (.clientPut ⟨.pending, "t", 0, "a.txt"⟩ { body := [1, 2] })]

/-- Without markers, a deleted row is not selected at any time. -/
theorem not_sweptLater {keyText : StorageKey → String} {row : Row} (deleted : row.deletedAt ≠ none)
    (settled : row.uploadPendingAt = none) (closed : row.deletionPendingAt = none) :
    ¬ SweptLater keyText row := by
  rintro ⟨moment, swept⟩
  obtain ⟨query, sweep, chosen⟩ := swept (moment + 1) (by omega) 0
  simp only [stagingSweeps, List.mem_cons, List.not_mem_nil, or_false] at sweep
  rcases sweep with rfl | rfl | rfl | rfl | rfl <;>
    simp [Query.chosen, settled, closed, deleted] at chosen

theorem staging_forgotten_by_abort :
    ∃ state : SystemConfig (smallConfig .s3), Reachable (smallConfig .s3) 0 state ∧
      ∃ row ∈ state.core.world.table, ∃ key, row.pendingKey = some key ∧
        state.core.world.Open row ∧ state.core.world.Stores key ∧
        ¬ SweptLater (smallConfig .s3).keyText row := by
  have observed : (after (smallConfig .s3) abortedThenStored fun _ => driftless).any (fun state =>
      state.core.world.table.rows.any fun row =>
        row.uploadExpiredAt.any (state.core.world.clock .database < ·) &&
          row.pendingKey.any (fun key => (state.core.world.objects key).isSome) &&
          row.deletedAt.isSome && row.uploadPendingAt.isNone &&
          row.deletionPendingAt.isNone) = true := by
    decide +kernel
  obtain ⟨state, followed, seen⟩ := (Option.any_eq_true _ _).mp observed
  obtain ⟨row, member, facts⟩ := List.any_eq_true.mp seen
  simp only [Bool.and_eq_true, Option.isNone_iff_eq_none, Option.isSome_iff_ne_none, and_assoc] at facts
  obtain ⟨opened, staged, deleted, settled, closed⟩ := facts
  obtain ⟨key, staging, stored⟩ := (Option.any_eq_true _ _).mp staged
  have reached : Reachable (smallConfig .s3) 0 state :=
    reach_follow _ (fun _ _ _ => trivial) .start followed
  have together : ReachableIf (smallConfig .s3) (fun _ act => driftless act = true) 0 state :=
    reach_follow _ (fun _ _ checked => checked) .start followed
  exact ⟨state, reached, row, member, key, staging, open_of_driftless together opened,
    Option.isSome_iff_ne_none.mp stored, not_sweptLater deleted settled closed⟩

end SdcoreNest.UploadedFile
