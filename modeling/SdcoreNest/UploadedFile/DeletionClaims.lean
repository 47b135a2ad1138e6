/-
# UploadedFile.DeletionClaims -- who holds a deletion claim, and who wrote it

`Statement.marks` is what a statement writes to `deletionPendingAt`; `lastMark` and
`lastWriter` read off a history who wrote it most recently, `erasedSince` whether that
worker has deleted the row's objects since.  `heldClaim` is the claim a worker holds on a row
by its own steps.  A claim held after a step was held before, or was granted in it
(`heldClaim_step`).
-/
import SdcoreNest.UploadedFile.Leases

namespace SdcoreNest.UploadedFile

open SdcoreNest.Theory
open SdcoreNest.Theory.Machine

set_option autoImplicit false

variable {config : Config}

/-! ## Writes of the deletion marker -/

/-- The value a statement writes to `deletionPendingAt`, if it writes one. -/
def Statement.marks : Statement → Option (Option Int)
  | .releaseDeletionClaim _ _ _ retryAt => some (some retryAt)
  | .clearFinalizedDeletionClaim _ _ _ => some none
  | .retireUploadTombstone _ retryAt => some (some retryAt)
  | statement => statement.claims.map fun (_, claim, _) => some claim

theorem Statement.marks_of_claims {statement : Statement} {rows : List Row} {claim : Int}
    {access : Option Access} (claims : statement.claims = some (rows, claim, access)) :
    statement.marks = some (some claim) := by
  cases statement <;> simp_all [Statement.claims, Statement.marks]

theorem Statement.deletionPendingAt_patch (clock : Moment) (statement : Statement) (row : Row) :
    (statement.patch clock row).deletionPendingAt =
      statement.marks.getD row.deletionPendingAt := by
  cases statement <;> rfl

/-- What an event wrote to `deletionPendingAt` of a row, and whose write it was. -/
def written (id : Uuid) (event : Event (system config)) : Option (Worker × Option Int) :=
  match statementOf event with
  | some (worker, statement) =>
      if (World.table event.before).rows.any fun row => decide (row.id = id) &&
        statement.chosen row
      then statement.marks.map (worker, ·) else none
  | none => none

/-- The most recent write of `deletionPendingAt` on a row. -/
def lastMark (id : Uuid) (history : List (Event (system config))) :
    Option (Worker × Option Int) :=
  history.findSome? (written id)

/-- The worker that wrote this value to `deletionPendingAt` of a row most recently. -/
def lastWriter (id : Uuid) (value : Int) (history : List (Event (system config))) :
    Option Worker :=
  history.findSome? fun event => match written id event with
    | some (worker, some value') => if value' = value then some worker else none
    | _ => none

/-- The worker's delete of all these keys was answered. -/
def erases (worker : Worker) (keys : List StorageKey) (event : Event (system config)) : Bool :=
  match event.act with
  | .issue .answer author (.delete erased) =>
      decide (author = worker) && keys.all fun key => decide (key ∈ erased)
  | _ => false

/-- Since the most recent write of `deletionPendingAt` on the row, the worker's delete of all
these keys was answered. -/
def erasedSince (id : Uuid) (worker : Worker) (keys : List StorageKey) :
    List (Event (system config)) → Bool
  | [] => false
  | event :: older => (written id event).isNone &&
      (erases worker keys event || erasedSince id worker keys older)

section Cons

variable (id : Uuid) (event : Event (system config)) (older : List (Event (system config)))

theorem lastMark_cons : lastMark id (event :: older) =
    match written id event with
    | some mark => some mark
    | none => lastMark id older := by
  unfold lastMark
  rw [List.findSome?_cons]
  split <;> simp_all

theorem lastWriter_cons (value : Int) : lastWriter id value (event :: older) =
    match written id event with
    | some (worker, some value') =>
        if value' = value then some worker else lastWriter id value older
    | _ => lastWriter id value older := by
  unfold lastWriter
  rw [List.findSome?_cons]
  split
  · rename_i writer found
    split at found
    · split at found
      · cases found
        simp_all
      · cases found
    · cases found
  · rename_i found
    split at found
    · split at found
      · cases found
      · simp_all
    · rfl

end Cons

theorem lastMark_eq_none {id : Uuid} {history : List (Event (system config))}
    (unwritten : ∀ event ∈ history, written id event = none) : lastMark id history = none :=
  List.findSome?_eq_none_iff.mpr unwritten

/-- Who wrote the marker most recently is the most recent writer of its value. -/
theorem lastWriter_of_lastMark {id : Uuid} {worker : Worker} {value : Int}
    {history : List (Event (system config))}
    (mark : lastMark id history = some (worker, some value)) :
    lastWriter id value history = some worker := by
  induction history with
  | nil => cases mark
  | cons event older ih =>
      rw [lastMark_cons] at mark
      rw [lastWriter_cons]
      cases wrote : written id event with
      | none =>
          rw [wrote] at mark
          exact ih mark
      | some done =>
          rw [wrote, Option.some.injEq] at mark
          subst mark
          exact if_pos rfl

theorem written_eq_some {id : Uuid} {event : Event (system config)} {worker : Worker}
    {value : Option Int} :
    written id event = some (worker, value) ↔ ∃ statement,
      statementOf event = some (worker, statement) ∧ statement.marks = some value ∧
      ∃ row ∈ World.table event.before, row.id = id ∧ statement.chosen row = true := by
  unfold written
  cases carried : statementOf event with
  | none => simp
  | some done =>
      obtain ⟨author, statement⟩ := done
      simp only [Option.ite_none_right_eq_some, List.any_eq_true, Bool.and_eq_true,
        decide_eq_true_eq, Option.map_eq_some_iff, Prod.mk.injEq, Option.some.injEq]
      constructor
      · rintro ⟨⟨row, member, named, chosen⟩, value', marks, rfl, rfl⟩
        exact ⟨statement, ⟨rfl, rfl⟩, marks, row, member, named, chosen⟩
      · rintro ⟨statement', ⟨rfl, rfl⟩, marks, row, member, named, chosen⟩
        exact ⟨⟨row, member, named, chosen⟩, value, marks, rfl, rfl⟩

/-- A row that no statement chose is not written. -/
theorem written_of_unchosen {core : SystemCore config} {act : Act (system config)} {row : Row}
    (member : row ∈ core.world.table)
    (unchosen : ∀ worker statement,
      statementOf ⟨act, core.world⟩ = some (worker, statement) → statement.chosen row = false) :
    written row.id ⟨act, core.world⟩ = none := by
  refine Option.eq_none_iff_forall_ne_some.mpr fun ⟨worker, value⟩ wrote => ?_
  obtain ⟨statement, carried, -, other, there, named, chosen⟩ := written_eq_some.mp wrote
  rw [Keyed.eq_of_key there member named, unchosen worker statement carried] at chosen
  cases chosen

theorem written_of_chosen {core : SystemCore config} {act : Act (system config)} {row : Row}
    (member : row ∈ core.world.table) {worker : Worker} {statement : Statement}
    (carried : statementOf ⟨act, core.world⟩ = some (worker, statement))
    (chosen : statement.chosen row = true) :
    written row.id ⟨act, core.world⟩ = statement.marks.map (worker, ·) := by
  have named : (World.table core.world).rows.any (fun other =>
      decide (other.id = row.id) && statement.chosen other) = true :=
    List.any_eq_true.mpr ⟨row, member, by simp [chosen]⟩
  simp only [written, carried]
  exact if_pos named

/-! ## Clocks and values drawn from them -/

theorem exec_clock {deployment : Deployment} {world : World} {worker : Worker} {call : Call} :
    (exec deployment world worker call).2.clock = world.clock := by
  cases call with
  | transact statement count =>
      simp only [exec]
      split <;> rfl
  | putObject key object =>
      simp only [exec]
      split <;> rfl
  | uploadSigned key object =>
      simp only [exec]
      split <;> rfl
  | copyObject source destination sourceEtag =>
      simp only [exec]
      split
      · split <;> rfl
      · rfl
  | link source destination =>
      simp only [exec]
      split <;> rfl
  | unlink key =>
      simp only [exec]
      split <;> rfl
  | _ => rfl

/-- All clocks advance together unless one drifts. -/
theorem move_clock {deployment : Deployment} {world world' : World} {m : Move}
    (moved : move deployment world m = some world') (agreed : ∀ host ms, m ≠ .drift host ms) :
    ∃ ms : Nat, ∀ host, world'.clock host = world.clock host + ms := by
  cases m with
  | advance ms =>
      cases moved
      exact ⟨ms, fun _ => rfl⟩
  | drift host ms => exact absurd rfl (agreed host ms)
  | clientPut key object =>
      simp only [move] at moved
      split at moved
      · cases moved
        exact ⟨0, fun host => (Int.add_zero _).symm⟩
      · cases moved

theorem World.claimAt_lease (world : World) (process : Nat) (expected : Option Int) :
    world.clock (.process process) + deletionClaimLeaseMs ≤ world.claimAt process expected :=
  Int.le_trans (Int.le_max_left _ _) (Int.le_max_left _ _)

theorem World.claimAt_expected (world : World) (process : Nat) (expected : Int) :
    expected + 1 ≤ world.claimAt process (some expected) :=
  Int.le_max_right _ _

/-! ## Who holds what -/

/-- The claim a worker holds on a row. -/
def heldClaim (core : SystemCore config) (id : Uuid) (worker : Worker) : Option Int :=
  (holding (core.pastOf worker)).bind fun hold =>
    if id ∈ hold.rows.map Row.id then some hold.claim else none

theorem heldClaim_eq_some {core : SystemCore config} {id : Uuid} {worker : Worker} {claim : Int} :
    heldClaim core id worker = some claim ↔
      ∃ hold, holding (core.pastOf worker) = some hold ∧ id ∈ hold.rows.map Row.id ∧
        hold.claim = claim := by
  unfold heldClaim
  cases holding (core.pastOf worker) with
  | none => simp
  | some hold =>
      simp only [Option.bind_some, Option.ite_none_right_eq_some, Option.some.injEq,
        exists_eq_left']

/-- The holder of a claim, from its own steps. -/
theorem heldClaim_of_holding {core : SystemCore config} {id : Uuid} {worker : Worker}
    {rows : List Row} {claim : Int} {access : Option Access} {phase : Phase}
    (holds : holding (core.pastOf worker) = some ⟨rows, claim, access, phase⟩)
    (inside : id ∈ rows.map Row.id) : heldClaim core id worker = some claim :=
  heldClaim_eq_some.mpr ⟨_, holds, inside, rfl⟩

/-! ## What one step does to who holds what -/

/-- The statement of a database call. -/
def Call.statement : Call → Option Statement
  | .update statement => some statement
  | .transact statement _ => some statement
  | _ => none

/-- A worker that issues a claim, or gives its claim up, holds afterwards what it was granted. -/
theorem holding_of_marks {call : Call} {reply : Option call.Answer} {past : Past}
    {statement : Statement} (asks : call.statement = some statement)
    (marks : statement.marks ≠ none)
    (active : ∀ row retryAt, statement ≠ .retireUploadTombstone row retryAt) {hold : Hold}
    (held : holding (⟨call, reply⟩ :: past) = some hold) :
    statement.claims = some (hold.rows, hold.claim, hold.access) ∧ hold.phase = .claimed := by
  have updated : ∀ count, Hold.afterUpdate statement count (holding past) = some hold →
      statement.claims = some (hold.rows, hold.claim, hold.access) ∧ hold.phase = .claimed := by
    intro count after
    unfold Hold.afterUpdate at after
    split at after
    · rename_i rows claim access claims
      split at after
      · cases after
        exact ⟨claims, rfl⟩
      · cases after
    · rename_i unclaimed
      cases statement with
      | releaseDeletionClaim rows claim access retryAt => cases after
      | clearFinalizedDeletionClaim rows claim access => cases after
      | retireUploadTombstone row retryAt => exact absurd rfl (active row retryAt)
      | _ => exact absurd (by simp [Statement.marks, unclaimed]) marks
  cases call with
  | update statement' =>
      cases asks
      exact updated reply held
  | transact statement' count =>
      cases asks
      cases reply with
      | none => exact updated none held
      | some granted =>
          cases granted with
          | true => exact updated (some count) held
          | false => exact updated none held
  | _ => cases asks

theorem touched_of_heldClaim {core : SystemCore config} (known : Known core) {row : Row}
    (member : row ∈ core.world.table) {worker : Worker} {claim : Int}
    (held : heldClaim core row.id worker = some claim) : row.touched = true := by
  obtain ⟨hold, holds, inside, -⟩ := heldClaim_eq_some.mp held
  obtain ⟨held', there, named⟩ := List.mem_map.mp inside
  obtain ⟨current, present, claimed⟩ :=
    known.held worker _ hold (List.suffix_refl _) holds held' there
  rw [Keyed.eq_of_key member present (named.symm.trans claimed.file.id.symm)]
  exact claimed.touched

/-- A claim granted in full chose every row it names. -/
theorem chosen_of_granted {world : World} {statement : Statement} {rows : List Row} {claim : Int}
    {access : Option Access} (claims : statement.claims = some (rows, claim, access))
    (counted : world.affected statement = rows.length) {row : Row}
    (member : row ∈ world.table) (inside : row.id ∈ rows.map Row.id) :
    statement.chosen row = true := by
  obtain ⟨other, there, chosen, named⟩ := Keyed.chosen_of_count
    (fun other _ chosen => Statement.id_of_claims claims chosen)
    (by rw [List.length_map]; exact counted) inside
  rw [← Keyed.eq_of_key there member named]
  exact chosen

section Step

variable {core core' : SystemCore config} {act : Act (system config)}
  {ok : SystemCore config → Act (system config) → Prop}
  (admitted : Core.Admits (discipline config.toDeployment) ok core act core')

include admitted

/-- A claim held after a step was held before, or was granted in it. -/
theorem heldClaim_step {id : Uuid} {worker : Worker} {claim : Int}
    (held : heldClaim core' id worker = some claim) :
    heldClaim core id worker = some claim ∨ ∃ statement rows access,
      statementOf ⟨act, core.world⟩ = some (worker, statement) ∧
      statement.claims = some (rows, claim, access) ∧ id ∈ rows.map Row.id ∧
      core.world.affected statement = rows.length := by
  obtain ⟨hold, holds, inside, rfl⟩ := heldClaim_eq_some.mp held
  rcases admitted.pastOf_cases worker with same | ⟨mode, call, acted, grown, allows⟩
  · rw [same] at holds
    exact .inl (heldClaim_eq_some.mpr ⟨hold, holds, inside, rfl⟩)
  · rw [grown] at holds
    rcases holding_cons holds with ⟨old, before, rows, claim, -⟩ | ⟨statement, claims, -, granted⟩
    · exact .inl (heldClaim_eq_some.mpr ⟨old, before, rows ▸ inside, claim⟩)
    · obtain ⟨-, counted, -⟩ := Known.granted_of_step allows granted
      refine .inr ⟨statement, hold.rows, hold.access, ?_, claims, inside, counted⟩
      rcases granted with step | step
      · obtain ⟨rfl, rfl, -⟩ := answered_of_step step.symm
        rw [acted]
        rfl
      · obtain ⟨rfl, rfl, -⟩ := answered_of_step step.symm
        rw [acted]
        simp [statementOf, Act.performed, ran, counted]

/-- A row that no statement chose: its holders were holders before. -/
theorem heldClaim_of_unchosen {row : Row} (member : row ∈ core.world.table)
    (unchosen : ∀ worker statement,
      statementOf ⟨act, core.world⟩ = some (worker, statement) → statement.chosen row = false)
    {worker : Worker} {claim : Int} (held : heldClaim core' row.id worker = some claim) :
    heldClaim core row.id worker = some claim := by
  rcases heldClaim_step admitted held with old | ⟨statement, rows, access, carried, claims,
    inside, counted⟩
  · exact old
  · have chosen := chosen_of_granted claims counted member inside
    rw [unchosen worker statement carried] at chosen
    cases chosen

/-- A row a worker has seen was seen before, or is in the table. -/
theorem seen_cases {worker : Worker} {row : Row} (seen : Seen (core'.pastOf worker) row) :
    Seen (core.pastOf worker) row ∨ row ∈ core'.world.table := by
  cases admitted with
  | issue allows alive enabled met => exact Known.seen_new seen
  | land found met => exact .inl (by simpa using seen)
  | crash met => exact .inl (by simpa using seen)
  | move moved met => exact .inl (by simpa using seen)

end Step

/-! ## Statements on a row whose deletion has begun -/

/-- The statements that can choose a row whose deletion has begun. -/
inductive Statement.OnTouched : Statement → Prop where
  | settleFailedUpload (current : Row) (access : Access) (claim : Int) :
      OnTouched (.settleFailedUpload current access claim)
  | releaseDeletionClaim (rows : List Row) (claim : Int) (access : Option Access)
      (retryAt : Int) : OnTouched (.releaseDeletionClaim rows claim access retryAt)
  | finalizePendingRows (rows : List Row) (claim : Int) (access : Option Access) :
      OnTouched (.finalizePendingRows rows claim access)
  | clearFinalizedDeletionClaim (rows : List Row) (claim : Int) (access : Option Access) :
      OnTouched (.clearFinalizedDeletionClaim rows claim access)
  | claimExpiredDirectUpload (row : Row) (claim : Int) :
      OnTouched (.claimExpiredDirectUpload row claim)
  | claimPendingDeletion (row : Row) (claim : Int) : OnTouched (.claimPendingDeletion row claim)
  | retireUploadTombstone (row : Row) (retryAt : Int) :
      OnTouched (.retireUploadTombstone row retryAt)

theorem Statement.onTouched {statement : Statement} {row : Row}
    (chosen : statement.chosen row = true) (touched : row.touched = true) :
    statement.OnTouched := by
  rw [Row.touched_eq_true] at touched
  cases statement with
  | settleFailedUpload current access claim => exact .settleFailedUpload current access claim
  | releaseDeletionClaim rows claim access retryAt =>
      exact .releaseDeletionClaim rows claim access retryAt
  | finalizePendingRows rows claim access => exact .finalizePendingRows rows claim access
  | clearFinalizedDeletionClaim rows claim access =>
      exact .clearFinalizedDeletionClaim rows claim access
  | claimExpiredDirectUpload snapshot claim => exact .claimExpiredDirectUpload snapshot claim
  | claimPendingDeletion snapshot claim => exact .claimPendingDeletion snapshot claim
  | retireUploadTombstone snapshot retryAt => exact .retireUploadTombstone snapshot retryAt
  | _ =>
      simp_all [Statement.chosen, Access.active_eq_true, Row.visible_eq_true,
        Access.lifecycleWhere_eq_true, Access.pendingUploadWhere_eq_true, unusedBefore_eq_true]

/-- A statement on a row whose deletion has not begun does not mark it deleted. -/
theorem Statement.deletedAt_patch_untouched (clock : Moment) {statement : Statement} {row : Row}
    (chosen : statement.chosen row = true) (untouched : row.touched = false) :
    (statement.patch clock row).deletedAt = none := by
  rw [Row.touched_eq_false] at untouched
  cases statement <;>
    simp_all [Statement.chosen, patch, Row.reopen, pendingDeletionWhere_eq_true]

/-- A write of the deletion marker never marks the row deleted. -/
theorem Statement.deletedAt_of_marks {clock : Moment} {statement : Statement} {row : Row}
    (marks : statement.marks ≠ none) {moment : Moment}
    (deleted : (statement.patch clock row).deletedAt = some moment) :
    row.deletedAt = some moment := by
  cases statement with
  | finalizePendingRows rows claim access => exact absurd rfl marks
  | _ =>
      simp only [patch, Row.reopen] at deleted
      first
        | exact deleted
        | (split at deleted <;> first | exact deleted | cases deleted)

/-- A claim that matched the markers of a snapshot leaves the row undeleted. -/
theorem Row.reopen_sameMarkers {snapshot row : Row} (same : snapshot.sameMarkers row = true) :
    snapshot.reopen row = none := by
  obtain ⟨-, deleted, -, -⟩ := Row.sameMarkers_eq_true.mp same
  unfold Row.reopen
  split
  · rfl
  · rename_i open_
    rw [deleted]
    simpa using open_

end SdcoreNest.UploadedFile
