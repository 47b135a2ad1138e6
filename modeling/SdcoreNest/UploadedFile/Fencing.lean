/-
# UploadedFile.Fencing -- deletion claims fence

Whoever clears the deletion marker of a row has deleted the row's objects under the claim
that was written last.  The argument has two parts: the arithmetic of claims on one row
(`UploadedFile.Ledger`), and the link from the service's steps to it, which is here.

The clocks agree, and the response of an UPDATE may be lost but the UPDATE does not commit
late.  `FairClaims` adds the one thing the code does not see to: the settlement of a
failed upload re-claims a row although its deletion claim may still be running.
`claim_taken_over_while_running` is a run in which that brings an old claim value back.
-/
import SdcoreNest.UploadedFile.DeletionClaims
import SdcoreNest.UploadedFile.Ledger

namespace SdcoreNest.UploadedFile

open SdcoreNest.Theory
open SdcoreNest.Theory.Machine

set_option autoImplicit false

variable {config : Config}

/-! ## The run condition -/

/-- No clock runs ahead alone and no UPDATE commits late; its response may be lost. -/
structure Prompt (_ : SystemCore config) (act : Act (system config)) : Prop where
  agreed : ∀ host ms, act ≠ .move (.drift host ms : Move)
  prompt : ∀ worker statement, act ≠ .issue .defer worker (.update statement) ∧
    ∀ count, act ≠ .issue .defer worker (.transact statement count)

/-- The run condition: besides, a failed upload is settled only when the row's deletion claim
has run out. -/
structure FairClaims (core : SystemCore config) (act : Act (system config)) : Prop
    extends Prompt core act where
  expired : ∀ worker current access claim,
    statementOf ⟨act, core.world⟩ = some (worker, .settleFailedUpload current access claim) →
    ∀ row ∈ core.world.table, (Statement.settleFailedUpload current access claim).chosen row →
      ∀ marker, row.deletionPendingAt = some marker → marker < core.world.clock .database

/-! ## The invariant -/

/-- The millisecond in which the row was marked deleted. -/
def Row.deletedMs (row : Row) : Option Int := row.deletedAt.map Moment.ms

@[simp] theorem Row.deletedMs_eq_none {row : Row} : row.deletedMs = none ↔ row.deletedAt = none :=
  Option.map_eq_none_iff

theorem Row.deletedMs_sameMarkers {snapshot row : Row} (same : snapshot.sameMarkers row = true) :
    row.deletedMs = snapshot.deletedMs := by
  rw [deletedMs, deletedMs, (Row.sameMarkers_eq_true.mp same).2.1, Option.map_map]
  rfl

theorem Row.deletedMs_reopen {snapshot row : Row} (same : snapshot.sameMarkers row = true) :
    (snapshot.reopen row).map Moment.ms = none := by
  rw [Row.reopen_sameMarkers same]
  rfl

/-- The ledger of a row. -/
def ledgerOf (core : SystemCore config) (row : Row) : Ledger where
  now := core.world.clock .database
  pending := row.uploadPendingAt.isSome
  marker := row.deletionPendingAt
  deleted := row.deletedMs
  held := heldClaim core row.id

structure Fenced (core : SystemCore config) : Prop extends Clocked core where
  agree : ∀ host, core.world.clock host = core.world.clock .database
  prompt : ∀ worker statement, (worker, .update statement) ∉ core.deferred ∧
    ∀ count, (worker, .transact statement count) ∉ core.deferred
  seenDeleted : ∀ worker row moment, Seen (core.pastOf worker) row →
    row.deletedMs = some moment → moment ≤ core.world.clock .database
  newest : ∀ worker moment, (core.pastOf worker).head? = some ⟨.now, some moment⟩ →
    ∀ time, ReadClock (core.pastOf worker) time → time ≤ moment
  drawnAbove : ∀ worker mint, minted (core.pastOf worker) = some mint →
    (∀ expected, mint.expected = some expected → expected < mint.claim) ∧
    (∀ time, ReadClock mint.older time → time + deletionClaimLeaseMs ≤ mint.claim) ∧
    ∀ row moment, Read mint.older row → row.deletedMs = some moment →
      moment + deletionClaimLeaseMs ≤ mint.claim
  safe : ∀ row ∈ core.world.table, (ledgerOf core row).Safe
  aimed : ∀ worker mint snapshot marker, minted (core.pastOf worker) = some mint →
    Read mint.older snapshot → snapshot.deletionPendingAt = some marker →
    mint.expected = some marker → ∀ row ∈ core.world.table, row.id = snapshot.id →
    row.deletionPendingAt = some marker → row.uploadPendingAt = snapshot.uploadPendingAt →
    ∀ other claim, other ≠ worker → heldClaim core row.id other = some claim → claim < mint.claim
  pausing : ∀ worker moment, (core.pastOf worker).head? = some ⟨.now, some moment⟩ →
    ∀ row ∈ core.world.table, ∀ claim, heldClaim core row.id worker = some claim →
    row.deletionPendingAt = some claim → ∀ other claim', other ≠ worker →
    heldClaim core row.id other = some claim' → claim' < moment
  marked : ∀ row ∈ core.world.table,
    row.deletionPendingAt = (lastMark row.id core.history).bind Prod.snd
  writer : ∀ row ∈ core.world.table, ∀ worker claim, heldClaim core row.id worker = some claim →
    lastWriter row.id claim core.history = some worker
  erased : ∀ worker hold, holding (core.pastOf worker) = some hold → hold.phase ≠ .claimed →
    ∀ row ∈ core.world.table, row.id ∈ hold.rows.map Row.id →
    row.deletionPendingAt = some hold.claim → erasedSince row.id worker row.keys core.history = true

/-! ## The ledger of a row over one step -/

namespace Fenced

variable {core core' : SystemCore config} {act : Act (system config)} (fenced : Fenced core)

include fenced

section Others

variable {worker : Worker} {row : Row} (member : row ∈ core.world.table)

include member

/-- The claims of others lie below a value that was drawn against the row's marker. -/
theorem others_below {snapshot : Row} {claim : Int}
    (aimed : AimedAt (core.pastOf worker) snapshot claim)
    (same : snapshot.sameMarkers row = true) {marker : Int}
    (marked : row.deletionPendingAt = some marker) {other : Worker} {claim' : Int}
    (different : other ≠ worker) (held : heldClaim core row.id other = some claim') :
    claim' < claim := by
  obtain ⟨mint, drawn, rfl, read, expected⟩ := aimed
  obtain ⟨named, -, uploading, deleting⟩ := Row.sameMarkers_eq_true.mp same
  exact fenced.aimed worker mint snapshot marker drawn read (deleting ▸ marked)
    (expected marker (deleting ▸ marked)) row member named marked uploading other claim'
    different held

/-- A claim on a row whose marker has run out has run out. -/
theorem stale_of_marker {marker : Int} (marked : row.deletionPendingAt = some marker)
    (ended : marker < core.world.clock .database) {other : Worker} {claim : Int}
    (held : heldClaim core row.id other = some claim) : claim < core.world.clock .database := by
  by_cases same : row.deletionPendingAt = some claim
  · rw [marked, Option.some.injEq] at same
    omega
  · exact (fenced.safe row member).stale held same

/-- A row whose deletion has begun and that carries an upload marker carries a claim. -/
theorem marker_of_pending (touched : row.touched = true) (pending : row.uploadPendingAt ≠ none) :
    ∃ marker, row.deletionPendingAt = some marker := by
  refine Option.ne_none_iff_exists'.mp fun unmarked => ?_
  have deleted := (Row.touched_eq_true.mp touched).resolve_right (· unmarked)
  have settled := (fenced.safe row member).finalized (Row.deletedMs_eq_none.not.mpr deleted) unmarked
  simp [ledgerOf, pending] at settled

end Others

variable (admitted : Core.Admits (discipline config.toDeployment) FairClaims core act core')

include admitted

/-- Statements are carried out by their worker at once. -/
theorem carried_cases {worker : Worker} {statement : Statement}
    (carried : statementOf ⟨act, core.world⟩ = some (worker, statement)) :
    ∃ mode call, act = .issue mode worker call ∧ call.statement = some statement ∧
      statement.Allowed config.driver (core.pastOf worker) ∧
      core'.pastOf worker =
        ⟨call, replyIn core.world worker call mode⟩ :: core.pastOf worker := by
  obtain ⟨⟨author, call⟩, performed, running⟩ := Option.bind_eq_some_iff.mp carried
  have asks : author = worker ∧ call.statement = some statement := by
    cases call with
    | update statement' =>
        cases running
        exact ⟨rfl, rfl⟩
    | transact statement' count =>
        simp only [ran] at running
        split at running
        · cases running
          exact ⟨rfl, rfl⟩
        · cases running
    | _ => cases running
  obtain ⟨rfl, asks⟩ := asks
  rcases admitted.performed_cases performed with ⟨allows, -, acted⟩ | ⟨-, late⟩
  · have admitted_ : statement.Allowed config.driver (core.pastOf author) := by
      cases call with
      | update statement' =>
          cases asks
          exact allows
      | transact statement' count =>
          cases asks
          exact allows.1
      | _ => cases asks
    rcases acted with acted | ⟨acted, -⟩ <;> subst acted <;> cases admitted <;>
      exact ⟨_, call, rfl, asks, admitted_, Core.pastOf_issue_self _ _ _ _⟩
  · cases call with
    | update statement' => exact absurd late (fenced.prompt author statement').1
    | transact statement' count => exact absurd late ((fenced.prompt author statement').2 count)
    | _ => cases asks

/-- After a statement that marks a row, its worker holds only what the statement claimed. -/
theorem own_claim {worker : Worker} {statement : Statement}
    (carried : statementOf ⟨act, core.world⟩ = some (worker, statement))
    (marks : statement.marks ≠ none)
    (active : ∀ row retryAt, statement ≠ .retireUploadTombstone row retryAt) {id : Uuid}
    {claim : Int} (held : heldClaim core' id worker = some claim) :
    statement.marks = some (some claim) ∧ statement.claims ≠ none := by
  obtain ⟨mode, call, -, asks, -, grown⟩ := fenced.carried_cases admitted carried
  obtain ⟨hold, holds, -, rfl⟩ := heldClaim_eq_some.mp held
  rw [grown] at holds
  obtain ⟨claims, -⟩ := holding_of_marks asks marks active holds
  exact ⟨Statement.marks_of_claims claims, by simp [claims]⟩

omit fenced in
/-- A claim that somebody else holds after a step was held before. -/
theorem other_claim {worker other : Worker} {statement : Statement}
    (carried : statementOf ⟨act, core.world⟩ = some (worker, statement))
    (different : other ≠ worker) {id : Uuid} {claim : Int}
    (held : heldClaim core' id other = some claim) : heldClaim core id other = some claim := by
  rcases heldClaim_step admitted held with old | ⟨_, _, _, carried', -, -, -⟩
  · exact old
  · rw [carried, Option.some.injEq, Prod.mk.injEq] at carried'
    exact absurd carried'.1.symm different

omit fenced in
/-- A claim held after a statement that claims nothing was held before. -/
theorem kept_claim {worker other : Worker} {statement : Statement}
    (carried : statementOf ⟨act, core.world⟩ = some (worker, statement))
    (claims : statement.claims = none) {id : Uuid} {claim : Int}
    (held : heldClaim core' id other = some claim) : heldClaim core id other = some claim := by
  rcases heldClaim_step admitted held with old | ⟨_, _, _, carried', claims', -, -⟩
  · exact old
  · rw [carried, Option.some.injEq, Prod.mk.injEq] at carried'
    rw [← carried'.2, claims] at claims'
    cases claims'

/-- A statement leaves the clocks alone. -/
theorem clock_of_carried {worker : Worker} {statement : Statement}
    (carried : statementOf ⟨act, core.world⟩ = some (worker, statement)) :
    core'.world.clock .database = core.world.clock .database := by
  rw [(fenced.applied admitted carried).1]
  rfl

end Fenced

/-- A claim that a write of `value` leaves behind: it has run out, it is above the value only
when an upload tombstone is retired, and the row is not deleted from before it ran out. -/
structure Overwritten (core : SystemCore config) (row row' : Row) (value claim : Int) : Prop where
  ended : claim < core.world.clock .database
  behind : Ledger.Behind row'.uploadPendingAt.isSome claim value
  reopened : ∀ {moment}, row'.deletedMs = some moment → claim < moment
  retired : value ≤ claim → row.uploadPendingAt ≠ none

/-- Every claim held on the row after a write of its marker was just granted or is left behind. -/
def LeftBehind (core core' : SystemCore config) (row : Row) (author : Worker)
    (statement : Statement) (value : Int) : Prop :=
  ∀ other claim, heldClaim core' row.id other = some claim →
    (other = author ∧ claim = value ∧ statement.claims ≠ none) ∨
      (heldClaim core row.id other = some claim ∧
        Overwritten core row (statement.patch core.world.timestamp row) value claim)

namespace Fenced

variable {core core' : SystemCore config} {act : Act (system config)} (fenced : Fenced core)
  (admitted : Core.Admits (discipline config.toDeployment) FairClaims core act core')
  {worker : Worker} {row : Row} (member : row ∈ core.world.table)

include fenced admitted

/-- It is enough to look at the claims of others. -/
theorem leftBehind_of_others {statement : Statement}
    (carried : statementOf ⟨act, core.world⟩ = some (worker, statement))
    {value : Int} (marks : statement.marks = some (some value))
    (active : ∀ snapshot retryAt, statement ≠ .retireUploadTombstone snapshot retryAt)
    (others : ∀ other claim, other ≠ worker → heldClaim core row.id other = some claim →
      Overwritten core row (statement.patch core.world.timestamp row) value claim) :
    LeftBehind core core' row worker statement value := by
  intro other claim held
  by_cases same : other = worker
  · subst same
    obtain ⟨own, claims⟩ := fenced.own_claim admitted carried (by simp [marks]) active held
    rw [marks] at own
    exact .inl ⟨rfl, by simpa using own.symm, claims⟩
  · have old := other_claim admitted carried same held
    exact .inr ⟨old, others other claim same old⟩

include member

/-- The deletion of the row has not begun: nobody holds a claim on it. -/
theorem leftBehind_untouched {statement : Statement}
    (carried : statementOf ⟨act, core.world⟩ = some (worker, statement))
    (untouched : row.touched = false) {value : Int}
    (marks : statement.marks = some (some value)) :
    LeftBehind core core' row worker statement value := by
  have unheld : ∀ {other claim}, heldClaim core row.id other ≠ some claim := by
    intro other claim held
    rw [touched_of_heldClaim fenced.toKnown member held] at untouched
    cases untouched
  intro other claim held
  rcases heldClaim_step admitted held with old | ⟨_, _, _, carried', claims, -, -⟩
  · exact absurd old unheld
  · rw [carried, Option.some.injEq, Prod.mk.injEq] at carried'
    obtain ⟨rfl, rfl⟩ := carried'
    rw [Statement.marks_of_claims claims] at marks
    exact .inl ⟨rfl, by simpa using marks, by simp [claims]⟩

section Touched

variable (touched : row.touched = true)

include touched

theorem leftBehind_settleFailedUpload {current : Row} {access : Access} {claim : Int}
    (carried : statementOf ⟨act, core.world⟩ =
      some (worker, .settleFailedUpload current access claim))
    (chosen : (Statement.settleFailedUpload current access claim).chosen row = true) :
    LeftBehind core core' row worker (Statement.settleFailedUpload current access claim) claim := by
  obtain ⟨mode, call, -, -, allowed, -⟩ := fenced.carried_cases admitted carried
  obtain ⟨-, aimed, -⟩ := allowed
  have met := admitted.met
  have same := (Bool.and_eq_true _ _ ▸ chosen :
    access.owns row = true ∧ current.sameMarkers row = true).2
  have safe := fenced.safe row member
  have open_ := Row.deletedMs_reopen same
  refine fenced.leftBehind_of_others admitted carried rfl (fun _ _ wrong => (by cases wrong))
    fun other claim' different held => ?_
  cases marked : row.deletionPendingAt with
  | some marker =>
      have ended := met.expired worker current access claim carried row member chosen marker marked
      have below := fenced.others_below member aimed same marked different held
      exact ⟨fenced.stale_of_marker member marked ended held,
        .inl ⟨below, fun wrong => (by cases wrong)⟩, fun closed => (by cases open_.symm.trans closed),
        fun above => by omega⟩
  | none =>
      -- the row was finalised and its claim cleared; the settlement opens it again
      have closed : row.deletedMs ≠ none :=
        Row.deletedMs_eq_none.not.mpr ((Row.touched_eq_true.mp touched).resolve_right (· marked))
      obtain ⟨moment, deleted⟩ := Option.ne_none_iff_exists'.mp closed
      have gone : (ledgerOf core row).marker ≠ some claim' := by simp [ledgerOf, marked]
      have before : claim' < moment := safe.reopened held deleted gone
      obtain ⟨mint, drawn, rfl, read, -⟩ := aimed
      have above := (fenced.drawnAbove worker mint drawn).2.2 current moment read
        (Row.deletedMs_sameMarkers same ▸ deleted)
      have positive : (0 : Int) < deletionClaimLeaseMs := by decide
      exact ⟨safe.stale held gone, .inl ⟨by omega, fun wrong => (by cases wrong)⟩,
        fun closed => (by cases open_.symm.trans closed), fun above => by omega⟩

theorem leftBehind_claimExpiredDirectUpload {snapshot : Row} {claim : Int}
    (carried : statementOf ⟨act, core.world⟩ =
      some (worker, .claimExpiredDirectUpload snapshot claim))
    (chosen : (Statement.claimExpiredDirectUpload snapshot claim).chosen row = true) :
    LeftBehind core core' row worker (Statement.claimExpiredDirectUpload snapshot claim) claim := by
  obtain ⟨mode, call, -, -, allowed, -⟩ := fenced.carried_cases admitted carried
  obtain ⟨-, aimed, time, due, read, uploading, -, ended⟩ := allowed
  have same := (Bool.and_eq_true _ _ ▸ chosen :
    snapshot.sameMarkers row = true ∧ decide (row.status = snapshot.status) = true).1
  have open_ := Row.deletedMs_reopen same
  obtain ⟨-, -, uploading', deleting⟩ := Row.sameMarkers_eq_true.mp same
  obtain ⟨marker, marked⟩ := fenced.marker_of_pending member touched
    (by rw [uploading', uploading]; simp)
  have ended := ended marker (deleting ▸ marked)
  have clock := fenced.clocks worker time read
  rw [fenced.agree] at clock
  refine fenced.leftBehind_of_others admitted carried rfl (fun _ _ wrong => (by cases wrong))
    fun other claim' different held => ?_
  have below := fenced.others_below member aimed same marked different held
  exact ⟨fenced.stale_of_marker member marked (by omega) held,
    .inl ⟨below, fun wrong => (by cases wrong)⟩, fun closed => (by cases open_.symm.trans closed),
    fun above => by omega⟩

theorem leftBehind_claimPendingDeletion {snapshot : Row} {claim : Int}
    (carried : statementOf ⟨act, core.world⟩ =
      some (worker, .claimPendingDeletion snapshot claim))
    (chosen : (Statement.claimPendingDeletion snapshot claim).chosen row = true) :
    LeftBehind core core' row worker (Statement.claimPendingDeletion snapshot claim) claim := by
  obtain ⟨mode, call, -, -, allowed, -⟩ := fenced.carried_cases admitted carried
  obtain ⟨aimed, mint, time, due, drawn, read, selected, -⟩ := allowed
  have same : snapshot.sameMarkers row = true := chosen
  have open_ := Row.deletedMs_reopen same
  obtain ⟨-, -, uploading, deleting⟩ := Row.sameMarkers_eq_true.mp same
  have safe := fenced.safe row member
  have claimed : mint.claim = claim := by
    obtain ⟨mint', drawn', rfl, -⟩ := aimed
    rw [drawn, Option.some.injEq] at drawn'
    rw [drawn']
  have clock := fenced.clocks worker time (read.mono (minted_older drawn))
  rw [fenced.agree] at clock
  -- the sweep selected the row by a deletion marker that has run out
  obtain ⟨marker, marked, ended⟩ : ∃ marker, row.deletionPendingAt = some marker ∧
      marker < time := by
    cases marked : row.deletionPendingAt with
    | none =>
        have deleted := (Row.touched_eq_true.mp touched).resolve_right (· marked)
        have settled : row.uploadPendingAt.isSome = false := safe.finalized (Row.deletedMs_eq_none.not.mpr deleted) marked
        have settled : row.uploadPendingAt = none := by simpa using settled
        simp [selectedMarker, ← deleting, ← uploading, marked, settled, before] at selected
    | some marker =>
        refine ⟨marker, rfl, ?_⟩
        by_contra running
        simp [selectedMarker, ← deleting, ← uploading, marked, before, running] at selected
  refine fenced.leftBehind_of_others admitted carried rfl (fun _ _ wrong => (by cases wrong))
    fun other claim' different held => ?_
  have below := fenced.others_below member aimed same marked different held
  refine ⟨fenced.stale_of_marker member marked (by omega) held, .inl ⟨below, fun pending => ?_⟩,
    fun closed => (by cases open_.symm.trans closed), fun above => by omega⟩
  have above := (fenced.drawnAbove worker mint drawn).2.1 time read
  have positive : (1 : Int) < deletionClaimLeaseMs := by decide
  by_cases inPlace : marker = claim'
  · omega
  · rcases safe.passed held marked inPlace with ⟨-, further⟩ | ⟨-, settled⟩
    · have further := further pending
      omega
    · have pending : row.uploadPendingAt.isSome = true := pending
      have settled : row.uploadPendingAt.isSome = false := settled
      rw [pending] at settled
      cases settled

/-- Retirement writes the value just below a marker that has run out. -/
theorem leftBehind_retireUploadTombstone {snapshot : Row} {retryAt : Int}
    (carried : statementOf ⟨act, core.world⟩ =
      some (worker, .retireUploadTombstone snapshot retryAt))
    (chosen : (Statement.retireUploadTombstone snapshot retryAt).chosen row = true) :
    LeftBehind core core' row worker (Statement.retireUploadTombstone snapshot retryAt) retryAt := by
  obtain ⟨mode, call, -, -, allowed, -⟩ := fenced.carried_cases admitted carried
  obtain ⟨-, time, moment, due, read, head, uploading, -, ended, retry⟩ := allowed
  have same : snapshot.sameMarkers row = true := chosen
  have open_ := Row.deletedMs_reopen same
  obtain ⟨-, -, uploading', deleting⟩ := Row.sameMarkers_eq_true.mp same
  have pending : row.uploadPendingAt ≠ none := by
    rw [uploading', uploading]
    simp
  obtain ⟨marker, marked⟩ := fenced.marker_of_pending member touched pending
  have ended := ended marker (deleting ▸ marked)
  have newest := fenced.newest worker moment head time read
  have clock := fenced.clocks worker time read
  rw [fenced.agree] at clock
  have below : retryAt = marker - 1 := by
    rw [← deleting, marked, Option.getD_some] at retry
    omega
  intro other claim' held
  have old := kept_claim admitted carried rfl held
  refine .inr ⟨old, fenced.stale_of_marker member marked (by omega) old, ?_,
    fun closed => (by cases open_.symm.trans closed), fun _ => pending⟩
  by_cases inPlace : marker = claim'
  · exact .inr ⟨by omega, rfl⟩
  · rcases (fenced.safe row member).passed old marked inPlace with ⟨-, further⟩ | ⟨-, settled⟩
    · have further := further (by simpa [ledgerOf, Option.isSome_iff_ne_none] using pending)
      exact .inl ⟨by omega, fun wrong => (by cases wrong)⟩
    · simp [ledgerOf, pending] at settled

end Touched

/-- The retry of a released claim lies ahead of everybody else's. -/
theorem leftBehind_releaseDeletionClaim {rows : List Row} {claim : Int} {access : Option Access}
    {retryAt : Int}
    (carried : statementOf ⟨act, core.world⟩ =
      some (worker, .releaseDeletionClaim rows claim access retryAt))
    (chosen : (Statement.releaseDeletionClaim rows claim access retryAt).chosen row = true) :
    LeftBehind core core' row worker (Statement.releaseDeletionClaim rows claim access retryAt) retryAt := by
  obtain ⟨mode, call, -, -, allowed, -⟩ := fenced.carried_cases admitted carried
  obtain ⟨⟨phase, holds⟩, time, head, rfl⟩ := allowed
  obtain ⟨inside, -, -, -, marked⟩ := pendingDeletionWhere_eq_true.mp chosen
  have owner := heldClaim_of_holding holds inside
  have safe := fenced.safe row member
  refine fenced.leftBehind_of_others admitted carried rfl (fun _ _ wrong => (by cases wrong))
    fun other claim' different held => ?_
  obtain ⟨ended, gone⟩ := safe.stale_of_other owner marked held different
  have before := fenced.pausing worker time head row member claim owner marked other claim'
    different held
  have positive : (1 : Int) < deletionRetryBackoffMs := by decide
  exact ⟨ended, .inl ⟨by omega, fun _ => by omega⟩, fun closed => safe.reopened held closed gone,
    fun above => by omega⟩

/-- Every write of a deletion marker leaves the claims of others behind. -/
theorem leftBehind {statement : Statement}
    (carried : statementOf ⟨act, core.world⟩ = some (worker, statement))
    (chosen : statement.chosen row = true) {value : Int}
    (marks : statement.marks = some (some value)) :
    LeftBehind core core' row worker statement value := by
  cases touched : row.touched with
  | false => exact fenced.leftBehind_untouched admitted member carried touched marks
  | true =>
      cases Statement.onTouched chosen touched with
      | settleFailedUpload =>
          cases marks
          exact fenced.leftBehind_settleFailedUpload admitted member touched carried chosen
      | releaseDeletionClaim =>
          cases marks
          exact fenced.leftBehind_releaseDeletionClaim admitted member carried chosen
      | finalizePendingRows => cases marks
      | clearFinalizedDeletionClaim => cases marks
      | claimExpiredDirectUpload =>
          cases marks
          exact fenced.leftBehind_claimExpiredDirectUpload admitted member touched carried chosen
      | claimPendingDeletion =>
          cases marks
          exact fenced.leftBehind_claimPendingDeletion admitted member touched carried chosen
      | retireUploadTombstone =>
          cases marks
          exact fenced.leftBehind_retireUploadTombstone admitted member touched carried chosen

omit admitted in
/-- A row that somebody holds is one of the rows it holds, and the deletion of it has begun. -/
theorem claimed_row {rows : List Row} {claim : Int} {access : Option Access} {phase : Phase}
    (holds : holding (core.pastOf worker) = some ⟨rows, claim, access, phase⟩)
    (inside : row.id ∈ rows.map Row.id) : ∃ held ∈ rows, held.Claimed row := by
  obtain ⟨held, there, named⟩ := List.mem_map.mp inside
  obtain ⟨current, present, claimed⟩ :=
    fenced.held worker _ _ (List.suffix_refl _) holds held there
  have itself := Keyed.eq_of_key member present (named.symm.trans claimed.file.id.symm)
  exact ⟨held, there, itself ▸ claimed⟩

/-- Clearing the claim leaves the ledger safe: everybody else's claim has run out. -/
theorem safe_clear {rows : List Row} {claim : Int} {access : Option Access}
    (carried : statementOf ⟨act, core.world⟩ =
      some (worker, .clearFinalizedDeletionClaim rows claim access))
    (chosen : (Statement.clearFinalizedDeletionClaim rows claim access).chosen row = true) :
    (ledgerOf core' ((Statement.clearFinalizedDeletionClaim rows claim access).patch
      core.world.timestamp row)).Safe := by
  obtain ⟨mode, call, -, -, ⟨holds, settled⟩, -⟩ := fenced.carried_cases admitted carried
  simp only [Statement.chosen, Bool.and_eq_true, decide_eq_true_eq] at chosen
  obtain ⟨⟨⟨⟨inside, -⟩, -⟩, -⟩, marked⟩ := chosen
  obtain ⟨held, there, claimed⟩ := fenced.claimed_row member holds inside
  have clock := fenced.clock_of_carried admitted carried
  refine (fenced.safe row member).clear (heldClaim_of_holding holds inside) marked clock ?_ rfl
    rfl fun {other claim'} held' => ?_
  · simp [ledgerOf, Statement.patch, claimed.settled (settled held there)]
  · refine ⟨kept_claim admitted carried rfl held', fun same => ?_⟩
    subst same
    exact (fenced.own_claim admitted carried (by simp [Statement.marks])
      (fun _ _ wrong => (by cases wrong)) held').2 rfl

/-- A statement leaves the ledger of a row it chose safe. -/
theorem safe_chosen {statement : Statement}
    (carried : statementOf ⟨act, core.world⟩ = some (worker, statement))
    (chosen : statement.chosen row = true) :
    (ledgerOf core' (statement.patch core.world.timestamp row)).Safe := by
  have clock := fenced.clock_of_carried admitted carried
  have safe := fenced.safe row member
  have named := statement.patch_id core.world.timestamp row
  cases marks : statement.marks with
  | none =>
      have claims : statement.claims = none := by
        refine Option.eq_none_iff_forall_ne_some.mpr fun ⟨rows, claim, access⟩ claims => ?_
        rw [Statement.marks_of_claims claims] at marks
        cases marks
      have kept : ∀ {other claim},
          heldClaim core' (statement.patch core.world.timestamp row).id other = some claim →
          heldClaim core row.id other = some claim := by
        intro other claim held
        rw [named] at held
        exact kept_claim admitted carried claims held
      cases touched : row.touched with
      | false =>
          refine .of_unheld (fun other => ?_)
            (Row.deletedMs_eq_none.mpr (statement.deletedAt_patch_untouched _ chosen touched))
          refine Option.eq_none_iff_forall_ne_some.mpr fun claim held => ?_
          rw [touched_of_heldClaim fenced.toKnown member (kept held)] at touched
          cases touched
      | true =>
          cases Statement.onTouched chosen touched with
          | finalizePendingRows rows claim access =>
              have marked := (pendingDeletionWhere_eq_true.mp chosen).2.2.2.2
              exact safe.finalize marked clock rfl rfl rfl kept
          | _ => cases marks
  | some value =>
      cases value with
      | none =>
          cases statement with
          | clearFinalizedDeletionClaim rows claim access =>
              exact fenced.safe_clear admitted member carried chosen
          | _ => simp [Statement.marks, Statement.claims] at marks
      | some value =>
          have left := fenced.leftBehind admitted member carried chosen marks
          refine safe.write worker value clock ?_ (fun {moment} deleted => ?_)
            fun {other claim} held => ?_
          · simp [ledgerOf, Statement.deletionPendingAt_patch, marks]
          · obtain ⟨deletedAt, marked, rfl⟩ := Option.map_eq_some_iff.mp deleted
            exact Option.map_eq_some_iff.mpr
              ⟨deletedAt, statement.deletedAt_of_marks (by simp [marks]) marked, rfl⟩
          · rw [show (ledgerOf core' _).held other = heldClaim core' _ other from rfl, named] at held
            rcases left other claim held with ⟨same, value, -⟩ | ⟨old, gone⟩
            · exact .inl ⟨same, value⟩
            · exact .inr ⟨old, gone.ended, gone.behind, gone.reopened⟩

omit member

theorem safe_step {row' : Row} (member' : row' ∈ core'.world.table) :
    (ledgerOf core' row').Safe := by
  rcases fenced.row_cases admitted member' with ⟨there, unchosen⟩ |
    ⟨old, there, worker, statement, carried, chosen, -, rfl⟩ | ⟨newborn, -⟩
  · exact (fenced.safe row' there).mono ((fenced.toKnown.forward admitted).clock _) rfl rfl rfl
      (heldClaim_of_unchosen admitted there unchosen)
  · exact fenced.safe_chosen admitted there carried chosen
  · have known := ((known_keeps config).weaken fun _ _ _ => trivial).admits fenced.toKnown admitted
    refine .of_unheld (fun other => ?_) (Row.deletedMs_eq_none.mpr (Row.touched_eq_false.mp newborn.untouched).1)
    refine Option.eq_none_iff_forall_ne_some.mpr fun claim held => ?_
    have touched := touched_of_heldClaim known member' held
    rw [newborn.untouched] at touched
    cases touched

/-! ## Clocks and drawn values -/

theorem agree_step (host : Host) :
    core'.world.clock host = core'.world.clock .database := by
  have before := fenced.agree host
  cases performed : act.performed with
  | some done =>
      obtain ⟨author, call⟩ := done
      have kept : core'.world.clock = core.world.clock :=
        (congrArg World.clock (admitted.world_of_performed performed)).trans exec_clock
      rw [kept]
      exact before
  | none =>
      rcases admitted.world_of_idle performed with same | ⟨m, acted, moved⟩
      · rw [same]
        exact before
      · obtain ⟨ms, passed⟩ := move_clock moved fun other ms wrong =>
          admitted.met.agreed other ms (wrong ▸ acted)
        rw [passed, passed, before]

theorem prompt_step (author : Worker) (statement : Statement) :
    (author, .update statement) ∉ core'.deferred ∧
      ∀ count, (author, .transact statement count) ∉ core'.deferred := by
  constructor
  · intro late
    rcases admitted.mem_deferred late with old | ⟨issued, acted, residual, -⟩
    · exact (fenced.prompt author statement).1 old
    · rcases mem_residue residual with rfl | ⟨_, _, -, -, wrong⟩
      · exact (admitted.met.prompt author statement).1 acted
      · cases wrong
  · intro count late
    rcases admitted.mem_deferred late with old | ⟨issued, acted, residual, -⟩
    · exact (fenced.prompt author statement).2 count old
    · rcases mem_residue residual with rfl | ⟨_, _, -, -, wrong⟩
      · exact (admitted.met.prompt author statement).2 count acted
      · cases wrong

theorem seenDeleted_step {row : Row} {moment : Int} (seen : Seen (core'.pastOf worker) row)
    (deleted : row.deletedMs = some moment) : moment ≤ core'.world.clock .database := by
  rcases seen_cases admitted seen with old | there
  · exact Int.le_trans (fenced.seenDeleted worker row moment old deleted)
      ((fenced.toKnown.forward admitted).clock _)
  · exact (fenced.safe_step admitted there).elapsed deleted

omit fenced in
/-- The clock was read just now. -/
theorem moment_of_head {moment : Int}
    (head : (core'.pastOf worker).head? = some ⟨.now, some moment⟩) :
    (core'.pastOf worker = core.pastOf worker ∧
      (core.pastOf worker).head? = some ⟨.now, some moment⟩) ∨
    (core'.world = core.world ∧ moment = core.world.clock (.process worker.process)) := by
  rcases admitted.pastOf_cases worker with same | ⟨mode, call, rfl, grown, -⟩
  · exact .inl ⟨same, same ▸ head⟩
  · rw [grown, List.head?_cons, Option.some.injEq] at head
    obtain ⟨rfl, rfl, read⟩ := answered_of_step head.symm
    exact .inr ⟨admitted.world_of_performed rfl, read⟩

theorem newest_step {moment time : Int}
    (head : (core'.pastOf worker).head? = some ⟨.now, some moment⟩)
    (read : ReadClock (core'.pastOf worker) time) : time ≤ moment := by
  rcases moment_of_head admitted head with ⟨same, head⟩ | ⟨world, rfl⟩
  · exact fenced.newest worker moment head time (same ▸ read)
  · rw [← world]
    exact fenced.toClocked.clocks_step admitted read

omit fenced in
/-- The unused claim value is old, or was just drawn from the clock. -/
theorem mint_cases {mint : Mint} (drawn : minted (core'.pastOf worker) = some mint) :
    minted (core.pastOf worker) = some mint ∨
      (mint.claim = core.world.claimAt worker.process mint.expected ∧
        mint.older = core.pastOf worker ∧
        core'.world.clock = core.world.clock) := by
  rcases admitted.pastOf_cases worker with same | ⟨mode, call, rfl, grown, -⟩
  · exact .inl (same ▸ drawn)
  · rw [grown] at drawn
    rcases minted_cons drawn with old | ⟨expected, claim, step, rfl⟩
    · exact .inl old
    · obtain ⟨rfl, rfl, value⟩ := answered_of_step step.symm
      refine .inr ⟨value, rfl, ?_⟩
      rw [admitted.world_of_performed rfl]
      rfl

theorem drawnAbove_step {mint : Mint} (drawn : minted (core'.pastOf worker) = some mint) :
    (∀ expected, mint.expected = some expected → expected < mint.claim) ∧
    (∀ time, ReadClock mint.older time → time + deletionClaimLeaseMs ≤ mint.claim) ∧
    ∀ row moment, Read mint.older row → row.deletedMs = some moment →
      moment + deletionClaimLeaseMs ≤ mint.claim := by
  rcases mint_cases admitted drawn with old | ⟨claim, older, -⟩
  · exact fenced.drawnAbove worker mint old
  · have lease := core.world.claimAt_lease worker.process mint.expected
    rw [claim, older]
    refine ⟨fun expected same => ?_, fun time read => ?_, fun row moment read deleted => ?_⟩
    · have above := core.world.claimAt_expected worker.process expected
      rw [same]
      omega
    · have := fenced.clocks worker time read
      omega
    · have := fenced.seenDeleted worker row moment (.inr read) deleted
      rw [fenced.agree] at lease
      omega

end Fenced

/-! ## The marker of a claimed row over one step -/

/-- What a step does to the deletion marker of a row on which somebody holds a claim. -/
inductive MarkerStep (core core' : SystemCore config) (act : Act (system config))
    (row row' : Row) : Prop where
  | quiet (unwritten : written row.id ⟨act, core.world⟩ = none)
      (marker : row'.deletionPendingAt = row.deletionPendingAt)
      (pending : row'.uploadPendingAt = row.uploadPendingAt) (keys : row'.keys = row.keys)
      (kept : ∀ other claim, heldClaim core' row.id other = some claim →
        heldClaim core row.id other = some claim)
  | marks (author : Worker) (statement : Statement) (value : Int)
      (carried : statementOf ⟨act, core.world⟩ = some (author, statement))
      (patched : row' = statement.patch core.world.timestamp row)
      (wrote : written row.id ⟨act, core.world⟩ = some (author, some value))
      (marker : row'.deletionPendingAt = some value)
      (left : LeftBehind core core' row author statement value)
  | clears (author : Worker) (wrote : written row.id ⟨act, core.world⟩ = some (author, none))
      (marker : row'.deletionPendingAt = none)
      (kept : ∀ other claim, heldClaim core' row.id other = some claim →
        heldClaim core row.id other = some claim)

namespace Fenced

variable {core core' : SystemCore config} {act : Act (system config)} (fenced : Fenced core)
  (admitted : Core.Admits (discipline config.toDeployment) FairClaims core act core')

include fenced admitted

theorem marker_step {row' : Row} (member' : row' ∈ core'.world.table) {holder : Worker}
    {held : Int} (holds : heldClaim core' row'.id holder = some held) :
    ∃ row ∈ core.world.table, row'.id = row.id ∧ MarkerStep core core' act row row' := by
  have known := ((known_keeps config).weaken fun _ _ _ => trivial).admits fenced.toKnown admitted
  have begun := touched_of_heldClaim known member' holds
  rcases fenced.row_cases admitted member' with ⟨there, unchosen⟩ |
    ⟨row, there, worker, statement, carried, chosen, -, rfl⟩ | ⟨newborn, -⟩
  · exact ⟨row', there, rfl, .quiet (written_of_unchosen there unchosen) rfl rfl rfl
      fun _ _ held => heldClaim_of_unchosen admitted there unchosen held⟩
  · have named := statement.patch_id core.world.timestamp row
    have wrote := written_of_chosen there carried chosen
    have marker := statement.deletionPendingAt_patch core.world.timestamp row
    rw [named] at holds
    refine ⟨row, there, named, ?_⟩
    cases marks : statement.marks with
    | none =>
        have claims : statement.claims = none := by
          refine Option.eq_none_iff_forall_ne_some.mpr fun ⟨rows, claim, access⟩ claims => ?_
          rw [Statement.marks_of_claims claims] at marks
          cases marks
        have kept : ∀ other claim, heldClaim core' row.id other = some claim →
            heldClaim core row.id other = some claim :=
          fun _ _ held => kept_claim admitted carried claims held
        have touched := touched_of_heldClaim fenced.toKnown there (kept holder held holds)
        rw [marks] at wrote marker
        cases Statement.onTouched chosen touched with
        | finalizePendingRows rows claim access => exact .quiet wrote marker rfl rfl kept
        | _ => cases marks
    | some value =>
        rw [marks] at wrote marker
        cases value with
        | some value =>
            exact .marks worker statement value carried rfl wrote marker
              (fenced.leftBehind admitted there carried chosen marks)
        | none =>
            cases statement with
            | clearFinalizedDeletionClaim rows claim access =>
                exact .clears worker wrote marker
                  fun _ _ held => kept_claim admitted carried rfl held
            | _ => simp [Statement.marks, Statement.claims] at marks
  · rw [newborn.untouched] at begun
    cases begun

theorem aimed_step {worker : Worker} {mint : Mint} {snapshot : Row} {marker : Int}
    (drawn : minted (core'.pastOf worker) = some mint) (read : Read mint.older snapshot)
    (marked : snapshot.deletionPendingAt = some marker) (expected : mint.expected = some marker)
    {row' : Row} (member' : row' ∈ core'.world.table) (named' : row'.id = snapshot.id)
    (marked' : row'.deletionPendingAt = some marker)
    (pending' : row'.uploadPendingAt = snapshot.uploadPendingAt) {other : Worker} {claim : Int}
    (different : other ≠ worker) (held : heldClaim core' row'.id other = some claim) :
    claim < mint.claim := by
  have above := (fenced.drawnAbove_step admitted drawn).1 marker expected
  rcases mint_cases admitted drawn with old | ⟨value, -, clock⟩
  · obtain ⟨row, member, named, step⟩ := fenced.marker_step admitted member' held
    rw [named] at held
    cases step with
    | quiet _ same pending _ kept =>
        exact fenced.aimed worker mint snapshot marker old read marked expected row member
          (named.symm.trans named') (same ▸ marked') (pending ▸ pending') other claim different
          (kept other claim held)
    | marks author statement value carried patched _ same left =>
        rw [same, Option.some.injEq] at marked'
        rcases left other claim held with ⟨-, rfl, -⟩ | ⟨-, gone⟩
        · omega
        · by_contra least
          -- only a retirement writes a value below a claim; it needs the upload marker that
          -- the snapshot had already lost
          have pending := gone.retired (by omega)
          have touched : snapshot.touched = true :=
            Row.touched_eq_true.mpr (.inr (by simp [marked]))
          obtain ⟨current, present, later⟩ := fenced.seen worker snapshot
            (.inr (read.mono (minted_older old)))
          have itself := Keyed.eq_of_key member present
            ((named.symm.trans named').trans later.sameFile.id.symm)
          subst itself
          rcases gone.behind with ⟨below, -⟩ | ⟨-, settled⟩
          · omega
          · refine pending (later.settled touched ?_)
            rw [← pending', patched]
            simpa using settled
    | clears author _ same _ =>
        rw [same] at marked'
        cases marked'
  · have lease := core.world.claimAt_lease worker.process mint.expected
    have positive : (0 : Int) < deletionClaimLeaseMs := by decide
    refine (fenced.safe_step admitted member').below held marked' above ?_
    show core'.world.clock .database < mint.claim
    rw [clock, value, ← fenced.agree (.process worker.process)]
    omega

/-- When the holder of the claim in place reads the clock, everybody else's claim is over. -/
theorem pausing_step {worker : Worker} {moment : Int}
    (head : (core'.pastOf worker).head? = some ⟨.now, some moment⟩) {row' : Row}
    (member' : row' ∈ core'.world.table) {claim : Int}
    (owner : heldClaim core' row'.id worker = some claim)
    (marked : row'.deletionPendingAt = some claim) {other : Worker} {claim' : Int}
    (different : other ≠ worker) (held : heldClaim core' row'.id other = some claim') :
    claim' < moment := by
  rcases moment_of_head admitted head with ⟨same, head⟩ | ⟨world, rfl⟩
  · obtain ⟨row, member, named, step⟩ := fenced.marker_step admitted member' held
    rw [named] at owner held
    cases step with
    | quiet _ marker _ _ kept =>
        exact fenced.pausing worker moment head row member claim (kept worker claim owner)
          (marker ▸ marked) other claim' different (kept other claim' held)
    | marks author statement value carried _ _ marker left =>
        rw [marker, Option.some.injEq] at marked
        obtain ⟨_, call, -, -, -, grown⟩ := fenced.carried_cases admitted carried
        rcases left worker claim owner with ⟨rfl, -, -⟩ | ⟨-, gone⟩
        · rw [same] at grown
          exact absurd grown.symm (List.cons_ne_self _ _)
        · exact absurd marked gone.behind.ne
    | clears author _ marker _ =>
        rw [marker] at marked
        cases marked
  · have stale := ((fenced.safe_step admitted member').stale_of_other owner marked held different).1
    have stale : claim' < core'.world.clock .database := stale
    rw [world, ← fenced.agree (.process worker.process)] at stale
    exact stale

theorem writer_step {row' : Row} (member' : row' ∈ core'.world.table) {worker : Worker}
    {claim : Int} (held : heldClaim core' row'.id worker = some claim) :
    lastWriter row'.id claim core'.history = some worker := by
  obtain ⟨row, member, named, step⟩ := fenced.marker_step admitted member' held
  rw [named] at held ⊢
  rw [admitted.history, lastWriter_cons]
  cases step with
  | quiet unwritten _ _ _ kept =>
      rw [unwritten]
      exact fenced.writer row member worker claim (kept worker claim held)
  | marks author statement value carried _ wrote _ left =>
      rw [wrote]
      rcases left worker claim held with ⟨rfl, rfl, -⟩ | ⟨old, gone⟩
      · exact if_pos rfl
      · exact (if_neg gone.behind.ne).trans (fenced.writer row member worker claim old)
  | clears author wrote _ kept =>
      rw [wrote]
      exact fenced.writer row member worker claim (kept worker claim held)

theorem marked_step {row' : Row} (member' : row' ∈ core'.world.table) :
    row'.deletionPendingAt = (lastMark row'.id core'.history).bind Prod.snd := by
  rw [admitted.history, lastMark_cons]
  rcases fenced.row_cases admitted member' with ⟨there, unchosen⟩ |
    ⟨row, there, worker, statement, carried, chosen, -, rfl⟩ | ⟨newborn, absent⟩
  · rw [written_of_unchosen there unchosen]
    exact fenced.marked row' there
  · rw [Statement.deletionPendingAt_patch, Statement.patch_id,
      written_of_chosen there carried chosen]
    cases statement.marks with
    | none => exact fenced.marked row there
    | some value => rfl
  · -- no earlier event wrote a row with this id
    have unwritten : ∀ event : Event (system config),
        World.Forward event.before core.world → written row'.id event = none := by
      intro event forward
      refine Option.eq_none_iff_forall_ne_some.mpr fun ⟨worker, value⟩ wrote => ?_
      obtain ⟨_, -, -, row, before, named, -⟩ := written_eq_some.mp wrote
      obtain ⟨current, present, later⟩ := forward.later row before
      exact absent current present (later.sameFile.id.trans named)
    rw [unwritten _ (.refl _), lastMark_eq_none fun event member =>
      unwritten event (fenced.forward event member)]
    exact (Row.touched_eq_false.mp newborn.untouched).2

theorem erased_step {worker : Worker} {hold : Hold}
    (holds : holding (core'.pastOf worker) = some hold) (phase : hold.phase ≠ .claimed)
    {row' : Row} (member' : row' ∈ core'.world.table) (inside : row'.id ∈ hold.rows.map Row.id)
    (marked : row'.deletionPendingAt = some hold.claim) :
    erasedSince row'.id worker row'.keys core'.history = true := by
  have held : heldClaim core' row'.id worker = some hold.claim :=
    heldClaim_eq_some.mpr ⟨hold, holds, inside, rfl⟩
  obtain ⟨row, member, named, step⟩ := fenced.marker_step admitted member' held
  rw [named] at held inside ⊢
  rw [admitted.history]
  cases step with
  | quiet unwritten marker _ keys _ =>
      simp only [keys, erasedSince, unwritten, Option.isNone_none, Bool.true_and, Bool.or_eq_true]
      have stays : ∀ old : Hold, holding (core.pastOf worker) = some old →
          old.rows = hold.rows → old.claim = hold.claim → old.phase ≠ .claimed →
          erasedSince row.id worker row.keys core.history = true := by
        intro old before rows claim phase
        exact fenced.erased worker old before phase row member (rows ▸ inside)
          (by rw [claim, ← marker, marked])
      rcases admitted.pastOf_cases worker with same | ⟨mode, call, acted, grown, allows⟩
      · exact .inr (stays hold (same ▸ holds) rfl rfl phase)
      · rw [grown] at holds
        obtain ⟨old, before, rows, claim, further⟩ := erased_cons allows holds phase
        rcases further with phase' | ⟨erased, step⟩
        · exact .inr (stays old before rows claim phase')
        · -- the worker's own delete was answered just now
          obtain ⟨rfl, rfl, -⟩ := answered_of_step step.symm
          obtain ⟨hold', held', -, rfl⟩ := allows
          rw [before, Option.some.injEq] at held'
          subst held'
          obtain ⟨mine, there, claimed⟩ := fenced.claimed_row member before (rows ▸ inside)
          refine .inl ?_
          simp only [acted, erases, decide_true, Bool.true_and, List.all_eq_true,
            decide_eq_true_eq]
          exact fun key inside => claimed.keys_subset there inside
  | marks author statement value carried _ _ marker left =>
      rw [marker, Option.some.injEq] at marked
      rcases left worker hold.claim held with ⟨rfl, -, claims⟩ | ⟨-, gone⟩
      · obtain ⟨_, call, -, asks, -, grown⟩ := fenced.carried_cases admitted carried
        rw [grown] at holds
        refine absurd (holding_of_marks asks ?_ ?_ holds).2 phase
        · obtain ⟨⟨rows, claim, access⟩, claims⟩ := Option.ne_none_iff_exists'.mp claims
          simp [Statement.marks_of_claims claims]
        · rintro snapshot retryAt rfl
          exact claims rfl
      · exact absurd marked gone.behind.ne
  | clears author _ marker _ =>
      rw [marker] at marked
      cases marked

end Fenced

theorem fenced_initial (time : Int) :
    Fenced (⟨World.initial time, [], []⟩ : SystemCore config) where
  toClocked := clocked_initial time
  agree _ := rfl
  prompt _ _ := ⟨List.not_mem_nil, fun _ => List.not_mem_nil⟩
  seenDeleted _ row _ seen := absurd seen (not_seen_nil row)
  newest _ _ head := by cases head
  drawnAbove _ _ drawn := by cases drawn
  safe row member := absurd member (Keyed.not_mem_empty row)
  aimed _ _ _ _ drawn := by cases drawn
  pausing _ _ head := by cases head
  marked row member := absurd member (Keyed.not_mem_empty row)
  writer row member := absurd member (Keyed.not_mem_empty row)
  erased _ _ holds := by cases holds

theorem fenced_keeps (config : Config) :
    Keeps (discipline config.toDeployment) FairClaims (@Fenced config) where
  credible fenced := (known_keeps config).credible fenced.toKnown
  admits fenced admitted :=
    { toClocked := ((clocked_keeps config).weaken fun _ _ _ => trivial).admits fenced.toClocked
        admitted
      agree := fenced.agree_step admitted
      prompt := fenced.prompt_step admitted
      seenDeleted := fun _ _ _ => fenced.seenDeleted_step admitted
      newest := fun _ _ head _ => fenced.newest_step admitted head
      drawnAbove := fun _ _ => fenced.drawnAbove_step admitted
      safe := fun _ => fenced.safe_step admitted
      aimed := fun _ _ _ _ drawn read marked expected _ member named marked' pending _ _ =>
        fenced.aimed_step admitted drawn read marked expected member named marked' pending
      pausing := fun _ _ head _ member _ owner marked _ _ =>
        fenced.pausing_step admitted head member owner marked
      marked := fun _ => fenced.marked_step admitted
      writer := fun _ member _ _ => fenced.writer_step admitted member
      erased := fun _ _ holds phase _ member => fenced.erased_step admitted holds phase member }

/-! ## Fencing -/

/-- The claim under which a statement soft-deletes, clears or re-schedules rows. -/
def Statement.under : Statement → Option Int
  | .releaseDeletionClaim _ claim _ _ => some claim
  | .finalizePendingRows _ claim _ => some claim
  | .clearFinalizedDeletionClaim _ claim _ => some claim
  | _ => none

/-- A step takes `deletionPendingAt` of a row to null only after the worker that wrote it last
has deleted the row's objects. -/
def ClearedByEraser (state state' : SystemConfig config) : Prop :=
  ∀ row ∈ state.core.world.table, ∀ row' ∈ state'.core.world.table, row'.id = row.id →
    row.deletionPendingAt ≠ none → row'.deletionPendingAt = none →
    ∃ worker, lastMark row.id state.core.history = some (worker, row.deletionPendingAt) ∧
      erasedSince row.id worker row.keys state.core.history = true

/-- A statement under a claim reaches a row only while its worker wrote the row's marker last. -/
def ReachedByOwner (state : SystemConfig config) (label : SystemLabel config) : Prop :=
  ∀ act worker statement claim, state.act label = some act →
    statementOf ⟨act, state.core.world⟩ = some (worker, statement) →
    statement.under = some claim →
    ∀ row ∈ state.core.world.table, statement.chosen row = true →
      lastMark row.id state.core.history = some (worker, some claim)

/-- Nobody else has written the value of a claim since it was granted. -/
def NeverRewritten (state : SystemConfig config) : Prop :=
  ∀ row ∈ state.core.world.table, ∀ worker claim,
    heldClaim state.core row.id worker = some claim →
      lastWriter row.id claim state.core.history = some worker

namespace Fenced

variable {core core' : SystemCore config} {act : Act (system config)} (fenced : Fenced core)
  {worker : Worker} {row : Row} (member : row ∈ core.world.table)

include fenced member

/-- The marker in place was written last by the worker that holds it. -/
theorem lastMark_of_owner {claim : Int} (owner : heldClaim core row.id worker = some claim)
    (marked : row.deletionPendingAt = some claim) :
    lastMark row.id core.history = some (worker, some claim) := by
  have mark := fenced.marked row member
  rw [marked] at mark
  obtain ⟨⟨author, value⟩, last, rfl⟩ := Option.bind_eq_some_iff.mp mark.symm
  have writer := lastWriter_of_lastMark last
  rw [fenced.writer row member worker claim owner, Option.some.injEq] at writer
  rw [last, writer]

variable (admitted : Core.Admits (discipline config.toDeployment) FairClaims core act core')

include admitted

omit member in
/-- A statement under a claim chooses rows that its worker holds, with the claim in place. -/
theorem owner_of_under {statement : Statement} {claim : Int}
    (carried : statementOf ⟨act, core.world⟩ = some (worker, statement))
    (under : statement.under = some claim) (chosen : statement.chosen row = true) :
    heldClaim core row.id worker = some claim ∧ row.deletionPendingAt = some claim := by
  obtain ⟨mode, call, -, -, allowed, -⟩ := fenced.carried_cases admitted carried
  cases statement with
  | releaseDeletionClaim rows claim' access retryAt =>
      cases under
      obtain ⟨⟨phase, holds⟩, -⟩ := allowed
      obtain ⟨inside, -, -, -, marked⟩ := pendingDeletionWhere_eq_true.mp chosen
      exact ⟨heldClaim_of_holding holds inside, marked⟩
  | finalizePendingRows rows claim' access =>
      cases under
      obtain ⟨inside, -, -, -, marked⟩ := pendingDeletionWhere_eq_true.mp chosen
      exact ⟨heldClaim_of_holding allowed inside, marked⟩
  | clearFinalizedDeletionClaim rows claim' access =>
      cases under
      simp only [Statement.chosen, Bool.and_eq_true, decide_eq_true_eq] at chosen
      obtain ⟨⟨⟨⟨inside, -⟩, -⟩, -⟩, marked⟩ := chosen
      exact ⟨heldClaim_of_holding allowed.1 inside, marked⟩
  | _ => cases under

theorem cleared_by_eraser {row' : Row} (member' : row' ∈ core'.world.table)
    (same : row'.id = row.id) (marked : row.deletionPendingAt ≠ none)
    (cleared : row'.deletionPendingAt = none) :
    ∃ worker, lastMark row.id core.history = some (worker, row.deletionPendingAt) ∧
      erasedSince row.id worker row.keys core.history = true := by
  rcases fenced.row_step admitted member member' same with rfl |
    ⟨author, statement, carried, chosen, -, rfl⟩
  · exact absurd cleared marked
  · rw [Statement.deletionPendingAt_patch] at cleared
    cases statement with
    | clearFinalizedDeletionClaim rows claim access =>
        obtain ⟨owner, marked⟩ := fenced.owner_of_under admitted carried rfl chosen
        obtain ⟨_, _, -, -, ⟨holds, -⟩, -⟩ := fenced.carried_cases admitted carried
        simp only [Statement.chosen, Bool.and_eq_true, decide_eq_true_eq] at chosen
        refine ⟨author, ?_, fenced.erased author _ holds (by simp) row member
          chosen.1.1.1.1 marked⟩
        rw [marked]
        exact fenced.lastMark_of_owner member owner marked
    | _ => exact absurd cleared (by simp_all [Statement.marks, Statement.claims])

end Fenced

/-- **Deletion claims fence**, in every run in which a failed upload is settled only when the
deletion claim of its row has run out. -/
theorem deletion_claims_fence {time : Int} {state state' : SystemConfig config}
    {label : SystemLabel config} (reached : ReachableIf config FairClaims time state)
    (met : ∀ act, state.act label = some act → FairClaims state.core act)
    (stepped : state.step (launch config) label = some state') :
    ClearedByEraser state state' ∧ ReachedByOwner state label ∧ NeverRewritten state := by
  have maintained := Reach.keeps (fenced_keeps config) (launch_follows config)
    (fenced_initial time) reached
  have fenced := maintained.inv
  refine ⟨?_, ?_, fun row member worker claim => fenced.writer row member worker claim⟩
  · intro row member row' member' same marked cleared
    rcases maintained.admits label met stepped with ⟨-, idle⟩ | ⟨act, -, admitted⟩
    · rw [idle] at member'
      rw [Keyed.eq_of_key member' member same] at cleared
      exact absurd cleared marked
    · exact fenced.cleared_by_eraser member admitted member' same marked cleared
  · intro act worker statement claim acted carried under row member chosen
    rcases maintained.admits label met stepped with ⟨idle, -⟩ | ⟨act', acted', admitted⟩
    · rw [acted] at idle
      cases idle
    · rw [acted, Option.some.injEq] at acted'
      subst acted'
      obtain ⟨owner, marked⟩ := fenced.owner_of_under admitted carried under chosen
      exact fenced.lastMark_of_owner member owner marked

/-! ## Two runs -/

def isPrompt (_ : SystemCore config) : Act (system config) → Bool
  | .move m =>
      match (m : Move) with
      | .drift _ _ => false
      | _ => true
  | .issue .defer _ (.update _) | .issue .defer _ (.transact _ _) => false
  | _ => true

theorem prompt_of_isPrompt {core : SystemCore config} {act : Act (system config)}
    (checked : isPrompt core act = true) : Prompt core act := by
  refine ⟨?_, fun worker statement => ⟨?_, ?_⟩⟩
  · rintro host ms rfl
    cases checked
  · rintro rfl
    cases checked
  · rintro count rfl
    cases checked

/-- A check that is enough for `FairClaims`: no failed upload is settled. -/
def settlesNothing (core : SystemCore config) (act : Act (system config)) : Bool :=
  isPrompt core act && match statementOf ⟨act, core.world⟩ with
    | some (_, .settleFailedUpload _ _ _) => false
    | _ => true

theorem fairClaims_of_settlesNothing {core : SystemCore config} {act : Act (system config)}
    (checked : settlesNothing core act = true) : FairClaims core act := by
  rw [settlesNothing, Bool.and_eq_true] at checked
  refine ⟨prompt_of_isPrompt checked.1, fun worker current access claim carried => ?_⟩
  rw [carried] at checked
  cases checked.2

def marking (row : Row) : Uuid × Option Int := (row.id, row.deletionPendingAt)

/-- The deletion markers before and after one more answered call of thread 1. -/
def markersAround (check : SystemCore (smallConfig .s3) → Act (system (smallConfig .s3)) → Bool)
    (state : SystemConfig (smallConfig .s3)) : Option (List (Uuid × Option Int) × List (Uuid × Option Int)) :=
  let label : SystemLabel (smallConfig .s3) := .issue .answer 1
  match state.step (launch (smallConfig .s3)) label with
  | some state' =>
      if (state.act label).all (check state.core) then
        some (state.core.world.table.rows.map marking,
          state'.core.world.table.rows.map marking)
      else none
  | none => none

theorem markersAround_eq_some
    {check : SystemCore (smallConfig .s3) → Act (system (smallConfig .s3)) → Bool}
    {state : SystemConfig (smallConfig .s3)} {before after : List (Uuid × Option Int)}
    (seen : markersAround check state = some (before, after)) :
    ∃ state', state.step (launch (smallConfig .s3)) (.issue .answer 1) = some state' ∧
      (∀ act, state.act (.issue .answer 1 : SystemLabel (smallConfig .s3)) = some act →
        check state.core act = true) ∧
      state.core.world.table.rows.map marking = before ∧
      state'.core.world.table.rows.map marking = after := by
  simp only [markersAround] at seen
  split at seen
  · rename_i state' stepped
    split at seen
    · rename_i checked
      cases seen
      refine ⟨state', stepped, fun act acted => ?_, rfl, rfl⟩
      simpa [acted] using checked
    · cases seen
  · cases seen

/-- A file is uploaded and deleted by its id, up to the statement that clears the claim. -/
def deletedInTurn : List (SystemLabel (smallConfig .s3)) :=
  .spawn 0 (.uploadLegacy smallCaller [1, 2] (some "a.txt") {} none {}) :: answering 0 5 ++
    .spawn 1 (.deleteById smallCaller (some 0)) :: answering 1 5

theorem deletion_claims_fence_deletedInTurn :
    ∃ state state' : SystemConfig (smallConfig .s3),
      ReachableIf (smallConfig .s3) FairClaims 0 state ∧
      state.step (launch (smallConfig .s3)) (.issue .answer 1) = some state' ∧
      state.core.world.table.rows.map marking = [(0, some 900000)] ∧
      state'.core.world.table.rows.map marking = [(0, none)] ∧
      ClearedByEraser state state' := by
  have observed : (after (smallConfig .s3) deletedInTurn settlesNothing).bind
      (markersAround settlesNothing) = some ([(0, some 900000)], [(0, none)]) := by
    decide +kernel
  obtain ⟨state, followed, seen⟩ := Option.bind_eq_some_iff.mp observed
  obtain ⟨state', stepped, checked, before, after⟩ := markersAround_eq_some seen
  have reached : ReachableIf (smallConfig .s3) FairClaims 0 state :=
    reach_follow _ (fun _ _ => fairClaims_of_settlesNothing) .start followed
  have met : ∀ act, state.act (.issue .answer 1 : SystemLabel (smallConfig .s3)) = some act →
      FairClaims state.core act := fun act acted => fairClaims_of_settlesNothing (checked act acted)
  exact ⟨state, state', reached, stepped, before, after,
    (deletion_claims_fence reached met stepped).1⟩

/-- A user deletes the file while it is being uploaded.  The upload fails to activate and is
settled although the user's claim still runs; its storage delete throws, and its retry
marker falls on the value of the user's claim. -/
def claimTakenOver : List (SystemLabel (smallConfig .s3)) :=
  .spawn 0 (.uploadLegacy smallCaller [1, 2] (some "a.txt") {} none {}) :: answering 0 3 ++
    .spawn 1 (.deleteById smallCaller (some 0)) :: answering 1 3 ++ answering 0 8 ++
    [.issue .refuse 0, .move (.advance 840000)] ++ answering 0 2 ++ answering 1 2

/-- Thread 0 wrote the marker last and its delete threw; thread 1 clears it. -/
theorem claim_taken_over_while_running :
    ∃ state state' : SystemConfig (smallConfig .s3),
      ReachableIf (smallConfig .s3) Prompt 0 state ∧
      state.step (launch (smallConfig .s3)) (.issue .answer 1) = some state' ∧
      ¬ ClearedByEraser state state' := by
  have observed : (after (smallConfig .s3) claimTakenOver isPrompt).any (fun state =>
      decide (markersAround isPrompt state = some ([(0, some 900000)], [(0, none)])) &&
        decide (lastMark 0 state.core.history = some (⟨0, 0⟩, some 900000)) &&
        state.core.world.table.rows.all fun row =>
          !erasedSince 0 ⟨0, 0⟩ row.keys state.core.history) = true := by
    decide +kernel
  obtain ⟨state, followed, facts⟩ := (Option.any_eq_true _ _).mp observed
  simp only [Bool.and_eq_true, decide_eq_true_eq, List.all_eq_true, Bool.not_eq_true'] at facts
  obtain ⟨⟨seen, last⟩, rows⟩ := facts
  obtain ⟨state', stepped, -, before, after⟩ := markersAround_eq_some seen
  have reached : ReachableIf (smallConfig .s3) Prompt 0 state :=
    reach_follow _ (fun _ _ => prompt_of_isPrompt) .start followed
  refine ⟨state, state', reached, stepped, fun cleared => ?_⟩
  obtain ⟨row, single, marked⟩ := List.map_eq_singleton_iff.mp before
  obtain ⟨row', single', marked'⟩ := List.map_eq_singleton_iff.mp after
  obtain ⟨named, marked⟩ := Prod.mk.inj marked
  obtain ⟨named', marked'⟩ := Prod.mk.inj marked'
  have member : row ∈ state.core.world.table.rows := single ▸ List.mem_singleton_self row
  have member' : row' ∈ state'.core.world.table.rows := single' ▸ List.mem_singleton_self row'
  obtain ⟨worker, mark, erased⟩ := cleared row member row' member' (named'.trans named.symm)
    (by simp [marked]) marked'
  rw [named, last, Option.some.injEq, Prod.mk.injEq] at mark
  rw [named, ← mark.1, rows row member] at erased
  cases erased

end SdcoreNest.UploadedFile
