/-
# UploadedFile.RetrySweep -- the deletion outbox makes progress past poison rows

One worker, one instant: each `unsafeSystemRetryPendingDeletions` attempts as many eligible
rows as its limit allows, settled deletions first and the unresolved uploads by quota, and
every attempted row leaves the window whatever the storage does.

A claim compares `deletedAt` with a JavaScript date.  The database wrote it in microseconds, so
the claim of a row that was deleted between two milliseconds matches nothing: no sweep attempts
the row, and it keeps its place in the window.
-/
import SdcoreNest.Theory.Backlog
import SdcoreNest.UploadedFile.Sweeps

namespace SdcoreNest.UploadedFile

open SdcoreNest.Theory
open SdcoreNest.Theory.Program

set_option autoImplicit false

/-- A row whose deletion is due. -/
def Row.due (now : Int) (row : Row) : Bool :=
  (before row.deletionPendingAt now &&
      (row.uploadPendingAt.isNone || before row.uploadPendingAt now)) ||
    (before row.uploadPendingAt now && row.deletionPendingAt.isNone)

/-- The rows of the retry sweep as it holds them after the claim. -/
def Row.retried (row : Row) (claim : Int) : Row :=
  { row with deletedAt := none, deletionPendingAt := some claim }

/-- A date has all there is of the time of deletion. -/
def Row.dated (row : Row) : Bool := decide (row.deletedAt = row.deletedAt.map .whole)

theorem Row.dated_eq_true {row : Row} :
    row.dated = true ↔ ∀ moment, row.deletedAt = some moment → moment.micros = 0 := by
  rw [Row.dated, decide_eq_true_iff]
  cases row.deletedAt with
  | none => simp
  | some moment => simp [← Moment.whole_eq_self, eq_comm]

theorem sameMarkers_names {world : World} {row : Row} (dated : row.dated = true)
    (member : row ∈ world.table) {other : Row} (inside : other ∈ world.table) :
    row.sameMarkers other = true ↔ other.id = row.id := by
  rw [Row.sameMarkers_eq_true]
  constructor
  · exact fun same => same.1
  · intro named
    obtain rfl := Keyed.eq_of_key inside member named
    exact ⟨rfl, of_decide_eq_true dated, rfl, rfl⟩

/-- The markers of a row that was deleted between two milliseconds match nothing. -/
theorem sameMarkers_misses {world : World} {row : Row} (undated : row.dated = false)
    (member : row ∈ world.table) {other : Row} (inside : other ∈ world.table) :
    row.sameMarkers other = false := by
  rw [← Bool.not_eq_true, Row.sameMarkers_eq_true]
  rintro ⟨named, deleted, -⟩
  obtain rfl := Keyed.eq_of_key inside member named
  exact of_decide_eq_false undated deleted

theorem reopen_self (row : Row) : row.reopen row = none := by
  unfold Row.reopen
  split
  · rfl
  · simpa using ‹¬row.deletedAt.isSome = true›

theorem claiming_retry (now : Int) :
    Claiming (fun row claim => .claimPendingDeletion row claim) Row.retried
      (fun row => row.due now && row.dated) where
  claims _ _ := rfl
  names world row claim member taken other inside :=
    sameMarkers_names (Bool.and_eq_true_iff.mp taken).2 member inside
  patched row claim clock _ := by
    simp only [Statement.patch, reopen_self]
    rfl
  undeleted _ _ _ := rfl
  marked _ _ := rfl
  id _ _ := rfl
  keys _ _ := rfl

/-- A due row is selected under one of its markers. -/
theorem selectedMarker_due {now : Int} {row : Row} (due : row.due now = true) :
    ∃ marker, selectedMarker now row = some marker := by
  unfold selectedMarker
  split
  next deletion =>
    obtain ⟨moment, marked, -⟩ := before_eq_true.mp deletion
    exact ⟨moment, marked⟩
  next deletion =>
    have upload : (before row.uploadPendingAt now && row.deletionPendingAt.isNone) = true := by
      simpa [Row.due, deletion] using due
    rw [if_pos upload]
    obtain ⟨moment, marked, -⟩ := before_eq_true.mp (Bool.and_eq_true_iff.mp upload).1
    exact ⟨moment, marked⟩

section

variable {deployment : Deployment} {worker : Worker} {faults : Faults} {solo : Solo}

theorem retryPendingDeletionRows_takesAll (storage : faults.OfStorage) (now : Int) (rows : List Row)
    (total : Nat) (solo : Solo) (distinct : (rows.map Row.id).Nodup)
    (selected : ∀ row ∈ rows, row ∈ solo.world.table ∧ row.due now = true) :
    ∃ total' solo', runAlone deployment worker faults (retryPendingDeletionRows now rows total) solo =
        (.ok total', solo') ∧ TakesAll worker Row.retried (rows.filter Row.dated) solo solo' := by
  refine takesAll_of_step (fun _ => rfl) ?_ rows total solo distinct selected
  intro row rest total solo member due
  obtain ⟨marker, marked⟩ := selectedMarker_due due
  rw [retryPendingDeletionRows, marked]
  simp only []
  rw [runAlone_answered (storage.nextDeletionClaim _ _), runAlone_bind, runAlone_tryAsk,
    serve_answered (storage.update _ _)]
  cases dated : row.dated with
  | false =>
      have misses : ∀ claim, Misses (.claimPendingDeletion row claim) solo.world :=
        fun claim other inside => sameMarkers_misses dated member inside
      refine ⟨total, _, ?_, @Misses.passesOver worker solo (some marker) _ misses⟩
      rw [@Misses.exec_claim deployment worker solo (some marker) _ misses, andThen_ok]
      rfl
  | true =>
      have taken : (row.due now && row.dated) = true := by rw [due, dated]; rfl
      obtain ⟨count, solo', ran, took⟩ :=
        @Claiming.takesUp deployment worker faults solo _ _ _ (claiming_retry now) storage row member taken
          (some marker)
      refine ⟨total + count, solo', ?_, took⟩
      have met := @Claiming.exec_claim deployment worker solo _ _ _ (claiming_retry now) row member taken
        (some marker)
      rw [met, andThen_ok, if_pos rfl, runAlone_bind]
      exact congrArg (andThen · fun count solo' => runAlone deployment worker faults
        (retryPendingDeletionRows now rest (total + count)) solo') ran

end

/-! ## The batch of one sweep -/

theorem Query.select_length {keyText : StorageKey → String} {query : Query} {limit : Nat}
    (bounded : query.take? = some limit) (rows : List Row) :
    (query.select keyText rows).length = min limit (rows.filter (query.chosen keyText)).length := by
  unfold Query.select
  rw [bounded]
  cases query.orderedBy with
  | none => exact List.length_take
  | some column => rw [List.length_take, List.length_insertionSort]

section Quotas

variable (remaining : Nat) (initial retry : List Row)

theorem unresolvedTombstones_length (first : initial.length ≤ remaining) (second : retry.length ≤ remaining) :
    (unresolvedTombstones remaining initial retry).length =
      min remaining (initial.length + retry.length) := by
  simp only [unresolvedTombstones, List.length_append, List.length_take, List.length_drop]
  omega

/-- Nothing is taken twice. -/
theorem unresolvedTombstones_subperm :
    (unresolvedTombstones remaining initial retry).Subperm (initial ++ retry) := by
  have sublist : (unresolvedTombstones remaining initial retry).Sublist
      ((initial.take ((remaining + 1) / 2) ++ retry.take (remaining - (remaining + 1) / 2)) ++
        (initial.drop ((remaining + 1) / 2) ++ retry.drop (remaining - (remaining + 1) / 2))) :=
    (List.Sublist.refl _).append (List.take_sublist _ _)
  refine sublist.subperm.trans (List.Perm.subperm (List.perm_iff_count.mpr fun row => ?_))
  conv_rhs => rw [← List.take_append_drop ((remaining + 1) / 2) initial,
    ← List.take_append_drop (remaining - (remaining + 1) / 2) retry]
  simp only [List.count_append]
  omega

/-- Each kind gets its half. -/
theorem unresolvedTombstones_initial {chosen : Row → Bool} (all : ∀ row ∈ initial, chosen row = true) :
    min ((remaining + 1) / 2) initial.length ≤
      (unresolvedTombstones remaining initial retry).countP chosen := by
  have half : (initial.take ((remaining + 1) / 2)).countP chosen =
      min ((remaining + 1) / 2) initial.length := by
    rw [List.countP_eq_length.mpr fun row inside => all row (List.mem_of_mem_take inside), List.length_take]
  simp only [unresolvedTombstones, List.countP_append, half]
  omega

theorem unresolvedTombstones_retry {chosen : Row → Bool} (all : ∀ row ∈ retry, chosen row = true) :
    min (remaining / 2) retry.length ≤
      (unresolvedTombstones remaining initial retry).countP chosen := by
  have half : (retry.take (remaining - (remaining + 1) / 2)).countP chosen =
      min (remaining - (remaining + 1) / 2) retry.length := by
    rw [List.countP_eq_length.mpr fun row inside => all row (List.mem_of_mem_take inside), List.length_take]
  simp only [unresolvedTombstones, List.countP_append, half]
  omega

end Quotas

/-- The rows whose deletion is due. -/
def World.dueRows (world : World) (now : Int) : List Row := world.table.rows.filter (Row.due now)

/-- Never claimed, or claimed before. -/
def Row.firstAttempt (row : Row) : Bool := row.uploadPendingAt.isSome && row.deletionPendingAt.isNone

def Row.furtherAttempt (row : Row) : Bool := row.uploadPendingAt.isSome && row.deletionPendingAt.isSome

/-- One sweep over the outbox, and the rows it attempted in their order. -/
structure SweepsOutbox (limit : Nat) (now : Int) (world : World) (solo' : Solo) (rows : List Row) :
    Prop where
  attempts : Attempts solo'.log rows
  distinct : (rows.map Row.id).Nodup
  due : ∀ row ∈ rows, row ∈ world.dueRows now
  length : rows.length = min limit (world.dueRows now).length
  /-- Settled deletions come first; what capacity they leave goes by halves to unresolved uploads. -/
  order : ∃ settled unresolved, rows = settled ++ unresolved ∧
    (∀ row ∈ settled, row.uploadPendingAt = none) ∧ (∀ row ∈ unresolved, row.uploadPendingAt ≠ none) ∧
    settled.length = min limit ((world.dueRows now).countP fun row => row.uploadPendingAt.isNone) ∧
    min ((limit - settled.length + 1) / 2) ((world.dueRows now).countP Row.firstAttempt) ≤
      unresolved.countP Row.firstAttempt ∧
    min ((limit - settled.length) / 2) ((world.dueRows now).countP Row.furtherAttempt) ≤
      unresolved.countP Row.furtherAttempt
  /-- Every attempted row stops being due, and only those. -/
  leaves : solo'.world.dueRows now =
    (world.dueRows now).filter fun row => decide (row.id ∉ rows.map Row.id)
  clock : solo'.world.clock = world.clock

section

variable {keyText : StorageKey → String} {now : Int} {world : World}

theorem settled_eq (limit : Nat) (row : Row) :
    (Query.settledDeletions now limit).chosen keyText row = (row.due now && row.uploadPendingAt.isNone) := by
  cases pending : row.uploadPendingAt <;> simp [Query.chosen, Row.due, pending, before]

theorem initial_eq (limit : Nat) (row : Row) :
    (Query.initialTombstones now limit).chosen keyText row = (row.due now && row.firstAttempt) := by
  cases pending : row.uploadPendingAt <;> cases marked : row.deletionPendingAt <;>
    simp [Query.chosen, Row.due, Row.firstAttempt, pending, marked, before]

theorem retry_eq (limit : Nat) (row : Row) :
    (Query.retryTombstones now limit).chosen keyText row = (row.due now && row.furtherAttempt) := by
  cases pending : row.uploadPendingAt <;> cases marked : row.deletionPendingAt <;>
    simp [Query.chosen, Row.due, Row.furtherAttempt, pending, marked, before, Bool.and_comm]

theorem dueRows_length : (world.dueRows now).length =
    (world.dueRows now).countP (fun row => row.uploadPendingAt.isNone) +
      (world.dueRows now).countP Row.firstAttempt + (world.dueRows now).countP Row.furtherAttempt := by
  induction world.dueRows now with
  | nil => rfl
  | cons row rest ih =>
      simp only [List.length_cons, List.countP_cons, ih]
      cases pending : row.uploadPendingAt <;> cases marked : row.deletionPendingAt <;>
        simp [Row.firstAttempt, Row.furtherAttempt, pending, marked] <;> omega

theorem not_firstAttempt {row : Row} (further : row.furtherAttempt = true) : row.firstAttempt = false := by
  obtain ⟨-, marked⟩ := Bool.and_eq_true_iff.mp further
  unfold Row.firstAttempt
  rw [Option.isNone_eq_false_iff.mpr marked, Bool.and_false]

/-- Rows of a table that differ in some respect have different ids. -/
theorem nodup_ids_append {rows others : List Row} {kind : Row → Bool}
    (first : (rows.map Row.id).Nodup) (second : (others.map Row.id).Nodup)
    (there : ∀ row ∈ rows, row ∈ world.table) (there' : ∀ row ∈ others, row ∈ world.table)
    (one : ∀ row ∈ rows, kind row = true) (other : ∀ row ∈ others, kind row = false) :
    ((rows ++ others).map Row.id).Nodup := by
  rw [List.map_append]
  refine List.nodup_append.mpr ⟨first, second, ?_⟩
  intro id inside id' inside' same
  obtain ⟨row, member, rfl⟩ := List.mem_map.mp inside
  obtain ⟨row', member', rfl⟩ := List.mem_map.mp inside'
  obtain rfl := Keyed.eq_of_key (there row member) (there' row' member') same
  have clash := one row member
  rw [other row member'] at clash
  cases clash

/-- What a query of the sweep answers. -/
theorem select_due {query : Query} {limit : Nat} {kind : Row → Bool} (bounded : query.take? = some limit)
    (chosen : ∀ row, query.chosen keyText row = (row.due now && kind row)) :
    (query.select keyText world.table.rows).length = min limit ((world.dueRows now).countP kind) ∧
    ((query.select keyText world.table.rows).map Row.id).Nodup ∧
    ∀ row ∈ query.select keyText world.table.rows,
      row ∈ world.table ∧ row.due now = true ∧ kind row = true := by
  refine ⟨?_, Query.select_distinct world.table.distinct, ?_⟩
  · rw [Query.select_length bounded, World.dueRows, List.countP_filter, List.countP_eq_length_filter]
    refine congrArg (fun rows => min limit (List.length rows)) (List.filter_congr fun row _ => ?_)
    rw [chosen, Bool.and_comm]
  · intro row inside
    obtain ⟨member, accepted⟩ := Query.mem_of_mem_select inside
    rw [chosen, Bool.and_eq_true_iff] at accepted
    exact ⟨member, accepted⟩

/-- What is taken of the two pages is due and unresolved, and it is taken once. -/
theorem unresolvedTombstones_due (remaining : Nat) {initial retry : List Row}
    (distinct : (initial.map Row.id).Nodup) (distinct' : (retry.map Row.id).Nodup)
    (due : ∀ row ∈ initial, row ∈ world.table ∧ row.due now = true ∧ row.firstAttempt = true)
    (due' : ∀ row ∈ retry, row ∈ world.table ∧ row.due now = true ∧ row.furtherAttempt = true) :
    ((unresolvedTombstones remaining initial retry).map Row.id).Nodup ∧
      ∀ row ∈ unresolvedTombstones remaining initial retry,
        row ∈ world.table ∧ row.due now = true ∧ row.uploadPendingAt.isSome = true := by
  have within := unresolvedTombstones_subperm remaining initial retry
  constructor
  · have both := nodup_ids_append distinct distinct' (fun row inside => (due row inside).1)
      (fun row inside => (due' row inside).1) (fun row inside => (due row inside).2.2)
      fun row inside => not_firstAttempt (due' row inside).2.2
    obtain ⟨kept, perm, sublist⟩ := within
    exact (perm.map Row.id).nodup_iff.mp (both.sublist (sublist.map Row.id))
  · intro row inside
    rcases List.mem_append.mp (within.subset inside) with inside | inside
    · obtain ⟨member, isDue, kind⟩ := due row inside
      exact ⟨member, isDue, (Bool.and_eq_true_iff.mp kind).1⟩
    · obtain ⟨member, isDue, kind⟩ := due' row inside
      exact ⟨member, isDue, (Bool.and_eq_true_iff.mp kind).1⟩

/-- Whatever the storage did, the markers of a row that was taken up are not due. -/
theorem settles_not_due {worker : Worker} {clock : Host → Int} {row after : Row}
    (settled : Settles worker Row.retried clock row after) :
    after.due (clock (.process worker.process)) = false := by
  obtain ⟨claim, later, ⟨moment, rfl⟩ | rfl⟩ := settled
  · cases pending : row.uploadPendingAt with
    | none => simp [Row.due, Row.finalized, Row.retried, pending, before]
    | some moment =>
        have fresh : ¬claim < clock (.process worker.process) := by
          unfold deletionClaimLeaseMs at later
          omega
        simp [Row.due, Row.finalized, Row.retried, pending, before, fresh]
  · have fresh : ¬clock (.process worker.process) + 60000 < clock (.process worker.process) := by omega
    simp [Row.due, Row.backedOff, Row.retried, before, deletionRetryBackoffMs, fresh]

end

section

variable {deployment : Deployment} {worker : Worker} {faults : Faults} {world : World}

/-- The rows of one sweep, selected by the rules. -/
structure OutboxBatch (limit : Nat) (now : Int) (world : World) (settled unresolved : List Row) :
    Prop where
  distinct : ((settled ++ unresolved).map Row.id).Nodup
  due : ∀ row ∈ settled ++ unresolved, row ∈ world.table ∧ row.due now = true
  length : (settled ++ unresolved).length = min limit (world.dueRows now).length
  first : ∀ row ∈ settled, row.uploadPendingAt = none
  second : ∀ row ∈ unresolved, row.uploadPendingAt ≠ none
  settles : settled.length =
    min limit ((world.dueRows now).countP fun row => row.uploadPendingAt.isNone)
  initial : min ((limit - settled.length + 1) / 2) ((world.dueRows now).countP Row.firstAttempt) ≤
    unresolved.countP Row.firstAttempt
  retry : min ((limit - settled.length) / 2) ((world.dueRows now).countP Row.furtherAttempt) ≤
    unresolved.countP Row.furtherAttempt

/-- Where no due row was deleted between two milliseconds, every claim of a sweep is met. -/
theorem OutboxBatch.sweeps {limit : Nat} {now : Int} {settled unresolved : List Row}
    (batch : OutboxBatch limit now world settled unresolved)
    (clock : world.clock (.process worker.process) = now)
    (dated : ∀ row ∈ world.dueRows now, row.dated = true) {log : List (Step sig)}
    (quiet : Traces log [] []) {solo' : Solo}
    (took : TakesAll worker Row.retried ((settled ++ unresolved).filter Row.dated) ⟨world, log⟩ solo') :
    SweepsOutbox limit now world solo' (settled ++ unresolved) := by
  have due : ∀ row ∈ settled ++ unresolved, row ∈ world.dueRows now :=
    fun row inside => List.mem_filter.mpr (batch.due row inside)
  rw [List.filter_eq_self.mpr fun row inside => dated row (due row inside)] at took
  obtain ⟨steps, same, attempts⟩ := took.attempts
  refine ⟨?_, batch.distinct, due, batch.length, ?_, ?_, took.clock⟩
  · rw [same]
    have whole := attempts.append quiet
    simpa [Attempts] using whole
  · exact ⟨settled, unresolved, rfl, batch.first, batch.second, batch.settles, batch.initial, batch.retry⟩
  · refine took.filter fun row _ after settled => ?_
    rw [← clock]
    exact settles_not_due settled

theorem systemDeletionLimit_pos (limit : Option Int) : 0 < systemDeletionLimit limit := by
  unfold systemDeletionLimit
  split
  · decide
  · omega

/-- One sweep, whatever the storage does: what it selects, and that it takes up what its claims meet. -/
theorem retryPendingDeletions_takesAll (storage : faults.OfStorage) (limit : Option Int) {now : Int}
    (clock : world.clock (.process worker.process) = now) :
    ∃ total solo' settled unresolved log,
      runAlone deployment worker faults (unsafeSystemRetryPendingDeletions limit) ⟨world, []⟩ =
        (.ok total, solo') ∧
      OutboxBatch (systemDeletionLimit limit) now world settled unresolved ∧ Traces log [] [] ∧
      TakesAll worker Row.retried ((settled ++ unresolved).filter Row.dated) ⟨world, log⟩ solo' := by
  have takes {settled unresolved : List Row} {log : List (Step sig)}
      (batch : OutboxBatch (systemDeletionLimit limit) now world settled unresolved)
      (quiet : Traces log [] []) : ∃ total solo' settled' unresolved' log',
        runAlone deployment worker faults (retryPendingDeletionRows now (settled ++ unresolved) 0)
          ⟨world, log⟩ = (.ok total, solo') ∧
        OutboxBatch (systemDeletionLimit limit) now world settled' unresolved' ∧ Traces log' [] [] ∧
        TakesAll worker Row.retried ((settled' ++ unresolved').filter Row.dated) ⟨world, log'⟩ solo' := by
    obtain ⟨total, solo', ran, took⟩ := @retryPendingDeletionRows_takesAll deployment worker faults storage
      now (settled ++ unresolved) 0 ⟨world, log⟩ batch.distinct batch.due
    exact ⟨total, solo', settled, unresolved, log, ran, batch, quiet, took⟩
  unfold unsafeSystemRetryPendingDeletions
  rw [runAlone_now storage, clock, runAlone_select storage]
  simp only []
  have whole := @dueRows_length now world
  obtain ⟨length, distinct, due⟩ := @select_due deployment.keyText now world
    (.settledDeletions now (systemDeletionLimit limit)) (systemDeletionLimit limit) _ rfl (settled_eq _)
  generalize (Query.settledDeletions now (systemDeletionLimit limit)).select deployment.keyText
    world.table.rows = settled at *
  have first : ∀ row ∈ settled, row.uploadPendingAt = none := fun row inside => by
    simpa using (due row inside).2.2
  split
  next full =>
    rw [← List.append_nil settled]
    refine takes ⟨by simpa using distinct, ?_, ?_, first, by simp, length, by rw [full]; simp,
      by rw [full]; simp⟩ ⟨rfl, rfl⟩
    · rw [List.append_nil]
      exact fun row inside => ⟨(due row inside).1, (due row inside).2.1⟩
    · rw [List.append_nil, length]
      omega
  next spare =>
    rw [runAlone_select storage, runAlone_select storage]
    generalize capacity : systemDeletionLimit limit - settled.length = remaining at *
    obtain ⟨length', distinct', due'⟩ := @select_due deployment.keyText now world
      (.initialTombstones now remaining) remaining _ rfl (initial_eq _)
    obtain ⟨length'', distinct'', due''⟩ := @select_due deployment.keyText now world
      (.retryTombstones now remaining) remaining _ rfl (retry_eq _)
    generalize (Query.initialTombstones now remaining).select deployment.keyText world.table.rows =
      initial at *
    generalize (Query.retryTombstones now remaining).select deployment.keyText world.table.rows =
      retry at *
    obtain ⟨distinct₂, due₂⟩ := unresolvedTombstones_due remaining distinct' distinct'' due' due''
    refine takes ⟨?_, ?_, ?_, first, ?_, length, ?_, ?_⟩ ⟨rfl, rfl⟩
    · exact nodup_ids_append distinct distinct₂ (fun row inside => (due row inside).1)
        (fun row inside => (due₂ row inside).1) (fun row inside => (due row inside).2.2)
        fun row inside => by simpa using (due₂ row inside).2.2
    · intro row inside
      rcases List.mem_append.mp inside with inside | inside
      · exact ⟨(due row inside).1, (due row inside).2.1⟩
      · exact ⟨(due₂ row inside).1, (due₂ row inside).2.1⟩
    · rw [List.length_append, unresolvedTombstones_length remaining initial retry (by omega) (by omega)]
      omega
    · intro row inside
      exact Option.isSome_iff_ne_none.mp (due₂ row inside).2.2
    · rw [capacity]
      have half := unresolvedTombstones_initial remaining initial retry fun row inside =>
        (due' row inside).2.2
      omega
    · rw [capacity]
      have half := unresolvedTombstones_retry remaining initial retry fun row inside =>
        (due'' row inside).2.2
      omega

/-- The worlds between consecutive sweeps at one instant, with the steps of the sweep before. -/
def sweepRuns (deployment : Deployment) (worker : Worker) (faults : Nat → Faults) (body : Service Nat)
    (world : World) : Nat → Solo
  | 0 => ⟨world, []⟩
  | i + 1 => (runAlone deployment worker (faults i) body
      ⟨(sweepRuns deployment worker faults body world i).world, []⟩).2

/-- Sweeps that take up only rows whose deletion a date can tell never attempt another row. -/
theorem not_attempted {held : Row → Int → Row} {sweeps : Nat → Solo}
    (each : ∀ i, ∃ rows log, (∀ row ∈ rows, row ∈ (sweeps i).world.table ∧ row.dated = true) ∧
      Traces log [] [] ∧ TakesAll worker held rows ⟨(sweeps i).world, log⟩ (sweeps (i + 1)))
    {row : Row} (member : row ∈ (sweeps 0).world.table) (undated : row.dated = false) (i : Nat) :
    ¬ ∃ rows, Attempts (sweeps (i + 1)).log rows ∧ row ∈ rows := by
  have outside {i : Nat} (there : row ∈ (sweeps i).world.table) {rows : List Row}
      (taken : ∀ row ∈ rows, row ∈ (sweeps i).world.table ∧ row.dated = true) :
      row.id ∉ rows.map Row.id := by
    intro listed
    obtain ⟨other, inside, same⟩ := List.mem_map.mp listed
    obtain ⟨there', dated⟩ := taken other inside
    obtain rfl := Keyed.eq_of_key there' there same
    cases dated.symm.trans undated
  have stays : row ∈ (sweeps i).world.table := by
    induction i with
    | zero => exact member
    | succ i ih =>
        obtain ⟨rows, log, taken, -, took⟩ := each i
        exact took.stays ih (outside ih taken)
  rintro ⟨claimed, attempts, inside⟩
  obtain ⟨rows, log, taken, quiet, took⟩ := each i
  obtain ⟨steps, same, attempts'⟩ := took.attempts
  have ids := (attempts'.append quiet).claimed
  rw [← same, attempts.claimed, List.nil_append] at ids
  exact outside stays taken (ids ▸ List.mem_map_of_mem inside)

/-- The outbox makes progress: every sweep attempts as many due rows as fit, by the rules, each
leaves the window, and so many sweeps as there are full batches, rounded up, attempt every row. -/
structure OutboxProgress (deployment : Deployment) (worker : Worker) (limit : Option Int)
    (faults : Nat → Faults) (world : World) : Prop where
  sweeps : ∀ i, ∃ rows, SweepsOutbox (systemDeletionLimit limit)
    (world.clock (.process worker.process))
    (sweepRuns deployment worker faults (unsafeSystemRetryPendingDeletions limit) world i).world
    (sweepRuns deployment worker faults (unsafeSystemRetryPendingDeletions limit) world (i + 1)) rows
  reached : ∀ row ∈ world.dueRows (world.clock (.process worker.process)),
    ∃ i < ((world.dueRows (world.clock (.process worker.process))).length +
        systemDeletionLimit limit - 1) / systemDeletionLimit limit,
      ∃ rows, Attempts (sweepRuns deployment worker faults (unsafeSystemRetryPendingDeletions limit)
        world (i + 1)).log rows ∧ row ∈ rows

section

variable {limit : Option Int} {faults : Nat → Faults} (storage : ∀ i, (faults i).OfStorage)

include storage

/-- What the sweep with number `i` selects and takes up. -/
theorem sweepRuns_takesAll {now : Int} (i : Nat)
    (clock : (sweepRuns deployment worker faults (unsafeSystemRetryPendingDeletions limit) world
      i).world.clock (.process worker.process) = now) :
    let sweeps := sweepRuns deployment worker faults (unsafeSystemRetryPendingDeletions limit) world
    ∃ settled unresolved log,
      OutboxBatch (systemDeletionLimit limit) now (sweeps i).world settled unresolved ∧ Traces log [] [] ∧
      TakesAll worker Row.retried ((settled ++ unresolved).filter Row.dated) ⟨(sweeps i).world, log⟩
        (sweeps (i + 1)) := by
  intro sweeps
  obtain ⟨_, solo', settled, unresolved, log, ran, batch, quiet, took⟩ :=
    @retryPendingDeletions_takesAll deployment worker (faults i) (sweeps i).world (storage i) limit now clock
  have same : sweeps (i + 1) = solo' := congrArg Prod.snd ran
  exact ⟨settled, unresolved, log, batch, quiet, same ▸ took⟩

/-- Where dates tell the deletions that are due, they do so in every sweep: it attempts a full batch. -/
theorem sweepRuns_sweeps
    (dated : ∀ row ∈ world.dueRows (world.clock (.process worker.process)), row.dated = true) (i : Nat) :
    ∃ rows, SweepsOutbox (systemDeletionLimit limit) (world.clock (.process worker.process))
      (sweepRuns deployment worker faults (unsafeSystemRetryPendingDeletions limit) world i).world
      (sweepRuns deployment worker faults (unsafeSystemRetryPendingDeletions limit) world (i + 1)) rows := by
  let sweeps := sweepRuns deployment worker faults (unsafeSystemRetryPendingDeletions limit) world
  have swept : ∀ i, (sweeps i).world.clock = world.clock →
      (∀ row ∈ (sweeps i).world.dueRows (world.clock (.process worker.process)), row.dated = true) →
      ∃ rows, SweepsOutbox (systemDeletionLimit limit) (world.clock (.process worker.process))
        (sweeps i).world (sweeps (i + 1)) rows := by
    intro i clock dated
    obtain ⟨settled, unresolved, log, batch, quiet, took⟩ :=
      @sweepRuns_takesAll deployment worker world limit faults storage _ i (congrFun clock _)
    exact ⟨_, batch.sweeps (congrFun clock _) dated quiet took⟩
  have still : (sweeps i).world.clock = world.clock ∧
      ∀ row ∈ (sweeps i).world.dueRows (world.clock (.process worker.process)), row.dated = true := by
    induction i with
    | zero => exact ⟨rfl, dated⟩
    | succ i ih =>
        obtain ⟨rows, sweep⟩ := swept i ih.1 ih.2
        refine ⟨sweep.clock.trans ih.1, fun row due => ih.2 row ?_⟩
        rw [sweep.leaves] at due
        exact (List.mem_filter.mp due).1
  exact swept i still.1 still.2

end

/-- **The outbox makes progress** past poison rows exactly if no row whose deletion is due was
marked deleted between two milliseconds. -/
theorem retry_sweeps_progress_iff (deployment : Deployment) (worker : Worker) (limit : Option Int)
    {faults : Nat → Faults} (storage : ∀ i, (faults i).OfStorage) (world : World) :
    OutboxProgress deployment worker limit faults world ↔
      ∀ row ∈ world.dueRows (world.clock (.process worker.process)),
        ∀ moment, row.deletedAt = some moment → moment.micros = 0 := by
  simp only [← Row.dated_eq_true]
  constructor
  · intro progress row due
    obtain ⟨i, -, attempted⟩ := progress.reached row due
    by_contra undated
    refine @not_attempted worker Row.retried _ (fun i => ?_) row (List.mem_filter.mp due).1
      (Bool.eq_false_iff.mpr undated) i attempted
    obtain ⟨settled, unresolved, log, batch, quiet, took⟩ :=
      @sweepRuns_takesAll deployment worker world limit faults storage _ i rfl
    refine ⟨_, log, fun row inside => ?_, quiet, took⟩
    obtain ⟨inside, dated⟩ := List.mem_filter.mp inside
    exact ⟨(batch.due row inside).1, dated⟩
  · intro dated
    refine ⟨sweepRuns_sweeps storage dated, fun row due => ?_⟩
    choose rows sweep using @sweepRuns_sweeps deployment worker world limit faults storage dated
    obtain ⟨i, soon, taken⟩ := @rows_reached Row Uuid _ Row.id (systemDeletionLimit limit)
      (fun i => (sweepRuns deployment worker faults (unsafeSystemRetryPendingDeletions limit) world
        i).world.dueRows (world.clock (.process worker.process))) rows (systemDeletionLimit_pos limit)
      (world.table.distinct.sublist (List.filter_sublist.map Row.id))
      (fun i => (sweep i).due) (fun i => (sweep i).distinct) (fun i => (sweep i).length)
      (fun i => (sweep i).leaves) row due
    exact ⟨i, soon, rows i, (sweep i).attempts, taken⟩

end

/-! Two deletions are due, and the storage never deletes anything. -/

def twoDue : World :=
  { World.initial 1000 with
    table := ⟨[{ readyRow with id := 0, deletionPendingAt := some 1 },
      { readyRow with id := 1, deletionPendingAt := some 2 }], by decide⟩ }

/-- The second row is reached although the first one fails for ever. -/
theorem retry_sweeps_progress_twoDue :
    ∃ i < 2, ∃ rows, Attempts (sweepRuns (smallConfig .s3).toDeployment ⟨0, 0⟩ (fun _ => .refusing fun _ => true)
        (unsafeSystemRetryPendingDeletions (some 1)) twoDue (i + 1)).log rows ∧
      { readyRow with id := 1, deletionPendingAt := some 2 } ∈ rows := by
  have whole : ∀ row ∈ twoDue.dueRows 1000, ∀ moment, row.deletedAt = some moment → moment.micros = 0 := by
    intro row due moment deleted
    have all : (twoDue.dueRows 1000).all fun row => row.deletedAt.isNone := by decide +kernel
    have none := List.all_eq_true.mp all row due
    rw [deleted] at none
    cases none
  exact ((retry_sweeps_progress_iff (smallConfig .s3).toDeployment ⟨0, 0⟩ (some 1)
    (fun _ => refusing_ofStorage _) twoDue).mpr whole).reached _ (by decide +kernel)

/-- Deleted 123 microseconds after a millisecond, by a run whose last UPDATE failed. -/
def tombstoneRow : Row := { readyRow with deletedAt := some ⟨1, 123, by decide⟩, deletionPendingAt := some 2 }

def tombstone : World := { World.initial 1000 with table := ⟨[tombstoneRow], by decide⟩ }

/-- The storage deletes whatever it is asked to, but is never asked. -/
theorem tombstone_never_attempted :
    ¬ OutboxProgress (smallConfig .s3).toDeployment ⟨0, 0⟩ (some 1) (fun _ => .refusing fun _ => false)
      tombstone := by
  rw [retry_sweeps_progress_iff _ _ _ fun _ => refusing_ofStorage _]
  intro whole
  cases whole tombstoneRow (by decide +kernel) ⟨1, 123, by decide⟩ rfl

end SdcoreNest.UploadedFile
