/-
# UploadedFile.Usage -- marking files as used against purging unused ones

`markUsed`, `useFiles` and `unsafeSystemPurgeUnusedBefore` each read a batch and then
UPDATE it in one transaction that fails unless every row of the batch matched.  Here these
transactions run one row at a time over `Theory.ReadCommitted`, with everything else the
service does to the table as the environment.

`used_never_purged` is the result: no file is both marked as used and claimed by a purge,
in either order, and a transaction that matched part of its batch changes no row.
-/
import SdcoreNest.Theory.ReadCommitted
import SdcoreNest.UploadedFile.Lifecycle
import SdcoreNest.UploadedFile.Routine

namespace SdcoreNest.UploadedFile

open SdcoreNest.Theory

set_option autoImplicit false

/-- The requests that mark files as used or purge unused ones. -/
def Request.concernsUsage : Request → Bool
  | .markUsed .. | .useFiles .. | .changeFiles .. | .unsafeSystemPurgeUnusedBefore .. => true
  | _ => false

namespace Statement

def marksUsed : Statement → Bool
  | .markUsed .. => true
  | _ => false

def claimsUnused : Statement → Bool
  | .claimUnused .. => true
  | _ => false

/-- The statement with the number of rows its transaction asks for. -/
def counted (clock : Moment) (statement : Statement) (count : Nat) : Counted Row :=
  ⟨statement.chosen, statement.patch clock, count⟩

theorem counted_keeps (statement : Statement) (clock : Moment) (count : Nat) (row : Row) :
    ((statement.counted clock count).patch row).id = row.id := statement.patch_id clock row

end Statement

/-- A transaction whose UPDATE has ended. -/
structure Attempt where
  statement : Statement
  found : List Uuid
  committed : Bool
  before : Table
  after : Table

/-- Some row of the batch was not matched. -/
def Attempt.Partial (attempt : Attempt) : Prop :=
  ∃ ids, attempt.statement.batch = some ids ∧ ∃ id ∈ ids, id ∉ attempt.found

/-- The table with its open transactions, the running requests and the ended transactions. -/
structure Race where
  store : Store Uuid Row Row.id
  threads : Nat → Option (Program sig Outcome)
  history : List Attempt

namespace Race

/-- A transaction that marked the file as used has committed. -/
def Marked (race : Race) (id : Uuid) : Prop :=
  ∃ attempt ∈ race.history, attempt.committed = true ∧
    ∃ ids access metadata, attempt.statement = .markUsed ids access metadata ∧ id ∈ ids

/-- A transaction that claimed the file for a purge has committed. -/
def Purged (race : Race) (id : Uuid) : Prop :=
  ∃ attempt ∈ race.history, attempt.committed = true ∧
    ∃ rows cutoff claim, attempt.statement = .claimUnused rows cutoff claim ∧
      id ∈ rows.map Row.id

def resume (race : Race) (number : Nat) (program : Program sig Outcome) : Race :=
  { race with
    threads := fun other => if other = number then some program else race.threads other }

/-- The transaction of a thread ends and leaves `store`; the thread goes on with `program`. -/
def conclude (race : Race) (number : Nat) (program : Program sig Outcome) (statement : Statement)
    (found : List Row) (committed : Bool) (store : Store Uuid Row Row.id) : Race :=
  { race.resume number program with
    store := store
    history :=
      ⟨statement, found.map Row.id, committed, race.store.table, store.table⟩ :: race.history }

/-- One step at row granularity. -/
inductive Step (config : Config) (race : Race) : Race → Prop where
  | spawn (number : Nat) (request : Request) (fresh : race.threads number = none)
      (concerns : request.concernsUsage = true) :
      Step config race (race.resume number (launch config request))
  /-- A SELECT sees the committed rows of the moment it runs. -/
  | select (number : Nat) (query : Query) (next : Option (List Row) → Program sig Outcome)
      (waiting : race.threads number = some (.ask (.find query) next)) :
      Step config race
        (race.resume number (next (some (query.select config.keyText race.store.table.rows))))
  /-- Any reply of any other call, or a throw.  What an UPDATE outside a transaction does to
  the table is an `elsewhere` step. -/
  | reply (number : Nat) (call : Call) (next : Option call.Answer → Program sig Outcome)
      (reply : Option call.Answer) (waiting : race.threads number = some (.ask call next))
      (single : ∀ statement count, call ≠ .transact statement count)
      (unread : ∀ query, call = .find query → reply = none) :
      Step config race (race.resume number (next reply))
  | begins (number : Nat) (statement : Statement) (count : Nat)
      (next : Option Bool → Program sig Outcome) (clock : Moment)
      (waiting : race.threads number = some (.ask (.transact statement count) next))
      (closed : race.store.sessions number = none) :
      Step config race
        { race with store := race.store.open_ number (statement.counted clock count) }
  /-- The UPDATE meets a row that matches its whole criteria and that nobody has locked. -/
  | locks (number : Nat) (session : Session Row) (row : Row)
      (opened : race.store.sessions number = some session) (member : row ∈ race.store.table)
      (chosen : session.update.chosen row = true) (free : race.store.Free row.id) :
      Step config race { race with store := race.store.lock number session row }
  /-- The count is right: the transaction commits; its acknowledgement may be lost. -/
  | commits (number : Nat) (statement : Statement) (count : Nat)
      (next : Option Bool → Program sig Outcome) (clock : Moment) (found : List Row)
      (reply : Option Bool)
      (waiting : race.threads number = some (.ask (.transact statement count) next))
      (opened : race.store.sessions number = some ⟨statement.counted clock count, found⟩)
      (counted : found.length = count) (replied : reply = some true ∨ reply = none) :
      Step config race
        (race.conclude number (next reply) statement found true
          (race.store.commit number ⟨statement.counted clock count, found⟩
            (statement.counted_keeps clock count)))
  /-- The count is wrong, or the connection or a lock is lost: the transaction is undone. -/
  | undoes (number : Nat) (statement : Statement) (count : Nat)
      (next : Option Bool → Program sig Outcome) (clock : Moment) (found : List Row)
      (reply : Option Bool)
      (waiting : race.threads number = some (.ask (.transact statement count) next))
      (opened : race.store.sessions number = some ⟨statement.counted clock count, found⟩)
      (replied : reply = none ∨ reply = some false ∧ found.length ≠ count) :
      Step config race
        (race.conclude number (next reply) statement found false (race.store.rollback number))
  /-- Any other UPDATE of the service, in time or late. -/
  | elsewhere (statement : Statement) (clock : Moment) (unmarked : statement.marksUsed = false)
      (unclaimed : statement.claimsUnused = false)
      (free : ∀ row ∈ race.store.table, statement.chosen row = true → race.store.Free row.id) :
      Step config race
        { race with
          store := race.store.write statement.chosen (statement.patch clock)
            (statement.patch_id clock) }
  | inserts (row : Row) (absent : ∀ other ∈ race.store.table, other.id ≠ row.id) :
      Step config race { race with store := race.store.insert row }

/-- Reachable from a table that no transaction is changing. -/
inductive Reachable (config : Config) (table : Table) : Race → Prop where
  | start : Reachable config table ⟨.idle table, fun _ => none, []⟩
  | step {race race' : Race} (reached : Reachable config table race)
      (stepped : Step config race race') : Reachable config table race'

end Race

/-! ## What the programs ask of a transaction -/

/-- A batch is marked or purged with the number of its ids as the count. -/
def batchwise : Conduct sig where
  allows _ call := match call with
    | .transact statement count => ∃ ids, statement.batch = some ids ∧ count = ids.length
    | _ => True
  credible _ := True

section Conduct

variable {config : Config} {past : Past}

theorem mem_batch_of_chosen {statement : Statement} {ids : List Uuid} {row : Row}
    (batched : statement.batch = some ids) (chosen : statement.chosen row = true) :
    row.id ∈ ids := by
  cases statement with
  | markUsed ids' access metadata =>
      cases batched
      simp only [Statement.chosen, Bool.and_eq_true, decide_eq_true_eq] at chosen
      exact chosen.2
  | claimUnused rows cutoff claim =>
      cases batched
      simp only [Statement.chosen, Bool.and_eq_true, decide_eq_true_eq] at chosen
      exact chosen.2
  | claimReferences rows access claim =>
      cases batched
      simp only [Statement.chosen, Bool.and_eq_true, decide_eq_true_eq] at chosen
      exact chosen.2
  | _ => cases batched

theorem batchwise_lenient : Lenient batchwise where
  routine := by
    intro past call routine
    cases call with
    | transact statement count => cases routine
    | _ => trivial
  batches batched := ⟨_, batched, rfl⟩

/-- Every transaction of these requests asks for its whole batch. -/
theorem launch_batchwise {request : Request} (concerns : request.concernsUsage = true) :
    Program.Obeys batchwise (launch config request) [] fun _ _ => True := by
  cases request with
  | markUsed caller ids meta? =>
      exact replying_obeys _ (batchwise_lenient.markUsed caller ids meta?)
  | useFiles caller references entity entityId =>
      exact replying_obeys _ (batchwise_lenient.useFiles caller references entity entityId)
  | changeFiles caller olds news entity entityId =>
      exact replying_obeys _ (batchwise_lenient.changeFiles caller olds news entity entityId)
  | unsafeSystemPurgeUnusedBefore cutoff =>
      exact replying_obeys _ (batchwise_lenient.purgeUnusedBefore cutoff)
  | _ => cases concerns

end Conduct

/-! ## What every step keeps -/

namespace Race

/-- The row with the id is there and satisfies `p`. -/
def Finds (table : Table) (p : Row → Bool) (id : Uuid) : Prop :=
  ∃ row ∈ table, row.id = id ∧ p row = true

theorem Finds.congr {table table' : Table} {p : Row → Bool} {id : Uuid} (same : table' = table)
    (found : Finds table p id) : Finds table' p id := same ▸ found

/-- What the ended transactions leave behind. -/
structure Inv (race : Race) : Prop where
  sound : race.store.Sound
  obedient : ∀ number program, race.threads number = some program →
    ∃ past, Program.Obeys batchwise program past fun _ _ => True
  marked : ∀ id, race.Marked id → Finds race.store.table Row.isUsed id
  purged : ∀ id, race.Purged id → Finds race.store.table Row.touched id
  apart : ∀ id, race.Marked id → ¬ race.Purged id
  whole : ∀ attempt ∈ race.history, attempt.Partial → attempt.after = attempt.before

theorem inv_start (table : Table) : Inv ⟨.idle table, fun _ => none, []⟩ where
  sound := Store.idle_sound table
  obedient _ _ running := by cases running
  marked _ marked := by
    obtain ⟨_, inside, _⟩ := marked
    exact absurd inside List.not_mem_nil
  purged _ purged := by
    obtain ⟨_, inside, _⟩ := purged
    exact absurd inside List.not_mem_nil
  apart _ marked := by
    obtain ⟨_, inside, _⟩ := marked
    exact absurd inside List.not_mem_nil
  whole _ inside := absurd inside List.not_mem_nil

section Rows

variable {table : Table} {statement : Statement} {clock : Moment} {row : Row} {id : Uuid}

/-- A mark, once set, stays. -/
theorem isUsed_patch (used : row.isUsed = true) : (statement.patch clock row).isUsed = true := by
  cases statement <;> first | exact used | rfl

/-- An UPDATE of the service keeps what its patches keep. -/
theorem Finds.update {p : Row → Bool} (found : Finds table p id)
    (keeps : ∀ row, statement.chosen row = true → p row = true →
      p (statement.patch clock row) = true) :
    Finds (table.update statement.chosen (statement.patch clock) (statement.patch_id clock)) p
      id := by
  obtain ⟨row, member, same, holds⟩ := found
  refine ⟨_, (Keyed.mem_update _).mpr ⟨row, member, rfl⟩, ?_⟩
  split
  · rename_i chosen
    exact ⟨(statement.patch_id clock row).trans same, keeps row chosen holds⟩
  · exact ⟨same, holds⟩

theorem Finds.update_isUsed (found : Finds table Row.isUsed id) :
    Finds (table.update statement.chosen (statement.patch clock) (statement.patch_id clock))
      Row.isUsed id :=
  found.update fun _ _ => isUsed_patch

theorem Finds.update_touched (found : Finds table Row.touched id) :
    Finds (table.update statement.chosen (statement.patch clock) (statement.patch_id clock))
      Row.touched id :=
  found.update fun _ => Statement.touched_patch clock

/-- The patch of a matched row is in the table after the UPDATE. -/
theorem finds_of_chosen {p : Row → Bool} (member : row ∈ table) (same : row.id = id)
    (chosen : statement.chosen row = true) (patched : p (statement.patch clock row) = true) :
    Finds (table.update statement.chosen (statement.patch clock) (statement.patch_id clock)) p
      id :=
  ⟨_, (Keyed.mem_update _).mpr ⟨row, member, (if_pos chosen).symm⟩,
    (statement.patch_id clock row).trans same, patched⟩

theorem visible_of_markUsed {ids : List Uuid} {access : Access} {metadata : Meta}
    (chosen : (Statement.markUsed ids access metadata).chosen row = true) :
    row.visible = true := by
  simp only [Statement.chosen, Bool.and_eq_true] at chosen
  exact (Access.active_eq_true.mp chosen.1).2

theorem unused_of_claimUnused {rows : List Row} {cutoff claim : Int}
    (chosen : (Statement.claimUnused rows cutoff claim).chosen row = true) :
    row.isUsed = false := by
  simp only [Statement.chosen, Bool.and_eq_true] at chosen
  exact (unusedBefore_eq_true.mp chosen.1).2.1

end Rows

variable {config : Config} {race race' : Race}

/-- A running thread goes on obediently after any reply. -/
theorem Inv.goes_on (inv : race.Inv) {number : Nat} {call : Call}
    {next : Option call.Answer → Program sig Outcome}
    (waiting : race.threads number = some (.ask call next)) (reply : Option call.Answer) :
    ∃ past, Program.Obeys batchwise (next reply) past fun _ _ => True := by
  obtain ⟨past, obeys⟩ := inv.obedient number _ waiting
  exact ⟨_, obeys.2 reply trivial⟩

/-- Resuming one thread changes no table and no history. -/
theorem Inv.resume (inv : race.Inv) {number : Nat} {program : Program sig Outcome}
    (obeys : ∃ past, Program.Obeys batchwise program past fun _ _ => True) :
    (race.resume number program).Inv where
  sound := inv.sound
  obedient other running started := by
    by_cases same : other = number
    · simp only [Race.resume, if_pos same, Option.some.injEq] at started
      exact started ▸ obeys
    · simp only [Race.resume, if_neg same] at started
      exact inv.obedient other running started
  marked := inv.marked
  purged := inv.purged
  apart := inv.apart
  whole := inv.whole

/-- Changing the store is fine if marked rows stay marked and claimed rows stay claimed. -/
theorem Inv.setStore (inv : race.Inv) {store : Store Uuid Row Row.id} (sound : store.Sound)
    (marked : ∀ id, Finds race.store.table Row.isUsed id → Finds store.table Row.isUsed id)
    (purged : ∀ id, Finds race.store.table Row.touched id → Finds store.table Row.touched id) :
    Inv { race with store := store } where
  sound := sound
  obedient := inv.obedient
  marked id is := marked id (inv.marked id is)
  purged id is := purged id (inv.purged id is)
  apart := inv.apart
  whole := inv.whole

/-- A transaction that is undone leaves no trace but its end. -/
theorem Inv.undoes (inv : race.Inv) {number : Nat} {program : Program sig Outcome}
    (obeys : ∃ past, Program.Obeys batchwise program past fun _ _ => True)
    (statement : Statement) (found : List Row) :
    (race.conclude number program statement found false (race.store.rollback number)).Inv where
  sound := Store.rollback_sound inv.sound
  obedient := (inv.resume obeys).obedient
  marked id marked := by
    obtain ⟨attempt, inside, committed, marking⟩ := marked
    rcases List.mem_cons.mp inside with rfl | old
    · cases committed
    · exact inv.marked id ⟨attempt, old, committed, marking⟩
  purged id purged := by
    obtain ⟨attempt, inside, committed, purging⟩ := purged
    rcases List.mem_cons.mp inside with rfl | old
    · cases committed
    · exact inv.purged id ⟨attempt, old, committed, purging⟩
  apart id marked purged := by
    obtain ⟨attempt, inside, committed, marking⟩ := marked
    obtain ⟨attempt', inside', committed', purging⟩ := purged
    rcases List.mem_cons.mp inside with rfl | old
    · cases committed
    · rcases List.mem_cons.mp inside' with rfl | old'
      · cases committed'
      · exact inv.apart id ⟨attempt, old, committed, marking⟩ ⟨attempt', old', committed', purging⟩
  whole attempt inside missed := by
    rcases List.mem_cons.mp inside with rfl | old
    · rfl
    · exact inv.whole attempt old missed

/-! ## A transaction that commits -/

section Commit

variable {number count : Nat} {statement : Statement} {clock : Moment} {found : List Row}
  {ids : List Uuid}

/-- Each file of the batch has its row, and the row matched. -/
theorem Inv.matched (inv : race.Inv) (batched : statement.batch = some ids)
    (opened : race.store.sessions number = some ⟨statement.counted clock count, found⟩)
    (counted : found.length = ids.length) {id : Uuid} (inside : id ∈ ids) :
    ∃ row ∈ found, row ∈ race.store.table ∧ row.id = id ∧ statement.chosen row = true := by
  obtain ⟨row, mine, same⟩ := Store.found_of_counted inv.sound opened
    (fun _ chosen => mem_batch_of_chosen batched chosen) counted inside
  obtain ⟨member, chosen⟩ := inv.sound.matched number _ opened row mine
  exact ⟨row, mine, member, same, chosen⟩

/-- A file marked by the transaction that commits was claimed by no purge. -/
theorem Inv.newly_marked (inv : race.Inv) (batched : statement.batch = some ids)
    (opened : race.store.sessions number = some ⟨statement.counted clock count, found⟩)
    (counted : found.length = ids.length) {ids' : List Uuid} {access : Access} {metadata : Meta}
    (marking : statement = .markUsed ids' access metadata) {id : Uuid} (inside : id ∈ ids') :
    Finds (race.store.table.update statement.chosen (statement.patch clock)
      (statement.patch_id clock)) Row.isUsed id ∧ ¬ race.Purged id := by
  subst marking
  cases batched
  obtain ⟨row, -, member, same, chosen⟩ := inv.matched rfl opened counted inside
  refine ⟨finds_of_chosen member same chosen rfl, fun purged => ?_⟩
  obtain ⟨claimed, member', same', touched⟩ := inv.purged id purged
  have itself : claimed = row := Keyed.eq_of_key member' member (same'.trans same.symm)
  have hidden := Row.not_visible_of_touched (itself ▸ touched)
  rw [visible_of_markUsed chosen] at hidden
  cases hidden

/-- A file claimed by the purge that commits was not marked as used. -/
theorem Inv.newly_purged (inv : race.Inv) (batched : statement.batch = some ids)
    (opened : race.store.sessions number = some ⟨statement.counted clock count, found⟩)
    (counted : found.length = ids.length) {rows : List Row} {cutoff claim : Int}
    (purging : statement = .claimUnused rows cutoff claim) {id : Uuid}
    (inside : id ∈ rows.map Row.id) :
    Finds (race.store.table.update statement.chosen (statement.patch clock)
      (statement.patch_id clock)) Row.touched id ∧ ¬ race.Marked id := by
  subst purging
  cases batched
  obtain ⟨row, -, member, same, chosen⟩ := inv.matched rfl opened counted inside
  refine ⟨finds_of_chosen member same chosen ?_, fun marked => ?_⟩
  · simp [Statement.patch, Row.touched]
  · obtain ⟨used, member', same', isUsed⟩ := inv.marked id marked
    have itself : used = row := Keyed.eq_of_key member' member (same'.trans same.symm)
    rw [itself, unused_of_claimUnused chosen] at isUsed
    cases isUsed

variable {next : Option Bool → Program sig Outcome} {reply : Option Bool}

theorem Inv.commits (inv : race.Inv)
    (waiting : race.threads number = some (.ask (.transact statement count) next))
    (opened : race.store.sessions number = some ⟨statement.counted clock count, found⟩)
    (counted : found.length = count) :
    (race.conclude number (next reply) statement found true
      (race.store.commit number ⟨statement.counted clock count, found⟩
        (statement.counted_keeps clock count))).Inv := by
  obtain ⟨past, ⟨ids, batched, rightCount⟩, -⟩ := inv.obedient number _ waiting
  have whole : found.length = ids.length := counted.trans rightCount
  have table : (race.store.commit number ⟨statement.counted clock count, found⟩
      (statement.counted_keeps clock count)).table =
        race.store.table.update statement.chosen (statement.patch clock)
          (statement.patch_id clock) :=
    Store.commit_whole inv.sound opened
      (fun _ chosen => mem_batch_of_chosen batched chosen) whole _
  refine ⟨Store.commit_sound inv.sound opened _, (inv.resume (inv.goes_on waiting reply)).obedient,
    ?_, ?_, ?_, ?_⟩
  · rintro id ⟨attempt, inside, committed, ids', access, metadata, marking, mine⟩
    refine Finds.congr table ?_
    rcases List.mem_cons.mp inside with rfl | old
    · exact (inv.newly_marked batched opened whole marking mine).1
    · exact (inv.marked id
        ⟨attempt, old, committed, ids', access, metadata, marking, mine⟩).update_isUsed
  · rintro id ⟨attempt, inside, committed, rows, cutoff, claim, purging, mine⟩
    refine Finds.congr table ?_
    rcases List.mem_cons.mp inside with rfl | old
    · exact (inv.newly_purged batched opened whole purging mine).1
    · exact (inv.purged id
        ⟨attempt, old, committed, rows, cutoff, claim, purging, mine⟩).update_touched
  · rintro id ⟨attempt, inside, committed, ids', access, metadata, marking, mine⟩
      ⟨attempt', inside', committed', rows, cutoff, claim, purging, mine'⟩
    rcases List.mem_cons.mp inside with rfl | old
    · rcases List.mem_cons.mp inside' with rfl | old'
      · rw [marking] at purging
        cases purging
      · exact (inv.newly_marked batched opened whole marking mine).2
          ⟨attempt', old', committed', rows, cutoff, claim, purging, mine'⟩
    · have marked : race.Marked id :=
        ⟨attempt, old, committed, ids', access, metadata, marking, mine⟩
      rcases List.mem_cons.mp inside' with rfl | old'
      · exact (inv.newly_purged batched opened whole purging mine').2 marked
      · exact inv.apart id marked ⟨attempt', old', committed', rows, cutoff, claim, purging, mine'⟩
  · rintro attempt inside ⟨ids', batched', id, mine, missing⟩
    rcases List.mem_cons.mp inside with rfl | old
    · -- every file of the batch was matched
      rw [batched] at batched'
      cases batched'
      obtain ⟨row, matched, -, same, -⟩ := inv.matched batched opened whole mine
      exact absurd (List.mem_map.mpr ⟨row, matched, same⟩) missing
    · exact inv.whole attempt old ⟨ids', batched', id, mine, missing⟩

end Commit

/-! ## Every run -/

theorem Step.inv (stepped : Step config race race') (inv : race.Inv) : race'.Inv := by
  cases stepped with
  | spawn number request fresh concerns => exact inv.resume ⟨[], launch_batchwise concerns⟩
  | select number query next waiting => exact inv.resume (inv.goes_on waiting _)
  | reply number call next reply waiting single unread =>
      exact inv.resume (inv.goes_on waiting reply)
  | begins number statement count next clock waiting closed =>
      exact inv.setStore (Store.open_sound inv.sound _) (fun _ kept => kept) fun _ kept => kept
  | locks number session row opened member chosen free =>
      exact inv.setStore (Store.lock_sound inv.sound opened member chosen free)
        (fun _ kept => kept) fun _ kept => kept
  | commits number statement count next clock found reply waiting opened counted replied =>
      exact inv.commits waiting opened counted
  | undoes number statement count next clock found reply waiting opened replied =>
      exact inv.undoes (inv.goes_on waiting reply) statement found
  | elsewhere statement clock unmarked unclaimed free =>
      exact inv.setStore (Store.write_sound inv.sound _ free)
        (fun _ found => found.update_isUsed) fun _ found => found.update_touched
  | inserts row absent =>
      have kept : ∀ {p : Row → Bool} {id : Uuid}, Finds race.store.table p id →
          Finds (race.store.insert row).table p id := by
        rintro p id ⟨old, member, same, holds⟩
        exact ⟨old, Keyed.mem_save.mpr (.inr ⟨member, absent old member⟩), same, holds⟩
      exact inv.setStore (Store.insert_sound inv.sound absent) (fun _ => kept) fun _ => kept

theorem inv_of_reachable {table : Table} (reached : Reachable config table race) : race.Inv := by
  induction reached with
  | start => exact inv_start table
  | step _ stepped ih => exact stepped.inv ih

/-- **A file marked as used is never purged**, before or after, whatever the order of the
row-by-row steps of any number of transactions; and a transaction that matched part of its
batch changes no row. -/
theorem used_never_purged {table : Table} (reached : Reachable config table race) :
    (∀ id, ¬ (race.Marked id ∧ race.Purged id)) ∧
      ∀ attempt ∈ race.history, attempt.Partial → attempt.after = attempt.before := by
  have inv := inv_of_reachable reached
  exact ⟨fun id both => inv.apart id both.1 both.2, inv.whole⟩

/-- A file of the small caller that nothing uses yet. -/
def unusedRow : Row where
  id := 0
  tenantCode := "t"
  departmentCode := none
  userId := 7
  fileName := "a.txt"
  fileSize := some 0
  sizeBytes := some 2
  contentType := some "text/plain"
  key := ⟨.privateFile, "t", 0, "a.txt"⟩
  pendingKey := none
  cdn := "a.txt"
  isUsed := false
  visibility := .privateFile
  status := .ready
  isTemporary := false
  uploadExpiredAt := none
  expiredAt := none
  completedAt := some 0
  disposition := .attachment
  checksum := none
  etag := none
  uploadPendingAt := none
  deletionPendingAt := none
  metadata := {}
  extraData := none
  createdAt := 0
  deletedAt := none

def oneUnused : Table := ⟨[unusedRow], by simp⟩

/-- Both requests have read the file; the mark commits first, the purge is undone. -/
theorem used_never_purged_marked : ∃ race : Race, Reachable (smallConfig .s3) oneUnused race ∧
    race.Marked 0 ∧ (∃ attempt ∈ race.history, attempt.Partial) ∧
    (∀ id, ¬ (race.Marked id ∧ race.Purged id)) ∧
    ∀ attempt ∈ race.history, attempt.Partial → attempt.after = attempt.before := by
  have started : Reachable (smallConfig .s3) oneUnused _ := .start
  have reading := (((started.step
    (.spawn 0 (.markUsed smallCaller [some ⟨0, 0⟩] {}) rfl rfl)).step
    (.select 0 _ _ rfl)).step
    (.spawn 1 (.unsafeSystemPurgeUnusedBefore 100) rfl rfl)).step
    (.reply 1 (.nextDeletionClaim none) _ (some (5 : Int)) rfl (by simp) (by simp))
  have read := reading.step (.select 1 _ _ rfl)
  have marking := read.step (.begins 0 _ _ _ ⟨0, 0⟩ rfl rfl)
  have locked := marking.step (.locks 0 _ unusedRow rfl List.mem_cons_self rfl
    (Store.open_free _ (Store.idle_free oneUnused 0)))
  have marked := locked.step (.commits 0 _ _ _ ⟨0, 0⟩ _ (some true) rfl rfl rfl (.inl rfl))
  have purging := marked.step (.begins 1 _ _ _ ⟨0, 0⟩ rfl rfl)
  have undone := purging.step
    (.undoes 1 _ _ _ ⟨0, 0⟩ _ (some false) rfl rfl (.inr ⟨rfl, Nat.zero_ne_one⟩))
  refine ⟨_, undone, ?_, ?_, used_never_purged undone⟩
  · exact ⟨_, List.mem_cons_of_mem _ List.mem_cons_self, rfl, _, _, _, rfl, List.mem_cons_self⟩
  · exact ⟨_, List.mem_cons_self, _, rfl, 0, List.mem_cons_self, List.not_mem_nil⟩

end Race

end SdcoreNest.UploadedFile
