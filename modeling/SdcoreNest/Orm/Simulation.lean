/-
# Orm.Simulation -- a mutation with its history is the mutation

`Orm.Journal` takes the mutations of `Orm.Repository` step by step, with what the recorder receives.
Whatever steps may throw, a run that succeeds there is a run of the mutation itself in surroundings where
nothing throws: it gives the same answer and leaves the same table (`journal_simulates`).  So the rows
that a mutation may touch, and those it leaves alone, are the same with the history as without.
-/
import SdcoreNest.Orm.Atomicity

namespace SdcoreNest.Orm

open Theory JsString

set_option autoImplicit false
set_option linter.unusedSectionVars false

variable {Cell : Type}

/-! ## Simulation -/

section Simulation

variable {α β γ δ : Type}

/-- Where the work of a session succeeds, the work on its table does, with an answer that agrees. -/
def Simulates (agree : α → β → Prop) (logged : SessionWork Cell α) (plain : Work Cell β) : Prop :=
  ∀ session a session', logged.run session = (.ok a, session') →
    ∃ b, agree a b ∧ plain.run session.table = (.ok b, session'.table)

theorem Simulates.bind {agree : α → β → Prop} {agree' : γ → δ → Prop} {logged : SessionWork Cell α}
    {plain : Work Cell β} {next : α → SessionWork Cell γ} {next' : β → Work Cell δ}
    (first : Simulates agree logged plain)
    (later : ∀ a b, agree a b → Simulates agree' (next a) (next' b)) :
    Simulates agree' (logged >>= next) (plain >>= next') := by
  intro session c session' ran
  obtain ⟨a, between, ran, ran'⟩ := SessionWork.of_bind ran
  obtain ⟨b, agrees, does⟩ := first session a between ran
  obtain ⟨d, agrees', does'⟩ := later a b agrees between c session' ran'
  refine ⟨d, agrees', ?_⟩
  rw [run_bind_of_ok does]
  exact does'

/-- The same where the answers are equal. -/
theorem Simulates.bind_eq {agree : γ → δ → Prop} {logged : SessionWork Cell α} {plain : Work Cell α}
    {next : α → SessionWork Cell γ} {next' : α → Work Cell δ} (first : Simulates Eq logged plain)
    (later : ∀ a, Simulates agree (next a) (next' a)) :
    Simulates agree (logged >>= next) (plain >>= next') := by
  refine first.bind ?_
  rintro a _ rfl
  exact later a

theorem simulates_return (a : α) : Simulates Eq (return a : SessionWork Cell α) (return a) := by
  intro session b session' ran
  obtain ⟨rfl, rfl⟩ := SessionWork.of_return ran
  exact ⟨a, rfl, rfl⟩

/-- An answer that is known beforehand touches no table. -/
theorem simulates_lift (answer : Except Failure α) :
    Simulates Eq (SessionWork.lift answer : SessionWork Cell α) (Work.lift answer) := by
  intro session a session' ran
  obtain ⟨known, rfl⟩ := SessionWork.of_lift ran
  exact ⟨a, rfl, Prod.ext known rfl⟩

variable {faults : Nat → Bool}

/-- A step does what its statement does. -/
theorem simulates_perform (work : Work Cell α) : Simulates Eq (perform faults work) work := by
  intro session a session' ran
  exact ⟨a, rfl, (SessionWork.of_perform ran).1⟩

/-- Nothing throws in the calmed surroundings, the commit included. -/
theorem calm_calmed (around : Surroundings Cell) : Calm (Repository.calmed around) := ⟨fun _ => rfl, rfl⟩

/-- A transaction that was committed did what its work does. -/
theorem Simulates.withMutationRunner {agree : α → β → Prop} {logged : SessionWork Cell α}
    {plain : Work Cell β} (inside : Simulates agree logged plain) (around : Surroundings Cell)
    (provided : Option Bool) :
    Simulates agree (SessionWork.withMutationRunner faults provided logged)
      (Repository.withMutationRunner (Repository.calmed around) provided plain) := by
  intro session a session' ran
  cases provided with
  | none =>
      obtain ⟨begun, inner, ⟨same, -⟩, ran, left, -⟩ := SessionWork.of_withMutationRunner ran
      obtain ⟨b, agrees, does⟩ := inside begun a inner ran
      rw [same, ← left] at does
      exact ⟨b, agrees, run_withMutationRunner (calm_calmed around) (by simp) does⟩
  | some given =>
      cases given with
      | false => cases (Prod.mk.inj ran).1
      | true => exact inside session a session' ran

end Simulation

namespace Repository

variable [DecidableEq Cell] {repository : Repository Cell} (texts : repository.IdTexts)
  (around : Surroundings Cell) {faults : Nat → Bool}

/-! ## Steps -/

theorem simulates_findLogged (chosen : Row Cell → Bool) :
    Simulates Eq (repository.findLogged around faults chosen)
      (repository.findOlds (calmed around) chosen) := by
  unfold findLogged findOlds
  split
  · exact simulates_perform _
  · exact simulates_return []

/-- The scopes that are looked up are those of the rows that are read. -/
theorem simulates_resourceScopes (chosen : Row Cell → Bool) :
    Simulates (fun scopes rows => ScopesOf texts rows scopes) (resourceScopes texts around faults chosen)
      (repository.historyResourceScopes (calmed around) chosen) := by
  intro session scopes session' ran
  unfold historyResourceScopes
  split
  next silent =>
    obtain ⟨-, -, same, -⟩ := of_resourceScopes ran
    refine ⟨[], fun recorder columned => ?_, congrArg _ same.symm⟩
    simp [recorder, columned] at silent
  next =>
    obtain ⟨collected, -, same, -⟩ := of_resourceScopes ran
    refine ⟨session.table.select chosen, collected, ?_⟩
    rw [same]
    exact run_find (calm_calmed around) chosen session.table

/-- The recorder gets what the plain mutation records, with the scopes of the rows it found. -/
theorem simulates_logHistory {entry : HistoryEntry Cell} (handed : entry.queryRunner = true)
    {scopes : Scopes Cell} {rows : List (Row Cell)} (agrees : ScopesOf texts rows scopes)
    (looked : entry.resourceScope = Scopes.get scopes entry.tableId) {tableId : Bool} {key : Option Cell}
    (named : tableId = true → entry.tableId ≠ [])
    (keyed : tableId = true → repository.store "id" (.item (.string entry.tableId)) = key) :
    Simulates Eq (repository.logHistory faults entry)
      (repository.recordHistory (calmed around) rows tableId key) := by
  intro session answer session' ran
  obtain ⟨table, -, carried⟩ := of_logHistory handed ran
  refine ⟨(), rfl, ?_⟩
  rw [table]
  refine run_recordHistory repository (calm_calmed around) (fun recorder present columned => ?_) _
  have known := carried recorder (named present) columned
  rw [looked] at known
  obtain ⟨scope, isScope⟩ := Option.isSome_iff_exists.mp known
  obtain ⟨row, listed, isKeyed, same, -⟩ := get_eq_some (agrees recorder columned) isScope
  exact ⟨row, listed, isKeyed, same.symm.trans (keyed present)⟩

theorem simulates_patchRow (criteria : Criteria) (patch : Record) :
    Simulates Eq (repository.patchRow around faults criteria patch)
      (repository.applyPatch (calmed around) criteria patch) := by
  unfold patchRow applyPatch
  split
  · exact simulates_return ()
  · exact (simulates_perform _).bind_eq fun affected => simulates_lift _

theorem simulates_logUpdate {id : JsString} (named : id ≠ []) (old : Option (Row Cell))
    {scopes : Scopes Cell} {rows : List (Row Cell)} (agrees : ScopesOf texts rows scopes)
    (found : List (Row Cell)) :
    Simulates Eq (repository.logUpdate faults id old scopes found)
      (repository.readSaved (calmed around) rows (.string id) found) := by
  cases found with
  | nil =>
      intro session saved session' ran
      cases (Prod.mk.inj ran).1
  | cons saved rest =>
      unfold logUpdate readSaved
      exact (simulates_logHistory texts around rfl agrees rfl (fun _ => named) fun _ => rfl).bind_eq
        fun _ => simulates_return saved

theorem simulates_countLogged (olds : List (Row Cell)) (chosen : Row Cell → Bool) :
    Simulates Eq (repository.countLogged around faults olds chosen)
      (repository.countMatched (calmed around) olds chosen) := by
  unfold countLogged countMatched
  split
  · exact simulates_return _
  · exact simulates_perform _

theorem simulates_logDeleted {scopes : Scopes Cell} {rows : List (Row Cell)}
    (agrees : ScopesOf texts rows scopes) (olds : List (Row Cell)) :
    Simulates Eq (logDeleted texts faults scopes olds)
      (repository.recordAll (calmed around) rows olds) := by
  induction olds with
  | nil => exact simulates_return ()
  | cons old rest ih =>
      unfold logDeleted recordAll
      refine Simulates.bind_eq ?_ fun _ => ih
      refine simulates_logHistory texts around rfl agrees rfl (fun present => ?_) texts.store_of
      refine texts.ne_nil ?_
      rw [texts.store_of present]
      exact present

/-- Chunk by chunk, with the ids counted on through all of them. -/
theorem simulates_insertStepwise (made : Nat) (chunks : List (List Record)) :
    Simulates Eq (repository.insertStepwise around faults made chunks)
      (repository.insertChunks (calmed around) made chunks) := by
  induction chunks generalizing made with
  | nil => exact simulates_return []
  | cons chunk rest ih =>
      exact (simulates_perform _).bind_eq fun _ => (ih _).bind_eq fun later => simulates_return _

/-- The text of an id is an id. -/
theorem simulates_updatedText (entity : Record) :
    Simulates (fun text item => item = .string text ∧ text ≠ [])
      (SessionWork.lift (updatedText entity) : SessionWork Cell JsString)
      (Work.lift (updatedId entity)) := by
  intro session text session' ran
  obtain ⟨known, rfl⟩ := SessionWork.of_lift ran
  obtain ⟨carried, named⟩ := of_updatedText known
  refine ⟨.string text, ⟨rfl, named⟩, ?_⟩
  unfold updatedId
  rw [carried]
  simp [Work.lift, Item.isTruthy, named]

/-! ## Mutations -/

section Mutations

variable (provided : Option Bool)

/-- An inserted row is recorded with the key it was given. -/
theorem createLogged_simulates (entity : Record) :
    Simulates Eq (createLogged texts around faults provided entity)
      (repository.create (calmed around) provided entity) := by
  refine (simulates_lift _).bind_eq fun audited => (simulates_lift _).bind_eq fun stamped => ?_
  refine Simulates.withMutationRunner ?_ around provided
  intro session saved session' ran
  obtain ⟨row, between, first, ran⟩ := SessionWork.of_bind ran
  obtain ⟨saves, -⟩ := SessionWork.of_perform first
  obtain ⟨id, isId, ran⟩ := SessionWork.of_lift_bind ran
  obtain ⟨-, -, keyed, carried⟩ := of_save saves
  have isKey := of_savedId keyed carried isId
  have rest : Simulates Eq
      (resourceScopes texts around faults (fun other => other "id" = row "id") >>= fun scopes =>
        repository.logHistory faults ⟨.create, id, none, some row, Scopes.get scopes id, true⟩ >>=
          fun _ => pure row)
      (repository.historyResourceScopes (calmed around) (fun other => other "id" = row "id") >>=
        fun rows => repository.recordHistory (calmed around) rows (row "id").isSome (row "id") >>=
          fun _ => pure row) :=
    (simulates_resourceScopes texts around _).bind fun scopes rows agrees =>
      (simulates_logHistory texts around rfl agrees rfl (fun _ => texts.ne_nil (by rwa [isKey]))
        fun _ => isKey).bind_eq fun _ => simulates_return row
  rw [isKey] at ran
  rw [run_bind_of_ok saves]
  exact rest between saved session' ran

/-- An update saves, reads back and records, on the same table. -/
theorem updateLogged_simulates (entity : Record) :
    Simulates Eq (updateLogged texts around faults provided entity)
      (repository.update (calmed around) provided entity) := by
  refine (simulates_updatedText entity).bind ?_
  rintro id _ ⟨rfl, named⟩
  refine (simulates_lift _).bind_eq fun patch => (simulates_lift _).bind_eq fun _ => ?_
  refine Simulates.withMutationRunner ?_ around provided
  refine (simulates_lift _).bind_eq fun criteria => (simulates_findLogged around _).bind_eq fun olds => ?_
  refine (simulates_resourceScopes texts around _).bind fun scopes rows agrees => ?_
  refine (simulates_patchRow around criteria patch).bind_eq fun _ => ?_
  exact (simulates_perform _).bind_eq fun found => simulates_logUpdate texts around named _ agrees found

/-- The rows recorded as deleted are those found before the deletion. -/
theorem deleteLogged_simulates (ids : Ids) :
    Simulates Eq (deleteLogged texts around faults provided ids)
      (repository.delete (calmed around) provided ids) := by
  unfold deleteLogged delete
  split
  · exact simulates_return false
  refine Simulates.withMutationRunner ?_ around provided
  refine (simulates_lift _).bind_eq fun criteria => (simulates_findLogged around _).bind_eq fun olds => ?_
  refine (simulates_resourceScopes texts around _).bind fun scopes rows agrees => ?_
  refine (simulates_countLogged around olds _).bind_eq fun matched => (simulates_lift _).bind_eq fun _ => ?_
  refine (simulates_perform _).bind_eq fun affected => (simulates_lift _).bind_eq fun _ => ?_
  exact (simulates_logDeleted texts around agrees olds).bind_eq fun _ => simulates_return true

/-- Soft deletion and restoration are one statement with a time or without. -/
theorem markStepwise_simulates (statement : Statement) (time : Option Cell) (ids : Ids) :
    Simulates Eq (repository.markStepwise around faults provided statement time ids)
      (repository.mark (calmed around) provided statement time ids) := by
  unfold markStepwise mark
  split
  · exact simulates_return false
  refine Simulates.withMutationRunner ?_ around provided
  refine (simulates_lift _).bind_eq fun criteria => (simulates_perform _).bind_eq fun matched => ?_
  refine (simulates_lift _).bind_eq fun _ => (simulates_perform _).bind_eq fun affected => ?_
  exact (simulates_lift _).bind_eq fun _ => simulates_return true

/-- An import records nothing, so only its chunks are compared. -/
theorem importStepwise_simulates (entities : List Record) :
    Simulates Eq (repository.importStepwise around faults provided entities)
      (repository.importAll (calmed around) provided entities) := by
  unfold importStepwise importAll
  split
  · exact simulates_return []
  · exact (simulates_lift _).bind_eq fun stamped =>
      (simulates_insertStepwise around 0 _).withMutationRunner around provided

/-- Every mutation, its transaction its own or the caller's, and whichever steps may throw. -/
theorem journal_simulates :
    (∀ entity, Simulates Eq (createLogged texts around faults provided entity)
      (repository.create (calmed around) provided entity)) ∧
    (∀ entity, Simulates Eq (updateLogged texts around faults provided entity)
      (repository.update (calmed around) provided entity)) ∧
    (∀ ids, Simulates Eq (deleteLogged texts around faults provided ids)
      (repository.delete (calmed around) provided ids)) ∧
    (∀ ids, Simulates Eq (repository.softDeleteStepwise around faults provided ids)
      (repository.softDelete (calmed around) provided ids)) ∧
    (∀ ids, Simulates Eq (repository.restoreStepwise around faults provided ids)
      (repository.restore (calmed around) provided ids)) ∧
    ∀ entities, Simulates Eq (repository.importStepwise around faults provided entities)
      (repository.importAll (calmed around) provided entities) :=
  ⟨createLogged_simulates texts around provided, updateLogged_simulates texts around provided,
    deleteLogged_simulates texts around provided,
    markStepwise_simulates around provided .softDelete (some around.now),
    markStepwise_simulates around provided .restore none, importStepwise_simulates around provided⟩

end Mutations

end Repository

end SdcoreNest.Orm
