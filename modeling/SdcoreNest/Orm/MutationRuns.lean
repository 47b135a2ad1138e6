/-
# Orm.MutationRuns -- what a mutation can do to the table

Each mutation issues at most one statement that writes; all its other work is `Quiet`.  So the
table ends as it began or as that statement leaves it (`create_cases`, `update_cases`,
`delete_cases`, `mark_cases`), and where nothing throws and the counts are right the statement
does take effect (the `_done` lemmas).
-/
import SdcoreNest.Orm.Repository
import SdcoreNest.Theory.Program

namespace SdcoreNest.Orm

open Theory

set_option autoImplicit false
set_option linter.unusedSectionVars false

variable {Cell : Type}

/-! ## Rules -/

section Rules

variable {α β : Type}

/-- The table stays as it is, also when the work fails. -/
def Quiet (work : Work Cell α) : Prop := ∀ table, (work.run table).2 = table

theorem quiet_pure (a : α) : Quiet (pure a : Work Cell α) := fun _ => rfl

theorem quiet_lift (answer : Except Failure α) : Quiet (Work.lift answer : Work Cell α) := fun _ => rfl

theorem quiet_throw (failure : Failure) : Quiet (Work.throw failure : Work Cell α) := fun _ => rfl

theorem quiet_read {around : Surroundings Cell} {statement : Statement} (answer : Table Cell → α) :
    Quiet (issue around statement fun table => .ok (answer table, table)) := by
  intro table
  simp only [issue]
  split <;> rfl

theorem run_bind_of_ok {work : Work Cell α} {next : α → Work Cell β} {table table' : Table Cell} {a : α}
    (ran : work.run table = (.ok a, table')) : (work >>= next).run table = (next a).run table' := by
  show (Work.bind work next).run table = _
  simp only [Work.bind, ran]

theorem run_bind_of_error {work : Work Cell α} {next : α → Work Cell β} {table table' : Table Cell}
    {failure : Failure} (ran : work.run table = (.error failure, table')) :
    (work >>= next).run table = (.error failure, table') := by
  show (Work.bind work next).run table = _
  simp only [Work.bind, ran]

/-- The parts of work that succeeds succeed. -/
theorem of_run_bind {work : Work Cell α} {next : α → Work Cell β} {table table' : Table Cell} {b : β}
    (ran : (work >>= next).run table = (.ok b, table')) :
    ∃ a between, work.run table = (.ok a, between) ∧ (next a).run between = (.ok b, table') := by
  rcases first : work.run table with ⟨failure | a, between⟩
  · rw [run_bind_of_error first] at ran
    cases (Prod.mk.inj ran).1
  · rw [run_bind_of_ok first] at ran
    exact ⟨a, between, rfl, ran⟩

/-- Quiet work ends everything, or the rest goes on from the same table. -/
theorem Quiet.bind_cases {work : Work Cell α} (quiet : Quiet work) (next : α → Work Cell β)
    (table : Table Cell) :
    ((work >>= next).run table).2 = table ∨
      ∃ a, work.run table = (.ok a, table) ∧ (work >>= next).run table = (next a).run table := by
  have same := quiet table
  cases ran : work.run table with
  | mk answer table' =>
      rw [ran] at same
      simp only [] at same
      subst same
      cases answer with
      | error failure =>
          left
          rw [run_bind_of_error ran]
      | ok a => exact .inr ⟨a, rfl, run_bind_of_ok ran⟩

theorem Quiet.bind {work : Work Cell α} {next : α → Work Cell β} (quiet : Quiet work)
    (later : ∀ a, Quiet (next a)) : Quiet (work >>= next) := by
  intro table
  rcases quiet.bind_cases next table with same | ⟨a, -, goes⟩
  · exact same
  · rw [goes]
    exact later a table

/-- A statement throws, or it does what it says. -/
theorem issue_cases (around : Surroundings Cell) (statement : Statement)
    (effect : Table Cell → Except Failure (α × Table Cell)) (table : Table Cell) :
    (∃ failure, (issue around statement effect).run table = (.error failure, table)) ∨
      ∃ answer table', effect table = .ok (answer, table') ∧
        (issue around statement effect).run table = (.ok answer, table') := by
  simp only [issue]
  split
  · exact .inl ⟨_, rfl⟩
  · split
    next answer table' done => exact .inr ⟨answer, table', done, rfl⟩
    next failure _ => exact .inl ⟨failure, rfl⟩

/-- A statement before quiet work: it throws, or the table is as the statement leaves it. -/
theorem issue_bind_cases {around : Surroundings Cell} {statement : Statement}
    {effect : Table Cell → Except Failure (α × Table Cell)} {next : α → Work Cell β}
    (later : ∀ a, Quiet (next a)) (table : Table Cell) :
    ((issue around statement effect >>= next).run table).2 = table ∨
      ∃ a table', effect table = .ok (a, table') ∧
        ((issue around statement effect >>= next).run table).2 = table' := by
  rcases issue_cases around statement effect table with ⟨failure, thrown⟩ | ⟨a, table', done, ran⟩
  · left
    rw [run_bind_of_error thrown]
  · right
    refine ⟨a, table', done, ?_⟩
    rw [run_bind_of_ok ran]
    exact later a table'

theorem run_issue {around : Surroundings Cell} (calm : ∀ statement, around.throws statement = false)
    {statement : Statement} {effect : Table Cell → Except Failure (α × Table Cell)}
    {table table' : Table Cell} {answer : α} (done : effect table = .ok (answer, table')) :
    (issue around statement effect).run table = (.ok answer, table') := by
  simp [issue, calm, done]

/-- Every row is still there. -/
def Grows (work : Work Cell α) : Prop := ∀ table row, row ∈ table → row ∈ (work.run table).2

theorem Quiet.grows {work : Work Cell α} (quiet : Quiet work) : Grows work := by
  intro table row member
  rwa [quiet table]

theorem Grows.bind {work : Work Cell α} {next : α → Work Cell β} (grows : Grows work)
    (later : ∀ a, Grows (next a)) : Grows (work >>= next) := by
  intro table row member
  have between := grows table row member
  cases ran : work.run table with
  | mk answer table' =>
      rw [ran] at between
      cases answer with
      | ok a =>
          rw [run_bind_of_ok ran]
          exact later a table' row between
      | error failure =>
          rw [run_bind_of_error ran]
          exact between

/-- The work of a transaction is undone, or the table is as the work left it; the repository's own
transaction lasts only if the work succeeds. -/
theorem withMutationRunner_cases (around : Surroundings Cell) (provided : Option Bool)
    (work : Work Cell α) (table : Table Cell) :
    ((Repository.withMutationRunner around provided work).run table).2 = table ∨
      provided ≠ some false ∧ (provided = none → ∃ a, (work.run table).1 = .ok a) ∧
        ((Repository.withMutationRunner around provided work).run table).2 = (work.run table).2 := by
  unfold Repository.withMutationRunner
  cases provided with
  | some active =>
      cases active with
      | true => exact .inr ⟨by simp, by simp, rfl⟩
      | false => exact .inl rfl
  | none =>
      simp only []
      split
      · exact .inl rfl
      · cases ran : work.run table with
        | mk answer table' =>
            cases answer with
            | error failure => exact .inl rfl
            | ok a =>
                cases around.commit with
                | done => exact .inr ⟨by simp, fun _ => ⟨a, rfl⟩, rfl⟩
                | refused => exact .inl rfl
                | lost => exact .inr ⟨by simp, fun _ => ⟨a, rfl⟩, rfl⟩

/-- Nothing throws, and the commit takes effect. -/
structure Calm (around : Surroundings Cell) : Prop where
  throws : ∀ statement, around.throws statement = false
  commit : around.commit = .done

theorem run_withMutationRunner {around : Surroundings Cell} (calm : Calm around) {provided : Option Bool}
    (active : provided ≠ some false) {work : Work Cell α} {table table' : Table Cell} {a : α}
    (ran : work.run table = (.ok a, table')) :
    (Repository.withMutationRunner around provided work).run table = (.ok a, table') := by
  unfold Repository.withMutationRunner
  cases provided with
  | some given =>
      cases given with
      | true => exact ran
      | false => exact absurd rfl active
  | none => simp only [calm.throws, Bool.false_eq_true, if_false, ran, calm.commit]

end Rules

namespace Repository

variable [DecidableEq Cell] (repository : Repository Cell)

/-! ## Scopes -/

/-- An entity with scoped columns, and a strategy that grants no bypass. -/
structure Guarded : Prop where
  columned : repository.scopedColumns ≠ []
  ungranted : ∀ strategy ∈ repository.strategy, strategy.getBypassGrant ≠ some (.ok ())

/-- The row satisfies every predicate of the current scope. -/
def InScope (row : Row Cell) : Prop :=
  ∃ scope predicates, repository.currentScope = .ok (some scope) ∧
    resolveScopePredicates scope repository.scopedColumns = .ok predicates ∧
    ∀ predicate ∈ predicates, (row predicate.propertyName).isSome ∧
      ∃ value ∈ predicate.values,
        row predicate.propertyName = repository.store predicate.propertyName (.item value)

/-- The row has one of the ids. -/
def Named (ids : List Item) (row : Row Cell) : Prop :=
  (row "id").isSome ∧ ∃ id ∈ ids, row "id" = repository.store "id" (.item id)

variable {repository}

theorem Guarded.currentScope_eq (guarded : repository.Guarded) {answer : Option Record}
    (current : repository.currentScope = .ok answer) : ∃ scope, answer = some scope := by
  unfold currentScope at current
  rw [if_neg (by simpa using guarded.columned)] at current
  cases known : repository.strategy with
  | none =>
      rw [known] at current
      cases current
  | some strategy =>
      rw [known] at current
      have ungranted := guarded.ungranted strategy known
      simp only [] at current
      cases grant : strategy.getBypassGrant with
      | some checked =>
          rw [grant] at current ungranted
          cases checked with
          | error failure => cases current
          | ok granted => exact absurd rfl ungranted
      | none =>
          rw [grant] at current
          simp only [] at current
          split at current
          · cases current
          · split at current
            · cases current
            · cases current
            next record _ => exact ⟨record, (Except.ok.inj current).symm⟩

theorem holds_equal {row : Row Cell} {column : String} {value : Item} :
    repository.holds row column (.equal (.item value)) = true ↔
      (row column).isSome ∧ ∃ item ∈ [value], row column = repository.store column (.item item) := by
  simp [holds]

theorem holds_isIn {row : Row Cell} {column : String} {values : List Item} :
    repository.holds row column (.isIn values) = true ↔
      (row column).isSome ∧ ∃ item ∈ values, row column = repository.store column (.item item) := by
  simp [holds]

theorem holds_identified {row : Row Cell} {ids : List Item} :
    repository.holds row "id" (identified ids) = true ↔ repository.Named ids row := by
  unfold identified Named
  split
  · exact holds_equal
  · exact holds_isIn

theorem equal_resolved {scope : Record} {column : ScopedColumnMetadata}
    {predicate : ResolvedScopePredicate}
    (resolved : resolveScopePredicate scope column = .ok (some predicate))
    (equal : predicate.operator = .equal) : ∃ item, predicate.values = [item] := by
  unfold resolveScopePredicate at resolved
  split at resolved
  next items _ =>
    cases allowed : normalizeAllowedValues column.propertyName items with
    | error failure =>
        rw [allowed] at resolved
        cases resolved
    | ok values =>
        rw [allowed] at resolved
        obtain rfl := Option.some.inj (Except.ok.inj resolved)
        cases equal
  next item _ =>
    split at resolved
    · cases resolved
    · split at resolved
      · cases resolved
      · obtain rfl := Option.some.inj (Except.ok.inj resolved)
        exact ⟨item, rfl⟩

theorem propertyName_resolved {scope : Record} {column : ScopedColumnMetadata}
    {predicate : ResolvedScopePredicate}
    (resolved : resolveScopePredicate scope column = .ok (some predicate)) :
    predicate.propertyName = column.propertyName := by
  unfold resolveScopePredicate at resolved
  split at resolved
  next items _ =>
    cases allowed : normalizeAllowedValues column.propertyName items with
    | error failure =>
        rw [allowed] at resolved
        cases resolved
    | ok values =>
        rw [allowed] at resolved
        obtain rfl := Option.some.inj (Except.ok.inj resolved)
        rfl
  next item _ =>
    split at resolved
    · cases resolved
    · split at resolved
      · cases resolved
      · obtain rfl := Option.some.inj (Except.ok.inj resolved)
        rfl

theorem of_resolveScopePredicates {scope : Record} {columns : List ScopedColumnMetadata}
    {predicates : List ResolvedScopePredicate}
    (resolved : resolveScopePredicates scope columns = .ok predicates) :
    ∀ predicate ∈ predicates, ∃ column ∈ columns,
      resolveScopePredicate scope column = .ok (some predicate) := by
  obtain ⟨_, -, resolved⟩ := of_bind_ok resolved
  obtain ⟨answers, each, resolved⟩ := of_bind_ok resolved
  obtain rfl := Except.ok.inj resolved
  intro predicate listed
  exact of_mem_mapM each (List.reduceOption_mem_iff.mp listed)

/-- Criteria of the scope select rows in scope only. -/
theorem inScope_of_selects (guarded : repository.Guarded) {criteria : Criteria}
    (built : repository.scopeWhere = .ok criteria) {row : Row Cell}
    (selected : repository.selects criteria row = true) : repository.InScope row := by
  obtain ⟨answer, current, built⟩ := of_bind_ok built
  obtain ⟨scope, rfl⟩ := guarded.currentScope_eq current
  simp only [buildScopeWhere] at built
  cases resolved : resolveScopePredicates scope repository.scopedColumns with
  | error failure =>
      rw [resolved] at built
      cases built
  | ok predicates =>
      rw [resolved] at built
      obtain rfl := Except.ok.inj built
      refine ⟨scope, predicates, current, resolved, fun predicate listed => ?_⟩
      have chosen := List.all_eq_true.mp selected _ (List.mem_map.mpr ⟨predicate, listed, rfl⟩)
      obtain ⟨column, -, answered⟩ := of_resolveScopePredicates resolved predicate listed
      cases operator : predicate.operator with
      | isIn =>
          simp only [operator] at chosen
          exact holds_isIn.mp chosen
      | equal =>
          obtain ⟨item, values⟩ := equal_resolved answered operator
          simp only [operator, values, List.headD_cons] at chosen
          rw [values]
          exact holds_equal.mp chosen

theorem mutationWhere_eq_ok {ids : List Item} {criteria : Criteria}
    (built : repository.mutationWhere ids = .ok criteria) :
    ∃ scope, repository.scopeWhere = .ok scope ∧ criteria = spread [("id", identified ids)] scope := by
  unfold mutationWhere at built
  cases scope : repository.scopeWhere with
  | error failure =>
      rw [scope] at built
      cases built
  | ok conditions =>
      rw [scope] at built
      exact ⟨conditions, rfl, (Except.ok.inj built).symm⟩

theorem inScope_of_mutationWhere (guarded : repository.Guarded) {ids : List Item} {criteria : Criteria}
    (built : repository.mutationWhere ids = .ok criteria) {row : Row Cell}
    (selected : repository.selects criteria row = true) : repository.InScope row := by
  obtain ⟨scope, isScope, rfl⟩ := mutationWhere_eq_ok built
  refine inScope_of_selects guarded isScope (List.all_eq_true.mpr fun condition listed => ?_)
  exact List.all_eq_true.mp selected condition (List.mem_append_right _ listed)

/-- The scope speaks of scoped columns. -/
theorem mem_scopeWhere {conditions : Criteria} (isScope : repository.scopeWhere = .ok conditions) :
    ∀ condition ∈ conditions, ∃ column ∈ repository.scopedColumns,
      condition.1 = column.propertyName := by
  intro condition listed
  obtain ⟨answer, -, isScope⟩ := of_bind_ok isScope
  cases answer with
  | none =>
      obtain rfl := Except.ok.inj isScope
      cases listed
  | some scope =>
      simp only [buildScopeWhere] at isScope
      cases resolved : resolveScopePredicates scope repository.scopedColumns with
      | error failure =>
          rw [resolved] at isScope
          cases isScope
      | ok predicates =>
          rw [resolved] at isScope
          obtain rfl := Except.ok.inj isScope
          obtain ⟨predicate, inside, rfl⟩ := List.mem_map.mp listed
          obtain ⟨column, there, answered⟩ := of_resolveScopePredicates resolved predicate inside
          exact ⟨column, there, propertyName_resolved answered⟩

/-- Apart from what TypeORM maintains, an update changes what its patch has. -/
theorem patched_of_not_has {now : Cell} {patch : Record} {row : Row Cell} {column : String}
    (absent : patch.has column = false) (notVersion : repository.versionColumn ≠ some column)
    (notUpdateDate : repository.updateDateColumn ≠ some column) :
    repository.patched now patch row column = row column := by
  have missing : patch.get column = .item .undefined := by
    unfold Record.has at absent
    unfold Record.get
    rw [Option.isSome_eq_false_iff, Option.isNone_iff_eq_none] at absent
    rw [absent]
    rfl
  have unset : repository.sets patch column = false := by
    unfold sets
    rw [missing]
    simp
  unfold patched written
  rw [unset, if_neg notVersion, if_neg notUpdateDate]
  simp

/-! ## What a mutation does to the table -/

section Mutations

variable (around : Surroundings Cell) (provided : Option Bool)

theorem quiet_find (chosen : Row Cell → Bool) : Quiet (find around chosen) := quiet_read _

theorem quiet_count (chosen : Row Cell → Bool) : Quiet (count around chosen) := quiet_read _

theorem quiet_historyResourceScopes (chosen : Row Cell → Bool) :
    Quiet (repository.historyResourceScopes around chosen) := by
  unfold historyResourceScopes
  split
  · exact quiet_pure _
  · exact quiet_find around chosen

theorem quiet_findOlds (chosen : Row Cell → Bool) : Quiet (repository.findOlds around chosen) := by
  unfold findOlds
  split
  · exact quiet_find around chosen
  · exact quiet_pure _

theorem quiet_recordHistory (scopes : List (Row Cell)) (tableId : Bool) (id : Option Cell) :
    Quiet (repository.recordHistory around scopes tableId id) := by
  unfold recordHistory
  split
  · exact quiet_pure _
  · split
    · exact quiet_throw _
    · exact quiet_read _

theorem quiet_recordAll (scopes olds : List (Row Cell)) : Quiet (repository.recordAll around scopes olds) := by
  induction olds with
  | nil => exact quiet_pure _
  | cons old rest ih => exact (quiet_recordHistory around scopes _ (old "id")).bind fun _ => ih

theorem quiet_countMatched (olds : List (Row Cell)) (chosen : Row Cell → Bool) :
    Quiet (repository.countMatched around olds chosen) := by
  unfold countMatched
  split
  · exact quiet_pure _
  · exact quiet_count around chosen

theorem assertAffected_eq_ok {affected expected : Nat} {answer : Unit}
    (passed : assertAffected affected expected = .ok answer) : affected = expected := by
  unfold assertAffected at passed
  split at passed
  next same => exact same
  next => cases passed

theorem lift_run {α : Type} {answer : Except Failure α} {table table' : Table Cell} {a : α}
    (ran : (Work.lift answer).run table = (.ok a, table')) : answer = .ok a := (Prod.mk.inj ran).1

/-- A read that did not throw answers what is in the table. -/
theorem read_run {α : Type} {statement : Statement} {answer : Table Cell → α} {table table' : Table Cell}
    {a : α} (ran : (issue around statement fun table => .ok (answer table, table)).run table =
      (.ok a, table')) : a = answer table := by
  rcases issue_cases around statement (fun table => .ok (answer table, table)) table with
    ⟨failure, thrown⟩ | ⟨b, table'', done, answered⟩
  · rw [thrown] at ran
    cases (Prod.mk.inj ran).1
  · obtain ⟨rfl, -⟩ := Prod.mk.inj (Except.ok.inj done)
    rw [answered] at ran
    exact (Except.ok.inj (Prod.mk.inj ran).1).symm

/-- The number that `delete` compares with the number of ids. -/
theorem countMatched_run {criteria : Criteria} {table : Table Cell} {olds : List (Row Cell)} {matched : Nat}
    (found : (repository.findOlds around (repository.selects criteria)).run table = (.ok olds, table))
    (counted : (repository.countMatched around olds (repository.selects criteria)).run table =
      (.ok matched, table)) : matched = table.count (repository.selects criteria) := by
  unfold findOlds at found
  unfold countMatched at counted
  split at counted
  next recorded =>
    rw [if_pos recorded] at found
    rw [← Except.ok.inj (Prod.mk.inj counted).1, read_run around found]
    rfl
  next => exact read_run around counted

/-- `delete` throws nothing away, or just what its criteria select. -/
theorem delete_cases (ids : Ids) (table : Table Cell) :
    ((repository.delete around provided ids).run table).2 = table ∨
      ∃ criteria, provided ≠ some false ∧ parseIds ids ≠ [] ∧
        repository.mutationWhere ((parseIds ids).map .string) = .ok criteria ∧
        table.count (repository.selects criteria) = (parseIds ids).length ∧
        ((repository.delete around provided ids).run table).2 =
          table.discard (repository.selects criteria) := by
  unfold delete
  split
  · exact .inl rfl
  next some =>
    rcases withMutationRunner_cases around provided _ table with undone | ⟨active, -, done⟩
    · exact .inl undone
    rw [done]
    rcases (quiet_lift _).bind_cases _ table with same | ⟨criteria, built, goes⟩
    · exact .inl same
    rw [goes]
    rcases (quiet_findOlds around _).bind_cases _ table with same | ⟨olds, found, goes⟩
    · exact .inl same
    rw [goes]
    rcases (quiet_historyResourceScopes around _).bind_cases _ table with same | ⟨scopes, -, goes⟩
    · exact .inl same
    rw [goes]
    rcases (quiet_countMatched around olds _).bind_cases _ table with same | ⟨matched, counted, goes⟩
    · exact .inl same
    rw [goes]
    rcases (quiet_lift _).bind_cases _ table with same | ⟨_, passed, goes⟩
    · exact .inl same
    rw [goes]
    have all : table.count (repository.selects criteria) = (parseIds ids).length := by
      rw [← countMatched_run around found counted]
      exact assertAffected_eq_ok (lift_run passed)
    have tail : ∀ affected, Quiet (Work.lift (assertAffected affected (parseIds ids).length) >>= fun _ =>
        repository.recordAll around scopes olds >>= fun _ => pure true) := fun affected =>
      (quiet_lift _).bind fun _ => (quiet_recordAll around scopes olds).bind fun _ => quiet_pure _
    rcases issue_bind_cases tail table with same | ⟨_, table', effect, dropped⟩
    · exact .inl same
    · obtain ⟨-, rfl⟩ := Prod.mk.inj (Except.ok.inj effect)
      exact .inr ⟨criteria, active, by simpa using some, lift_run built, all, dropped⟩

/-- `softDelete` and `restore` change nothing, or just what their criteria select. -/
theorem mark_cases (statement : Statement) (time : Option Cell) (ids : Ids) (table : Table Cell) :
    ((repository.mark around provided statement time ids).run table).2 = table ∨
      ∃ criteria, provided ≠ some false ∧ parseIds ids ≠ [] ∧
        repository.mutationWhere ((parseIds ids).map .string) = .ok criteria ∧
        table.count (repository.selects criteria) = (parseIds ids).length ∧
        ((repository.mark around provided statement time ids).run table).2 =
          table.update (repository.selects criteria) (repository.marked around.now time)
            (fun row => repository.marked_id around.now row time) := by
  unfold mark
  split
  · exact .inl rfl
  next some =>
    rcases withMutationRunner_cases around provided _ table with undone | ⟨active, -, done⟩
    · exact .inl undone
    rw [done]
    rcases (quiet_lift _).bind_cases _ table with same | ⟨criteria, built, goes⟩
    · exact .inl same
    rw [goes]
    rcases (quiet_count around _).bind_cases _ table with same | ⟨matched, counted, goes⟩
    · exact .inl same
    rw [goes]
    rcases (quiet_lift _).bind_cases _ table with same | ⟨_, passed, goes⟩
    · exact .inl same
    rw [goes]
    have all : table.count (repository.selects criteria) = (parseIds ids).length := by
      rw [← read_run around counted]
      exact assertAffected_eq_ok (lift_run passed)
    have tail : ∀ affected, Quiet (Work.lift (assertAffected affected (parseIds ids).length) >>= fun _ =>
        (pure true : Work Cell Bool)) := fun affected => (quiet_lift _).bind fun _ => quiet_pure _
    rcases issue_bind_cases tail table with same | ⟨_, table', effect, marked⟩
    · exact .inl same
    · split at effect
      · cases effect
      · obtain ⟨-, rfl⟩ := Prod.mk.inj (Except.ok.inj effect)
        exact .inr ⟨criteria, active, by simpa using some, lift_run built, all, marked⟩

theorem quiet_readSaved (scopes : List (Row Cell)) (id : Item) (found : List (Row Cell)) :
    Quiet (repository.readSaved around scopes id found) := by
  cases found with
  | nil => exact quiet_throw _
  | cons saved rest => exact (quiet_recordHistory around scopes _ _).bind fun _ => quiet_pure _

/-- The patch of an update that is not empty, and the criteria it is applied with. -/
structure Patches (entity : Record) (id : Item) (patch : Record) (criteria : Criteria) : Prop where
  identified : updatedId entity = .ok id
  audited : repository.onUpdate (entity.remove "id") = .ok patch
  unscoped : repository.assertUnscoped patch = .ok ()
  built : repository.mutationWhere [id] = .ok criteria
  present : patch ≠ []
  accepted : repository.refuses patch = false

/-- What an update asks before it commits a transaction of its own: one row was affected, its criteria
still select that row, and for the history a row with the id of the caller was in scope. -/
structure Settles (now : Cell) (id : Item) (patch : Record) (criteria : Criteria) (table : Table Cell) :
    Prop where
  single : table.count (repository.selects criteria) = 1
  found : ∃ row ∈ table, repository.selects criteria row = true ∧
    repository.selects criteria (repository.patched now patch row) = true
  told : repository.historyRecorder = true → repository.scopedColumns ≠ [] →
    ∃ row ∈ table, repository.selects criteria row = true ∧ repository.Named [id] row

/-- A patch is empty, or a statement that throws, or it is applied; then one row must be affected. -/
theorem applyPatch_cases (criteria : Criteria) (patch : Record) (table : Table Cell) :
    ((repository.applyPatch around criteria patch).run table).2 = table ∨
      patch ≠ [] ∧ repository.refuses patch = false ∧
        ((repository.applyPatch around criteria patch).run table).2 =
          repository.updated around.now patch criteria table ∧
        ((∃ a, ((repository.applyPatch around criteria patch).run table).1 = .ok a) →
          table.count (repository.selects criteria) = 1) := by
  unfold applyPatch
  split
  · exact .inl rfl
  next present =>
    rcases issue_cases around .update _ table with ⟨failure, thrown⟩ | ⟨affected, table', done, ran⟩
    · left
      rw [show repository.updateWhere around criteria patch = issue around .update _ from rfl,
        run_bind_of_error thrown]
    · right
      rw [show repository.updateWhere around criteria patch = issue around .update _ from rfl,
        run_bind_of_ok ran]
      split at done
      · cases done
      next accepted =>
        obtain ⟨rfl, rfl⟩ := Prod.mk.inj (Except.ok.inj done)
        refine ⟨by simpa using present, by simpa using accepted, rfl, ?_⟩
        rintro ⟨a, passed⟩
        exact assertAffected_eq_ok passed

theorem of_historyResourceScopes {chosen : Row Cell → Bool} {table table' : Table Cell}
    {scopes : List (Row Cell)}
    (ran : (repository.historyResourceScopes around chosen).run table = (.ok scopes, table'))
    (recorded : repository.historyRecorder = true) (columned : repository.scopedColumns ≠ []) :
    scopes = table.select chosen := by
  unfold historyResourceScopes at ran
  rw [if_neg (by simp [recorded, columned])] at ran
  exact read_run around ran

theorem of_readSaved {scopes found : List (Row Cell)} {id : Item} {saved : Row Cell}
    {table table' : Table Cell}
    (ran : (repository.readSaved around scopes id found).run table = (.ok saved, table')) :
    saved ∈ found ∧ (repository.historyRecorder = true → repository.scopedColumns ≠ [] →
      ∃ row ∈ scopes, repository.Named [id] row) := by
  cases found with
  | nil => cases (Prod.mk.inj ran).1
  | cons first rest =>
      obtain ⟨_, between, recorded, ended⟩ := of_run_bind ran
      obtain rfl := Except.ok.inj (Prod.mk.inj ended).1
      refine ⟨List.mem_cons_self, fun recorder columned => ?_⟩
      unfold recordHistory at recorded
      rw [if_neg (by simp [recorder])] at recorded
      split at recorded
      · cases (Prod.mk.inj recorded).1
      next known =>
        have listed : scopes.any (fun row => (row "id").isSome &&
            row "id" = repository.store "id" (.item id)) = true := by
          simpa [columned] using known
        obtain ⟨row, inside, same⟩ := List.any_eq_true.mp listed
        obtain ⟨keyed, same⟩ := Bool.and_eq_true_iff.mp same
        exact ⟨row, inside, keyed, id, List.mem_singleton_self id, of_decide_eq_true same⟩

/-- Where the rest of an update succeeds too, it has asked all that it asks. -/
theorem settles_of_ok {id : Item} {patch : Record} {criteria : Criteria} {table : Table Cell}
    {scopes : List (Row Cell)} {saved : Row Cell}
    (read : (repository.historyResourceScopes around (repository.selects criteria)).run table =
      (.ok scopes, table))
    (patched : ((repository.applyPatch around criteria patch).run table).2 =
      repository.updated around.now patch criteria table)
    (single : (∃ a, ((repository.applyPatch around criteria patch).run table).1 = .ok a) →
      table.count (repository.selects criteria) = 1)
    (ended : ((repository.applyPatch around criteria patch >>= fun _ =>
      find around (repository.selects criteria) >>= fun found =>
        repository.readSaved around scopes id found).run table).1 = .ok saved) :
    repository.Settles around.now id patch criteria table := by
  obtain ⟨a, between, applied, later⟩ := of_run_bind (Prod.ext ended rfl)
  rw [applied] at patched single
  obtain rfl : between = repository.updated around.now patch criteria table := patched
  obtain ⟨found, _, first, second⟩ := of_run_bind later
  obtain ⟨inside, named⟩ := of_readSaved around second
  rw [read_run around first] at inside
  obtain ⟨there, selected⟩ := Keyed.mem_select.mp inside
  obtain ⟨old, member, rfl⟩ := (Keyed.mem_update (repository.patched_id around.now patch)).mp there
  refine ⟨single ⟨a, rfl⟩, ⟨old, member, ?_⟩, fun recorder columned => ?_⟩
  · split at selected
    next before => exact ⟨before, selected⟩
    next unselected => exact absurd selected unselected
  · obtain ⟨row, listed, isNamed⟩ := named recorder columned
    rw [of_historyResourceScopes around read recorder columned] at listed
    obtain ⟨isThere, isSelected⟩ := Keyed.mem_select.mp listed
    exact ⟨row, isThere, isSelected, isNamed⟩

/-- `update` changes nothing, or just what its criteria select. -/
theorem update_cases (entity : Record) (table : Table Cell) :
    ((repository.update around provided entity).run table).2 = table ∨
      ∃ id patch criteria, repository.Patches entity id patch criteria ∧ provided ≠ some false ∧
        (provided = none → repository.Settles around.now id patch criteria table) ∧
        ((repository.update around provided entity).run table).2 =
          repository.updated around.now patch criteria table := by
  unfold update
  rcases (quiet_lift _).bind_cases _ table with same | ⟨id, isId, goes⟩
  · exact .inl same
  rw [goes]
  rcases (quiet_lift _).bind_cases _ table with same | ⟨patch, audited, goes⟩
  · exact .inl same
  rw [goes]
  rcases (quiet_lift _).bind_cases _ table with same | ⟨_, unscoped, goes⟩
  · exact .inl same
  rw [goes]
  rcases withMutationRunner_cases around provided _ table with undone | ⟨active, owned, done⟩
  · exact .inl undone
  rw [done]
  rcases (quiet_lift _).bind_cases _ table with same | ⟨criteria, built, goes⟩
  · exact .inl same
  rw [goes] at owned ⊢
  rcases (quiet_findOlds around _).bind_cases _ table with same | ⟨olds, -, goes⟩
  · exact .inl same
  rw [goes] at owned ⊢
  rcases (quiet_historyResourceScopes around _).bind_cases _ table with same | ⟨scopes, read, goes⟩
  · exact .inl same
  rw [goes] at owned ⊢
  have last : ((repository.applyPatch around criteria patch >>= fun _ =>
      find around (repository.selects criteria) >>= fun found =>
        repository.readSaved around scopes id found).run table).2 =
      ((repository.applyPatch around criteria patch).run table).2 := by
    cases ran : (repository.applyPatch around criteria patch).run table with
    | mk answer table' =>
        cases answer with
        | error failure => rw [run_bind_of_error ran]
        | ok a =>
            rw [run_bind_of_ok ran]
            exact (quiet_find around _).bind (fun found => quiet_readSaved around scopes id found) table'
  rcases applyPatch_cases around criteria patch table with same | ⟨present, accepted, patched, single⟩
  · exact .inl (last.trans same)
  · refine .inr ⟨id, patch, criteria, ⟨lift_run isId, lift_run audited, lift_run unscoped, lift_run built,
      present, accepted⟩, active, fun own => ?_, last.trans patched⟩
    obtain ⟨saved, ended⟩ := owned own
    exact settles_of_ok around read patched single ended

/-- `save` updates the row that has the key, or inserts a row with a key that is free. -/
theorem of_insertRow {table table' : Table Cell} {row : Row Cell}
    (done : insertRow table row = .ok table') {other : Row Cell} (member : other ∈ table) :
    other ∈ table' := by
  unfold insertRow at done
  split at done
  · cases done
  next free =>
    obtain rfl := Except.ok.inj done
    refine Keyed.mem_save.mpr (.inr ⟨member, fun same => free ?_⟩)
    rw [Keyed.get?_eq_some.mpr ⟨member, same⟩]
    rfl

/-- `create` keeps every row, or updates the one whose key the entity carries. -/
theorem create_cases (entity : Record) (table : Table Cell) :
    (∀ row ∈ table, row ∈ ((repository.create around provided entity).run table).2) ∨
      ∃ audited stamped row, provided ≠ some false ∧ repository.onCreate entity = .ok audited ∧
        repository.fillTenancy audited = .ok stamped ∧ row ∈ table ∧
        (row "id").isSome ∧ row "id" = repository.identity stamped ∧
        ((repository.create around provided entity).run table).2 = table.update
          (fun other => other "id" = row "id") (repository.resaved around.now stamped)
          (repository.resaved_id around.now stamped) := by
  unfold create
  rcases (quiet_lift _).bind_cases _ table with same | ⟨audited, isAudited, goes⟩
  · exact .inl fun row member => same.symm ▸ member
  rw [goes]
  rcases (quiet_lift _).bind_cases _ table with same | ⟨stamped, isStamped, goes⟩
  · exact .inl fun row member => same.symm ▸ member
  rw [goes]
  rcases withMutationRunner_cases around provided _ table with undone | ⟨active, -, done⟩
  · exact .inl fun row member => undone.symm ▸ member
  rw [done]
  have tail : ∀ saved : Row Cell, Quiet (repository.historyResourceScopes around
      (fun row => row "id" = saved "id") >>= fun scopes =>
        repository.recordHistory around scopes (saved "id").isSome (saved "id") >>= fun _ =>
          pure saved) := fun saved =>
    (quiet_historyResourceScopes around _).bind fun scopes =>
      (quiet_recordHistory around scopes _ _).bind fun _ => quiet_pure _
  rcases issue_cases around .save _ table with ⟨failure, thrown⟩ | ⟨saved, table', wrote, ran⟩
  · left
    intro row member
    rw [show repository.save around stamped = issue around .save _ from rfl, run_bind_of_error thrown]
    exact member
  · rw [show repository.save around stamped = issue around .save _ from rfl, run_bind_of_ok ran,
      tail saved table']
    split at wrote
    next row known =>
      obtain ⟨-, rfl⟩ := Prod.mk.inj (Except.ok.inj wrote)
      obtain ⟨id, carried, found⟩ := Option.bind_eq_some_iff.mp known
      obtain ⟨member, key⟩ := Keyed.get?_eq_some.mp found
      exact .inr ⟨audited, stamped, row, active, lift_run isAudited, lift_run isStamped, member,
        by simp [key], by rw [key, carried], rfl⟩
    next =>
      left
      intro row member
      cases inserts : insertRow table (repository.inserted around 0 stamped) with
      | error failure =>
          rw [inserts] at wrote
          cases wrote
      | ok after =>
          rw [inserts] at wrote
          obtain ⟨-, rfl⟩ := Prod.mk.inj (Except.ok.inj wrote)
          exact of_insertRow inserts member

end Mutations

/-! ## Runs in which nothing throws -/

section Calm

variable (repository : Repository Cell) {around : Surroundings Cell} (calm : Calm around) {provided : Option Bool}
  (active : provided ≠ some false)

include calm

theorem run_find (chosen : Row Cell → Bool) (table : Table Cell) :
    (find around chosen).run table = (.ok (table.select chosen), table) := run_issue calm.throws rfl

theorem run_count (chosen : Row Cell → Bool) (table : Table Cell) :
    (count around chosen).run table = (.ok (table.count chosen), table) := run_issue calm.throws rfl

/-- Rows for the history are those that the criteria select, where there is a recorder. -/
theorem run_findOlds (chosen : Row Cell → Bool) (table : Table Cell) :
    ∃ olds, (repository.findOlds around chosen).run table = (.ok olds, table) ∧
      (repository.historyRecorder = true → olds = table.select chosen) ∧
      ∀ old ∈ olds, old ∈ table.select chosen := by
  unfold findOlds
  split
  next => exact ⟨_, run_find calm chosen table, fun _ => rfl, fun _ listed => listed⟩
  next silent => exact ⟨[], rfl, fun recorded => absurd recorded silent, by simp⟩

theorem run_historyResourceScopes (chosen : Row Cell → Bool) (table : Table Cell) :
    ∃ scopes, (repository.historyResourceScopes around chosen).run table = (.ok scopes, table) ∧
      (repository.historyRecorder = true → repository.scopedColumns ≠ [] →
        scopes = table.select chosen) := by
  unfold historyResourceScopes
  split
  next unneeded =>
    refine ⟨[], rfl, fun recorded columned => ?_⟩
    simp [recorded, columned] at unneeded
  next => exact ⟨_, run_find calm chosen table, fun _ _ => rfl⟩

theorem run_recordHistory {scopes : List (Row Cell)} {tableId : Bool} {id : Option Cell}
    (known : repository.historyRecorder = true → tableId = true → repository.scopedColumns ≠ [] →
      ∃ other ∈ scopes, (other "id").isSome ∧ other "id" = id) (table : Table Cell) :
    (repository.recordHistory around scopes tableId id).run table = (.ok (), table) := by
  unfold recordHistory
  split
  · rfl
  next recorded =>
    simp only [Bool.or_eq_true, Bool.not_eq_true', not_or, Bool.not_eq_false] at recorded
    rw [if_neg]
    · exact run_issue calm.throws rfl
    · intro missing
      simp only [Bool.and_eq_true, Bool.not_eq_true', List.isEmpty_eq_false_iff] at missing
      obtain ⟨other, listed, keyed, same⟩ := known recorded.1 recorded.2 missing.1
      have absent := List.any_eq_false.mp missing.2 other listed
      exact absent (by rw [keyed, Bool.true_and, decide_eq_true same])

theorem run_recordAll {scopes olds : List (Row Cell)}
    (known : repository.historyRecorder = true → repository.scopedColumns ≠ [] →
      ∀ old ∈ olds, old ∈ scopes) (table : Table Cell) :
    (repository.recordAll around scopes olds).run table = (.ok (), table) := by
  induction olds with
  | nil => rfl
  | cons old rest ih =>
      have here := run_recordHistory repository calm (fun recorded keyed columned =>
        ⟨old, known recorded columned old List.mem_cons_self, keyed, rfl⟩) table
      unfold recordAll
      rw [run_bind_of_ok here]
      exact ih fun recorded columned other listed => known recorded columned other (.tail _ listed)

theorem run_countMatched {olds : List (Row Cell)} {chosen : Row Cell → Bool} {table : Table Cell}
    (found : repository.historyRecorder = true → olds = table.select chosen) :
    (repository.countMatched around olds chosen).run table = (.ok (table.count chosen), table) := by
  unfold countMatched
  split
  next recorded =>
    rw [found recorded]
    rfl
  next => exact run_count calm chosen table

theorem run_assertAffected {affected expected : Nat} (same : affected = expected) (table : Table Cell) :
    (Work.lift (assertAffected affected expected)).run table = (.ok (), table) := by
  unfold assertAffected
  rw [if_pos same]
  rfl

include active

/-- The count is right, so what the criteria select is deleted. -/
theorem delete_done {ids : Ids} {criteria : Criteria} {table : Table Cell} (present : parseIds ids ≠ [])
    (built : repository.mutationWhere ((parseIds ids).map .string) = .ok criteria)
    (all : table.count (repository.selects criteria) = (parseIds ids).length) :
    ((repository.delete around provided ids).run table).2 =
      table.discard (repository.selects criteria) := by
  obtain ⟨olds, found, olds_eq, olds_sub⟩ :=
    run_findOlds repository calm (repository.selects criteria) table
  obtain ⟨scopes, read, scopes_eq⟩ :=
    run_historyResourceScopes repository calm (repository.selects criteria) table
  unfold delete
  rw [if_neg (by simpa using present)]
  have dropped : (repository.deleteWhere around criteria).run table =
      (.ok (table.count (repository.selects criteria)), table.discard (repository.selects criteria)) :=
    run_issue calm.throws rfl
  have known : repository.historyRecorder = true → repository.scopedColumns ≠ [] →
      ∀ old ∈ olds, old ∈ scopes := by
    intro recorded columned old listed
    rw [scopes_eq recorded columned]
    exact olds_sub old listed
  have recorded := run_recordAll repository calm known (table.discard (repository.selects criteria))
  refine congrArg Prod.snd (@run_withMutationRunner _ _ _ calm _ active _ _ _ true ?_)
  rw [built, run_bind_of_ok rfl, run_bind_of_ok found, run_bind_of_ok read,
    run_bind_of_ok (run_countMatched repository calm olds_eq), run_bind_of_ok (run_assertAffected calm all table),
    run_bind_of_ok dropped, run_bind_of_ok (run_assertAffected calm all _), run_bind_of_ok recorded]
  rfl

theorem mark_done {statement : Statement} {time : Option Cell} {ids : Ids} {criteria : Criteria}
    {table : Table Cell} (present : parseIds ids ≠ [])
    (built : repository.mutationWhere ((parseIds ids).map .string) = .ok criteria)
    (all : table.count (repository.selects criteria) = (parseIds ids).length)
    (columned : repository.deleteDateColumn ≠ none) :
    ((repository.mark around provided statement time ids).run table).2 =
      table.update (repository.selects criteria) (repository.marked around.now time)
        (fun row => repository.marked_id around.now row time) := by
  unfold mark
  rw [if_neg (by simpa using present)]
  have marks : (repository.markWhere around statement time criteria).run table =
      (.ok (table.count (repository.selects criteria)), table.update (repository.selects criteria)
        (repository.marked around.now time) (fun row => repository.marked_id around.now row time)) :=
    run_issue calm.throws (if_neg (by simpa using columned))
  refine congrArg Prod.snd (@run_withMutationRunner _ _ _ calm _ active _ _ _ true ?_)
  rw [built, run_bind_of_ok rfl, run_bind_of_ok (run_count calm _ table),
    run_bind_of_ok (run_assertAffected calm all table), run_bind_of_ok marks,
    run_bind_of_ok (run_assertAffected calm all _)]
  rfl

omit active in
/-- The criteria select the row that was written, so an update answers it. -/
theorem readSaved_done {id : Item} {patch : Record} {criteria : Criteria} {table : Table Cell}
    {scopes : List (Row Cell)} (settles : repository.Settles around.now id patch criteria table)
    (read : repository.historyRecorder = true → repository.scopedColumns ≠ [] →
      scopes = table.select (repository.selects criteria)) :
    ∃ saved, (find around (repository.selects criteria) >>= fun found =>
        repository.readSaved around scopes id found).run (repository.updated around.now patch criteria table) =
      (.ok saved, repository.updated around.now patch criteria table) := by
  rw [run_bind_of_ok (run_find calm _ _)]
  obtain ⟨row, member, selected, still⟩ := settles.found
  have moved : repository.patched around.now patch row ∈
      (repository.updated around.now patch criteria table).select (repository.selects criteria) := by
    refine Keyed.mem_select.mpr ⟨(Keyed.mem_update _).mpr ⟨row, member, by rw [if_pos selected]⟩, still⟩
  cases found : (repository.updated around.now patch criteria table).select
      (repository.selects criteria) with
  | nil =>
      rw [found] at moved
      cases moved
  | cons saved rest =>
      refine ⟨saved, ?_⟩
      have known : repository.historyRecorder = true → true = true → repository.scopedColumns ≠ [] →
          ∃ other ∈ scopes, (other "id").isSome ∧ other "id" = repository.store "id" (.item id) := by
        intro recorded _ columned
        obtain ⟨named, there, inScope, keyed, other, isId, same⟩ := settles.told recorded columned
        rw [List.mem_singleton.mp isId] at same
        refine ⟨named, ?_, keyed, same⟩
        rw [read recorded columned]
        exact Keyed.mem_select.mpr ⟨there, inScope⟩
      unfold readSaved
      rw [run_bind_of_ok (run_recordHistory repository calm known _)]
      rfl

/-- All that an update asks is so, or the caller's transaction is left as it is; the patch is applied. -/
theorem update_done {entity : Record} {id : Item} {patch : Record} {criteria : Criteria}
    {table : Table Cell} (patches : repository.Patches entity id patch criteria)
    (settles : provided = none → repository.Settles around.now id patch criteria table) :
    ((repository.update around provided entity).run table).2 =
      repository.updated around.now patch criteria table := by
  obtain ⟨isId, audited, unscoped, built, present, accepted⟩ := patches
  obtain ⟨olds, found, -⟩ := run_findOlds repository calm (repository.selects criteria) table
  obtain ⟨scopes, read, scopes_eq⟩ :=
    run_historyResourceScopes repository calm (repository.selects criteria) table
  have wrote : (repository.updateWhere around criteria patch).run table =
      (.ok (table.count (repository.selects criteria)),
        repository.updated around.now patch criteria table) :=
    run_issue calm.throws (if_neg (by simpa using accepted))
  have applied : (repository.applyPatch around criteria patch).run table =
      (assertAffected (table.count (repository.selects criteria)) 1,
        repository.updated around.now patch criteria table) := by
    unfold applyPatch
    rw [if_neg (by simpa using present), run_bind_of_ok wrote]
    rfl
  unfold update
  rw [isId, run_bind_of_ok rfl, audited, run_bind_of_ok rfl, unscoped, run_bind_of_ok rfl]
  cases provided with
  | none =>
      have one := (settles rfl).single
      obtain ⟨saved, ended⟩ := readSaved_done repository calm (settles rfl) scopes_eq
      refine congrArg Prod.snd (@run_withMutationRunner _ _ _ calm _ active _ _ _ saved ?_)
      rw [assertAffected, if_pos one] at applied
      rw [built, run_bind_of_ok rfl, run_bind_of_ok found, run_bind_of_ok read, run_bind_of_ok applied]
      exact ended
  | some given =>
      cases given with
      | false => exact absurd rfl active
      | true =>
          -- what fails after the statement is not undone here; only the caller can
          unfold withMutationRunner
          simp only []
          rw [built, run_bind_of_ok rfl, run_bind_of_ok found, run_bind_of_ok read]
          cases checked : assertAffected (table.count (repository.selects criteria)) 1 with
          | error failure =>
              rw [checked] at applied
              rw [run_bind_of_error applied]
          | ok _ =>
              rw [checked] at applied
              rw [run_bind_of_ok applied]
              exact (quiet_find around _).bind (fun found => quiet_readSaved around scopes id found) _

/-- The entity carries the key of a row, so that row is updated. -/
theorem create_done {entity audited stamped : Record} {row : Row Cell} {table : Table Cell}
    (isAudited : repository.onCreate entity = .ok audited)
    (isStamped : repository.fillTenancy audited = .ok stamped) (member : row ∈ table)
    (keyed : (row "id").isSome) (carried : row "id" = repository.identity stamped) :
    ((repository.create around provided entity).run table).2 = table.update
      (fun other => other "id" = row "id") (repository.resaved around.now stamped)
      (repository.resaved_id around.now stamped) := by
  obtain ⟨id, isId⟩ := Option.isSome_iff_exists.mp keyed
  have known : ((repository.identity stamped).bind fun id => table.get? (some id)) = some row := by
    rw [← carried, isId, Option.bind_some]
    exact Keyed.get?_eq_some.mpr ⟨member, isId⟩
  let after := table.update (fun other => other "id" = row "id") (repository.resaved around.now stamped)
    (repository.resaved_id around.now stamped)
  let saved := repository.resaved around.now stamped row
  have sameKey : saved "id" = row "id" := repository.resaved_id around.now stamped row
  have saves : (repository.save around stamped).run table = (.ok saved, after) := by
    refine run_issue calm.throws ?_
    rw [known]
  have inside : saved ∈ after := (Keyed.mem_update _).mpr ⟨row, member, by simp [saved]⟩
  obtain ⟨scopes, read, scopes_eq⟩ := run_historyResourceScopes repository calm
    (fun other => other "id" = saved "id") after
  have recorded := run_recordHistory repository calm (fun recorded isKeyed columned =>
    show ∃ other ∈ scopes, (other "id").isSome ∧ other "id" = saved "id" from
      ⟨saved, by
        rw [scopes_eq recorded columned]
        exact Keyed.mem_select.mpr ⟨inside, by simp⟩, isKeyed, rfl⟩) after
  unfold create
  rw [isAudited, run_bind_of_ok rfl, isStamped, run_bind_of_ok rfl]
  refine congrArg Prod.snd (@run_withMutationRunner _ _ _ calm _ active _ _ _ saved ?_)
  rw [run_bind_of_ok saves, run_bind_of_ok read, run_bind_of_ok recorded]
  rfl

end Calm

end Repository

end SdcoreNest.Orm
