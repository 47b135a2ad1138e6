/-
# Orm.Atomicity -- mutations with their history, all or nothing

A run of a mutation that owns its transaction fails and leaves rows and entries as they were, or it has
changed every row that was asked for and told the recorder of each, once, with the scope that the row
has in the table.

* `SessionWork.Atomic` -- a run that fails leaves rows and entries as they were;
* `SessionWork.Inside` -- no entry is written on another connection;
* `Created`, `Updated`, `Deleted`, `Marked`, `Imported` -- what a run that succeeds has done.
-/
import SdcoreNest.Orm.Journal

namespace SdcoreNest.Orm

open Theory JsString

set_option autoImplicit false
set_option linter.unusedSectionVars false

variable {Cell : Type}

/-! ## Rules -/

namespace SessionWork

variable {α β : Type}

theorem run_bind_of_ok {work : SessionWork Cell α} {next : α → SessionWork Cell β}
    {session session' : Session Cell} {a : α} (ran : work.run session = (.ok a, session')) :
    (work >>= next).run session = (next a).run session' := by
  show (SessionWork.bind work next).run session = _
  simp only [SessionWork.bind, ran]

theorem run_bind_of_error {work : SessionWork Cell α} {next : α → SessionWork Cell β}
    {session session' : Session Cell} {failure : Failure}
    (ran : work.run session = (.error failure, session')) :
    (work >>= next).run session = (.error failure, session') := by
  show (SessionWork.bind work next).run session = _
  simp only [SessionWork.bind, ran]

/-- The parts of work that succeeds succeed. -/
theorem of_bind {work : SessionWork Cell α} {next : α → SessionWork Cell β}
    {session session' : Session Cell} {answer : β}
    (ran : (work >>= next).run session = (.ok answer, session')) :
    ∃ a between, work.run session = (.ok a, between) ∧ (next a).run between = (.ok answer, session') := by
  rcases first : work.run session with ⟨failure | a, between⟩
  · rw [run_bind_of_error first] at ran
    cases (Prod.mk.inj ran).1
  · rw [run_bind_of_ok first] at ran
    exact ⟨a, between, rfl, ran⟩

theorem of_lift {answer : Except Failure α} {a : α} {session session' : Session Cell}
    (ran : (lift answer : SessionWork Cell α).run session = (.ok a, session')) :
    answer = .ok a ∧ session' = session :=
  ⟨(Prod.mk.inj ran).1, (Prod.mk.inj ran).2.symm⟩

theorem of_lift_bind {answer : Except Failure α} {next : α → SessionWork Cell β}
    {session session' : Session Cell} {b : β}
    (ran : (lift answer >>= next).run session = (.ok b, session')) :
    ∃ a, answer = .ok a ∧ (next a).run session = (.ok b, session') := by
  obtain ⟨a, between, first, later⟩ := of_bind ran
  obtain ⟨known, rfl⟩ := of_lift first
  exact ⟨a, known, later⟩

theorem of_return {a b : α} {session session' : Session Cell}
    (ran : (return a : SessionWork Cell α).run session = (.ok b, session')) : a = b ∧ session' = session :=
  ⟨Except.ok.inj (Prod.mk.inj ran).1, (Prod.mk.inj ran).2.symm⟩

variable {faults : Nat → Bool}

/-- A statement that succeeds has done its work, and wrote no entry. -/
theorem of_perform {work : Work Cell α} {a : α} {session session' : Session Cell}
    (ran : (perform faults work).run session = (.ok a, session')) :
    work.run session.table = (.ok a, session'.table) ∧ session'.entries = session.entries := by
  simp only [perform] at ran
  split at ran
  · cases ran
  · split at ran
    case h_1 b table done =>
        cases ran
        exact ⟨done, rfl⟩
    · cases ran

/-- The same for a statement whose effect is known. -/
theorem of_statement {work : Work Cell α} {a b : α} {table : Table Cell} {session session' : Session Cell}
    (does : work.run session.table = (.ok b, table))
    (ran : (perform faults work).run session = (.ok a, session')) :
    a = b ∧ session'.table = table ∧ session'.entries = session.entries := by
  obtain ⟨done, entries⟩ := of_perform ran
  obtain ⟨answer, left⟩ := Prod.mk.inj (done.symm.trans does)
  exact ⟨Except.ok.inj answer, left, entries⟩

theorem of_receive {entry : HistoryEntry Cell} {answer : Unit} {session session' : Session Cell}
    (handed : entry.queryRunner = true) (ran : (receive faults entry).run session = (.ok answer, session')) :
    session'.table = session.table ∧ session'.entries = session.entries ++ [entry] := by
  simp only [receive, handed, if_true] at ran
  split at ran
  · cases ran
  · cases ran
    exact ⟨rfl, rfl⟩

/-- A transaction that was committed left what its work left. -/
theorem of_withMutationRunner {work : SessionWork Cell α} {a : α} {session session' : Session Cell}
    (ran : (withMutationRunner faults none work).run session = (.ok a, session')) :
    ∃ begun inner, session.Same begun ∧ work.run begun = (.ok a, inner) ∧ inner.Same session' := by
  simp only [withMutationRunner] at ran
  split at ran
  · cases ran
  · split at ran
    · cases ran
    case h_2 answer inner done =>
        split at ran
        · cases ran
        · cases ran
          exact ⟨{ session with steps := session.steps + 2 }, inner, ⟨rfl, rfl⟩, done, rfl, rfl⟩

/-- Work that fails leaves rows and entries as they were. -/
def Atomic (work : SessionWork Cell α) : Prop :=
  ∀ session failure session', work.run session = (.error failure, session') → session.Same session'

theorem atomic_return (a : α) : Atomic (return a : SessionWork Cell α) := by
  intro session failure session' ran
  cases (Prod.mk.inj ran).1

theorem atomic_lift_bind {answer : Except Failure α} {next : α → SessionWork Cell β}
    (each : ∀ a, Atomic (next a)) : Atomic (lift answer >>= next) := by
  intro session failure session' ran
  cases answer with
  | error other =>
      obtain ⟨-, rfl⟩ := Prod.mk.inj ran
      exact ⟨rfl, rfl⟩
  | ok a => exact each a session failure session' ran

/-- Whatever happens, nothing is written on another connection. -/
def Inside (work : SessionWork Cell α) : Prop :=
  ∀ session, (work.run session).2.outside = session.outside

theorem inside_return (a : α) : Inside (return a : SessionWork Cell α) := fun _ => rfl

theorem inside_lift (answer : Except Failure α) : Inside (lift answer : SessionWork Cell α) := fun _ => rfl

theorem inside_throw (failure : Failure) : Inside (throw failure : SessionWork Cell α) := fun _ => rfl

theorem Inside.bind {work : SessionWork Cell α} {next : α → SessionWork Cell β} (inside : Inside work)
    (later : ∀ a, Inside (next a)) : Inside (work >>= next) := by
  intro session
  have between := inside session
  rcases first : work.run session with ⟨failure | a, after⟩
  · rw [first] at between
    rw [run_bind_of_error first]
    exact between
  · rw [first] at between
    rw [run_bind_of_ok first, later a after, between]

theorem inside_perform (work : Work Cell α) : Inside (perform faults work) := by
  intro session
  simp only [perform]
  split
  · rfl
  · split <;> rfl

theorem inside_receive {entry : HistoryEntry Cell} (handed : entry.queryRunner = true) :
    Inside (receive faults entry) := by
  intro session
  simp only [receive, handed, if_true]
  split <;> rfl

theorem Inside.withMutationRunner {work : SessionWork Cell α} (inside : Inside work)
    (provided : Option Bool) : Inside (withMutationRunner faults provided work) := by
  intro session
  unfold SessionWork.withMutationRunner
  split
  · exact inside session
  · rfl
  · have kept := inside { session with steps := session.steps + 2 }
    simp only []
    split
    · rfl
    · split
      case h_1 failure inner done =>
          rw [done] at kept
          exact kept
      case h_2 answer inner done =>
          rw [done] at kept
          split
          · exact kept
          · exact kept

/-- A transaction that is not committed is undone. -/
theorem atomic_withMutationRunner (work : SessionWork Cell α) :
    Atomic (withMutationRunner faults none work) := by
  intro session failure session' ran
  simp only [withMutationRunner] at ran
  split at ran
  · cases ran
    exact ⟨rfl, rfl⟩
  · split at ran
    · cases ran
      exact ⟨rfl, rfl⟩
    · split at ran
      · cases ran
        exact ⟨rfl, rfl⟩
      · cases ran

end SessionWork

/-! ## What each step does -/

namespace Repository

variable [DecidableEq Cell] {repository : Repository Cell} {texts : repository.IdTexts}
  {around : Surroundings Cell} {faults : Nat → Bool} {session session' : Session Cell}

theorem of_findRows {chosen : Row Cell → Bool} {rows : List (Row Cell)}
    (ran : (findRows around faults chosen).run session = (.ok rows, session')) :
    rows = session.table.select chosen ∧ session.Same session' := by
  have does : (find (calmed around) chosen).run session.table =
      (.ok (session.table.select chosen), session.table) := rfl
  exact SessionWork.of_statement does ran

theorem of_findLogged {chosen : Row Cell → Bool} {rows : List (Row Cell)}
    (ran : (repository.findLogged around faults chosen).run session = (.ok rows, session')) :
    (repository.historyRecorder = true → rows = session.table.select chosen) ∧
      (repository.historyRecorder = false → rows = []) ∧ session.Same session' := by
  unfold findLogged at ran
  cases recorder : repository.historyRecorder with
  | true =>
      rw [recorder] at ran
      obtain ⟨rows, same⟩ := of_findRows ran
      exact ⟨fun _ => rows, fun off => (by cases off), same⟩
  | false =>
      rw [recorder] at ran
      obtain ⟨rfl, rfl⟩ := SessionWork.of_return ran
      exact ⟨fun on => (by cases on), fun _ => rfl, rfl, rfl⟩

theorem of_performCount {chosen : Row Cell → Bool} {matched : Nat}
    (ran : (perform faults (count (calmed around) chosen)).run session = (.ok matched, session')) :
    matched = session.table.count chosen ∧ session.Same session' := by
  have does : (count (calmed around) chosen).run session.table =
      (.ok (session.table.count chosen), session.table) := rfl
  exact SessionWork.of_statement does ran

theorem of_countLogged {chosen : Row Cell → Bool} {olds : List (Row Cell)} {matched : Nat}
    (read : repository.historyRecorder = true → olds = session.table.select chosen)
    (ran : (repository.countLogged around faults olds chosen).run session = (.ok matched, session')) :
    matched = session.table.count chosen ∧ session.Same session' := by
  unfold countLogged at ran
  cases recorder : repository.historyRecorder with
  | true =>
      rw [recorder] at ran
      obtain ⟨rfl, rfl⟩ := SessionWork.of_return ran
      rw [read recorder]
      exact ⟨rfl, rfl, rfl⟩
  | false =>
      rw [recorder, if_neg (by simp)] at ran
      exact of_performCount ran

/-- The scopes that a run looks up: those of the chosen rows. -/
def ScopesOf (texts : repository.IdTexts) (rows : List (Row Cell)) (scopes : Scopes Cell) : Prop :=
  repository.historyRecorder = true → repository.scopedColumns ≠ [] →
    rows.mapM (resourceScope texts) = .ok scopes

theorem of_resourceScopes {chosen : Row Cell → Bool} {scopes : Scopes Cell}
    (ran : (resourceScopes texts around faults chosen).run session = (.ok scopes, session')) :
    ScopesOf texts (session.table.select chosen) scopes ∧
      (repository.scopedColumns = [] → scopes = []) ∧ session.Same session' := by
  unfold resourceScopes at ran
  split at ran
  case isTrue silent =>
      obtain ⟨rfl, rfl⟩ := SessionWork.of_return ran
      refine ⟨fun recorder columned => ?_, fun _ => rfl, rfl, rfl⟩
      simp [recorder, columned] at silent
  case isFalse columned =>
      obtain ⟨rows, between, first, second⟩ := SessionWork.of_bind ran
      obtain ⟨rfl, same⟩ := of_findRows first
      obtain ⟨collected, rfl⟩ := SessionWork.of_lift second
      refine ⟨fun _ _ => collected, fun unscoped => ?_, same⟩
      simp [unscoped] at columned

theorem inside_logHistory {entry : HistoryEntry Cell} (handed : entry.queryRunner = true) :
    SessionWork.Inside (repository.logHistory faults entry) := by
  unfold logHistory
  split
  · exact SessionWork.inside_return ()
  · split
    · exact SessionWork.inside_throw _
    · exact SessionWork.inside_receive handed

theorem of_logHistory {entry : HistoryEntry Cell} {answer : Unit} (handed : entry.queryRunner = true)
    (ran : (repository.logHistory faults entry).run session = (.ok answer, session')) :
    session'.table = session.table ∧
      session'.entries = session.entries ++
        (if repository.historyRecorder && !entry.tableId.isEmpty then [entry] else []) ∧
      (repository.historyRecorder = true → entry.tableId ≠ [] → repository.scopedColumns ≠ [] →
        entry.resourceScope.isSome = true) := by
  unfold logHistory at ran
  split at ran
  case isTrue silent =>
      obtain ⟨-, rfl⟩ := SessionWork.of_return ran
      have off : (repository.historyRecorder && !entry.tableId.isEmpty) = false := by
        revert silent
        cases repository.historyRecorder <;> simp
      refine ⟨rfl, by rw [off, if_neg (by simp), List.append_nil], fun recorder named _ => ?_⟩
      simp [recorder, named] at silent
  case isFalse loud =>
      have on : (repository.historyRecorder && !entry.tableId.isEmpty) = true := by
        revert loud
        cases repository.historyRecorder <;> simp
      split at ran
      · cases (Prod.mk.inj ran).1
      case isFalse carried =>
          obtain ⟨table, entries⟩ := SessionWork.of_receive handed ran
          refine ⟨table, by rw [on, if_pos rfl, entries], fun _ _ columned => ?_⟩
          revert carried
          cases entry.resourceScope with
          | none => simp [columned]
          | some _ => simp

/-! ## Requests -/

variable (repository) in
/-- A row that the request names and its scope permits. -/
def Meant (ids : List JsString) (row : Row Cell) : Prop :=
  repository.Named (ids.map .string) row ∧
    ∃ conditions, repository.scopeWhere = .ok conditions ∧ repository.selects conditions row = true

section Plain

variable (plain : ∀ column ∈ repository.scopedColumns, column.propertyName ≠ "id")
  {ids : List JsString} {criteria : Criteria}
  (built : repository.mutationWhere (ids.map .string) = .ok criteria)

include plain built

theorem selects_iff {row : Row Cell} :
    repository.selects criteria row = true ↔ repository.Meant ids row := by
  have named := @named_of_selects Cell _ repository plain _ _ built row
  obtain ⟨conditions, isScope, rfl⟩ := mutationWhere_eq_ok built
  have parts : repository.selects (spread [("id", identified (ids.map .string))] conditions) row = true ↔
      repository.selects ([("id", identified (ids.map .string))].filter
        fun condition => !(conditions.map Prod.fst).contains condition.1) row = true ∧
      repository.selects conditions row = true := by
    unfold selects spread
    rw [List.all_append, Bool.and_eq_true]
  constructor
  · intro selected
    exact ⟨named selected, conditions, isScope, (parts.mp selected).2⟩
  · rintro ⟨isNamed, conditions', isScope', permitted⟩
    obtain rfl := Except.ok.inj (isScope.symm.trans isScope')
    refine parts.mpr ⟨List.all_eq_true.mpr fun condition listed => ?_, permitted⟩
    rw [List.mem_singleton.mp (List.mem_of_mem_filter listed)]
    exact holds_identified.mpr isNamed

/-- As many rows as ids: each id has its row. -/
theorem meant_of_count {table : Table Cell} (counted : table.count (repository.selects criteria) = ids.length)
    {id : JsString} (asked : id ∈ ids) : ∃ row ∈ table, repository.Meant [id] row := by
  have inside : ∀ row ∈ table, repository.selects criteria row = true →
      row "id" ∈ ids.map fun id => repository.store "id" (.item (.string id)) := by
    intro row _ selected
    obtain ⟨-, item, listed, same⟩ := ((selects_iff plain built).mp selected).1
    obtain ⟨text, isText, rfl⟩ := List.mem_map.mp listed
    exact List.mem_map.mpr ⟨text, isText, same.symm⟩
  obtain ⟨row, member, selected, same⟩ := Keyed.chosen_of_count inside
    (by rw [counted, List.length_map]) (List.mem_map.mpr ⟨id, asked, rfl⟩)
  obtain ⟨⟨keyed, -⟩, permitted⟩ := (selects_iff plain built).mp selected
  exact ⟨row, member, ⟨keyed, .string id, List.mem_singleton_self _, same⟩, permitted⟩

end Plain

/-- One id means one row. -/
theorem eq_of_meant {table : Table Cell} {id : JsString} {row other : Row Cell} (member : row ∈ table)
    (member' : other ∈ table) (meant : repository.Meant [id] row) (meant' : repository.Meant [id] other) :
    row = other := by
  obtain ⟨-, item, listed, same⟩ := meant.1
  obtain ⟨-, item', listed', same'⟩ := meant'.1
  rw [List.mem_singleton.mp listed] at same
  rw [List.mem_singleton.mp listed'] at same'
  exact Keyed.eq_of_key member member' (same.trans same'.symm)

theorem store_of_meant {id : JsString} {row : Row Cell} (meant : repository.Meant [id] row) :
    row "id" = repository.store "id" (.item (.string id)) := by
  obtain ⟨-, item, listed, same⟩ := meant.1
  rwa [List.mem_singleton.mp listed] at same

/-! ## Entries -/

variable (repository) in
/-- What the recorder keeps of entries. -/
def kept (entries : List (HistoryEntry Cell)) : List (HistoryEntry Cell) :=
  if repository.historyRecorder then entries else []

theorem IdTexts.store_of (texts : repository.IdTexts) {row : Row Cell} (keyed : (row "id").isSome) :
    repository.store "id" (.item (.string (texts.of row))) = row "id" := by
  obtain ⟨cell, isCell⟩ := Option.isSome_iff_exists.mp keyed
  unfold IdTexts.of
  rw [isCell]
  exact texts.stored cell

theorem IdTexts.ne_nil (texts : repository.IdTexts) {id : JsString}
    (keyed : (repository.store "id" (.item (.string id))).isSome) : id ≠ [] := by
  rintro rfl
  rw [texts.nonempty] at keyed
  cases keyed

/-- A scope that is looked up is that of a row with the id. -/
theorem get_eq_some {rows : List (Row Cell)} {scopes : Scopes Cell} {id : JsString}
    {scope : List (String × Option Cell)} (collected : rows.mapM (resourceScope texts) = .ok scopes)
    (known : Scopes.get scopes id = some scope) :
    ∃ row ∈ rows, (row "id").isSome ∧ repository.store "id" (.item (.string id)) = row "id" ∧
      scope = repository.scopeOf row := by
  obtain ⟨first, rest, parts, -⟩ := List.lookup_eq_some_iff.mp known
  have listed : (id, scope) ∈ scopes := by
    rw [← List.mem_reverse, parts]
    exact List.mem_append_right _ (List.mem_cons_self ..)
  obtain ⟨row, member, answered⟩ := of_mem_mapM collected listed
  unfold resourceScope at answered
  split at answered
  · cases answered
  case isFalse sound =>
      obtain ⟨rfl, rfl⟩ := Prod.mk.inj (Except.ok.inj answered)
      have keyed : (row "id").isSome := by
        cases known : row "id" with
        | some cell => rfl
        | none => simp [IdTexts.of, known] at sound
      exact ⟨row, member, keyed, texts.store_of keyed, rfl⟩

/-- The scope of an entry is the one that its row has in the table. -/
theorem get_eq_persistedScope {table : Table Cell} {chosen : Row Cell → Bool} {scopes : Scopes Cell}
    {id : JsString} {row : Row Cell} (recorder : repository.historyRecorder = true)
    (collected : ScopesOf texts (table.select chosen) scopes)
    (silent : repository.scopedColumns = [] → scopes = []) (member : row ∈ table)
    (keyed : repository.store "id" (.item (.string id)) = row "id")
    (carried : repository.scopedColumns ≠ [] → (Scopes.get scopes id).isSome = true) :
    Scopes.get scopes id = repository.persistedScope row := by
  unfold persistedScope
  by_cases columned : repository.scopedColumns = []
  · rw [columned, silent columned]
    rfl
  · obtain ⟨scope, known⟩ := Option.isSome_iff_exists.mp (carried columned)
    obtain ⟨other, selected, -, same, rfl⟩ := get_eq_some (collected recorder columned) known
    obtain rfl := Keyed.eq_of_key (Keyed.mem_select.mp selected).1 member (same.symm.trans keyed)
    rw [known, if_neg (by simpa using columned)]

/-! ## Deletions -/

/-- Every id has its row; the rows that were meant are gone, and each was told of once. -/
structure Deleted (texts : repository.IdTexts) (ids : List JsString) (session session' : Session Cell) :
    Prop where
  found : ∀ id ∈ ids, ∃ row ∈ session.table, repository.Meant [id] row
  rows : ∀ row, row ∈ session'.table ↔ row ∈ session.table ∧ ¬repository.Meant ids row
  told : ∃ olds : List (Row Cell), olds.Nodup ∧
    (∀ row, row ∈ olds ↔ row ∈ session.table ∧ repository.Meant ids row) ∧
    session'.entries = session.entries ++ repository.kept (olds.map fun old =>
      ⟨.delete, texts.of old, some old, none, repository.persistedScope old, true⟩)

theorem not_meant_nil (row : Row Cell) : ¬repository.Meant [] row := by
  rintro ⟨⟨-, item, listed, -⟩, -⟩
  cases listed

theorem of_logDeleted {scopes : Scopes Cell} {olds : List (Row Cell)} {answer : Unit}
    (keyed : ∀ old ∈ olds, (old "id").isSome)
    (ran : (logDeleted texts faults scopes olds).run session = (.ok answer, session')) :
    session'.table = session.table ∧
      session'.entries = session.entries ++ repository.kept (olds.map fun old =>
        ⟨.delete, texts.of old, some old, none, Scopes.get scopes (texts.of old), true⟩) ∧
      (repository.historyRecorder = true → repository.scopedColumns ≠ [] →
        ∀ old ∈ olds, (Scopes.get scopes (texts.of old)).isSome = true) := by
  induction olds generalizing session with
  | nil =>
      obtain ⟨-, rfl⟩ := SessionWork.of_return ran
      refine ⟨rfl, ?_, fun _ _ old listed => by cases listed⟩
      rw [List.map_nil, kept, ite_self, List.append_nil]
  | cons old rest ih =>
      obtain ⟨_, between, first, later⟩ := SessionWork.of_bind ran
      obtain ⟨table, entries, carried⟩ := of_logHistory rfl first
      obtain ⟨table', entries', carried'⟩ := ih (fun other listed => keyed other (.tail _ listed)) later
      have named : texts.of old ≠ [] := texts.ne_nil (by
        rw [texts.store_of (keyed old (.head _))]
        exact keyed old (.head _))
      refine ⟨table'.trans table, ?_, fun recorder columned other listed => ?_⟩
      · rw [entries', entries, List.append_assoc]
        congr 1
        unfold kept
        cases repository.historyRecorder with
        | true => simp [named]
        | false => simp
      · cases listed with
        | head => exact carried recorder named columned
        | tail _ listed => exact carried' recorder columned other listed

theorem deleteLogged_done (plain : ∀ column ∈ repository.scopedColumns, column.propertyName ≠ "id")
    {ids : Ids} {answer : Bool}
    (ran : (deleteLogged texts around faults none ids).run session = (.ok answer, session')) :
    answer = !(parseIds ids).isEmpty ∧ Deleted texts (parseIds ids) session session' := by
  unfold deleteLogged at ran
  split at ran
  case isTrue absent =>
      obtain ⟨rfl, rfl⟩ := SessionWork.of_return ran
      have absent : parseIds ids = [] := by simpa using absent
      rw [absent]
      refine ⟨rfl, ⟨fun id asked => absurd asked List.not_mem_nil, fun row => ?_,
        [], List.nodup_nil, fun row => ?_, ?_⟩⟩
      · simp [not_meant_nil]
      · simp [not_meant_nil]
      · rw [List.map_nil, kept, ite_self, List.append_nil]
  case isFalse present =>
      obtain ⟨begun, inner, ⟨same, same'⟩, ran, left, left'⟩ := SessionWork.of_withMutationRunner ran
      obtain ⟨criteria, built, ran⟩ := SessionWork.of_lift_bind ran
      obtain ⟨olds, found, first, ran⟩ := SessionWork.of_bind ran
      obtain ⟨read, unread, foundTable, foundEntries⟩ := of_findLogged first
      obtain ⟨scopes, collecting, second, ran⟩ := SessionWork.of_bind ran
      obtain ⟨collected, silent, collectingTable, collectingEntries⟩ := of_resourceScopes second
      obtain ⟨matched, counted, third, ran⟩ := SessionWork.of_bind ran
      obtain ⟨isMatched, countedTable, countedEntries⟩ := of_countLogged
        (fun recorder => by rw [collectingTable, foundTable, read recorder]) third
      obtain ⟨_, passed, ran⟩ := SessionWork.of_lift_bind ran
      obtain ⟨affected, deleted, fourth, ran⟩ := SessionWork.of_bind ran
      obtain ⟨-, deletedTable, deletedEntries⟩ := SessionWork.of_statement
        (show (repository.deleteWhere (calmed around) criteria).run counted.table =
          (.ok (counted.table.count (repository.selects criteria)),
            counted.table.discard (repository.selects criteria)) from rfl) fourth
      obtain ⟨_, -, ran⟩ := SessionWork.of_lift_bind ran
      obtain ⟨_, told, fifth, ran⟩ := SessionWork.of_bind ran
      obtain ⟨rfl, ended⟩ := SessionWork.of_return ran
      have readTable : counted.table = session.table := by
        rw [countedTable, collectingTable, foundTable, same]
      have entries : deleted.entries = session.entries := by
        rw [deletedEntries, countedEntries, collectingEntries, foundEntries, same']
      have allMatched : session.table.count (repository.selects criteria) = (parseIds ids).length := by
        rw [← assertAffected_eq_ok passed, isMatched, collectingTable, foundTable, same]
      have chosen : ∀ row, repository.selects criteria row = true ↔ repository.Meant (parseIds ids) row :=
        fun row => selects_iff plain built
      have keyed : ∀ old ∈ session.table.select (repository.selects criteria), (old "id").isSome :=
        fun old selected => ((chosen old).mp (Keyed.mem_select.mp selected).2).1.1
      have report : told.table = deleted.table ∧ told.entries = session.entries ++ repository.kept
          ((session.table.select (repository.selects criteria)).map fun old =>
            ⟨.delete, texts.of old, some old, none, repository.persistedScope old, true⟩) := by
        cases recorder : repository.historyRecorder with
        | false =>
            obtain rfl := unread recorder
            obtain ⟨table, entries', -⟩ := of_logDeleted (fun old listed => by cases listed) fifth
            refine ⟨table, ?_⟩
            rw [entries', entries, kept, kept, recorder]
            rfl
        | true =>
            obtain rfl := read recorder
            rw [same] at fifth
            rw [foundTable, same] at collected
            obtain ⟨table, entries', carried⟩ := of_logDeleted keyed fifth
            refine ⟨table, ?_⟩
            rw [entries', entries]
            refine congrArg (fun listed => session.entries ++ repository.kept listed)
              (List.map_congr_left fun old listed => ?_)
            have scope := get_eq_persistedScope recorder collected silent (Keyed.mem_select.mp listed).1
              (texts.store_of (keyed old listed)) fun columned => carried recorder columned old listed
            rw [scope]
      refine ⟨by simp [present], fun id asked => meant_of_count plain built allMatched asked, fun row => ?_,
        session.table.select (repository.selects criteria), ?_, fun row => ?_, ?_⟩
      · rw [left, ended, report.1, deletedTable, readTable, Keyed.mem_discard, ← chosen, Bool.not_eq_true]
      · exact List.Nodup.of_map _ (session.table.select_distinct _)
      · rw [Keyed.mem_select, chosen]
      · rw [left', ended, report.2]

/-! ## Marks -/

/-- A statement that marks rows found the column for it. -/
theorem of_markWhere {statement : Statement} {time : Option Cell} {criteria : Criteria} {affected : Nat}
    {table table' : Table Cell}
    (ran : (repository.markWhere (calmed around) statement time criteria).run table =
      (.ok affected, table')) :
    table' = table.update (repository.selects criteria) (repository.marked around.now time)
      (fun row => repository.marked_id around.now row time) := by
  rcases issue_cases (calmed around) statement _ table with ⟨failure, thrown⟩ | ⟨_, after, done, answered⟩
  · unfold markWhere at ran
    rw [thrown] at ran
    cases (Prod.mk.inj ran).1
  · unfold markWhere at ran
    rw [answered] at ran
    obtain ⟨-, rfl⟩ := Prod.mk.inj ran
    split at done
    · cases done
    · exact (Prod.mk.inj (Except.ok.inj done)).2.symm

/-- Every id has its row; the rows that were meant are marked, and no others. -/
structure Marked (repository : Repository Cell) (now : Cell) (time : Option Cell) (ids : List JsString)
    (session session' : Session Cell) : Prop where
  found : ∀ id ∈ ids, ∃ row ∈ session.table, repository.Meant [id] row
  rows : ∀ row, row ∈ session'.table ↔ ∃ old ∈ session.table,
    repository.Meant ids old ∧ row = repository.marked now time old ∨
      ¬repository.Meant ids old ∧ row = old
  untold : session'.entries = session.entries

theorem markStepwise_done (plain : ∀ column ∈ repository.scopedColumns, column.propertyName ≠ "id")
    {statement : Statement} {time : Option Cell} {ids : Ids} {answer : Bool}
    (ran : (repository.markStepwise around faults none statement time ids).run session =
      (.ok answer, session')) :
    answer = !(parseIds ids).isEmpty ∧
      Marked repository around.now time (parseIds ids) session session' := by
  unfold markStepwise at ran
  split at ran
  case isTrue absent =>
      obtain ⟨rfl, rfl⟩ := SessionWork.of_return ran
      have absent : parseIds ids = [] := by simpa using absent
      rw [absent]
      refine ⟨rfl, ⟨fun id asked => absurd asked List.not_mem_nil, fun row => ?_, rfl⟩⟩
      simp [not_meant_nil]
  case isFalse present =>
      obtain ⟨begun, inner, ⟨same, same'⟩, ran, left, left'⟩ := SessionWork.of_withMutationRunner ran
      obtain ⟨criteria, built, ran⟩ := SessionWork.of_lift_bind ran
      obtain ⟨matched, counted, first, ran⟩ := SessionWork.of_bind ran
      obtain ⟨isMatched, countedTable, countedEntries⟩ := of_performCount first
      obtain ⟨_, passed, ran⟩ := SessionWork.of_lift_bind ran
      obtain ⟨affected, marked, second, ran⟩ := SessionWork.of_bind ran
      obtain ⟨does, markedEntries⟩ := SessionWork.of_perform second
      have markedTable : marked.table = counted.table.update (repository.selects criteria)
          (repository.marked around.now time) (fun row => repository.marked_id around.now row time) :=
        of_markWhere does
      obtain ⟨_, -, ran⟩ := SessionWork.of_lift_bind ran
      obtain ⟨rfl, ended⟩ := SessionWork.of_return ran
      have allMatched : session.table.count (repository.selects criteria) = (parseIds ids).length := by
        rw [← assertAffected_eq_ok passed, isMatched, same]
      refine ⟨by simp [present], fun id asked => meant_of_count plain built allMatched asked,
        fun row => ?_, ?_⟩
      · rw [left, ended, markedTable, countedTable, same, Keyed.mem_update]
        refine exists_congr fun old => and_congr_right fun _ => ?_
        rw [← selects_iff plain built]
        cases repository.selects criteria old with
        | true => simp
        | false => simp
      · rw [left', ended, markedEntries, countedEntries, same']

/-! ## Updates -/

/-- The row that an update leaves; for a patch without columns it issues no statement. -/
def revised (repository : Repository Cell) (now : Cell) (patch : Record) (row : Row Cell) : Row Cell :=
  if patch.isEmpty then row else repository.patched now patch row

/-- No scoped column is one that TypeORM changes along with others. -/
def Steady (repository : Repository Cell) : Prop :=
  ∀ column ∈ repository.scopedColumns, repository.versionColumn ≠ some column.propertyName ∧
    repository.updateDateColumn ≠ some column.propertyName

/-- One row was meant; it carries the patch, and the recorder was told of it once, with the scope that it
had when the update read it.  That is the scope which it still has, unless TypeORM itself moved it. -/
def Updated (repository : Repository Cell) (now : Cell) (id : JsString) (patch : Record)
    (saved : Row Cell) (session session' : Session Cell) : Prop :=
  ∃ old ∈ session.table, repository.Meant [id] old ∧ saved = repository.revised now patch old ∧
    (∀ row, row ∈ session'.table ↔ row = saved ∨ row ∈ session.table ∧ row ≠ old) ∧
    session'.entries = session.entries ++ repository.kept
      [⟨.update, id, some old, some saved, repository.persistedScope old, true⟩] ∧
    (repository.Steady → repository.persistedScope old = repository.persistedScope saved)

/-- What a statement leaves, if TypeORM accepts the patch. -/
theorem of_updateWhere {criteria : Criteria} {patch : Record} {affected : Nat} {table table' : Table Cell}
    (ran : (repository.updateWhere (calmed around) criteria patch).run table = (.ok affected, table')) :
    table' = repository.updated around.now patch criteria table := by
  rcases issue_cases (calmed around) .update _ table with ⟨failure, thrown⟩ | ⟨_, after, done, answered⟩
  · unfold updateWhere at ran
    rw [thrown] at ran
    cases (Prod.mk.inj ran).1
  · unfold updateWhere at ran
    rw [answered] at ran
    obtain ⟨-, rfl⟩ := Prod.mk.inj ran
    split at done
    · cases done
    · exact (Prod.mk.inj (Except.ok.inj done)).2.symm

/-- Where one row is chosen, the change takes its place and nothing else moves. -/
theorem mem_changed_of_only {table table' : Table Cell} {chosen : Row Cell → Bool}
    {change : Row Cell → Row Cell} {old row : Row Cell}
    (rows : ∀ row, row ∈ table' ↔ ∃ other ∈ table, row = if chosen other then change other else other)
    (member : old ∈ table) (before : chosen old = true)
    (only : ∀ other ∈ table, chosen other = true → other = old) :
    row ∈ table' ↔ row = change old ∨ row ∈ table ∧ row ≠ old := by
  rw [rows]
  constructor
  · rintro ⟨other, member', rfl⟩
    by_cases chosen' : chosen other = true
    · rw [if_pos chosen', only other member' chosen']
      exact .inl rfl
    · rw [if_neg chosen']
      refine .inr ⟨member', ?_⟩
      rintro rfl
      exact chosen' before
  · rintro (rfl | ⟨member', other⟩)
    · exact ⟨old, member, by rw [if_pos before]⟩
    · exact ⟨row, member', by rw [if_neg fun chosen' => other (only row member' chosen')]⟩

/-- The rows that the criteria select are revised. -/
theorem of_patchRow {criteria : Criteria} {patch : Record} {answer : Unit}
    (ran : (repository.patchRow around faults criteria patch).run session = (.ok answer, session')) :
    (∀ row, row ∈ session'.table ↔ ∃ old ∈ session.table,
        row = if repository.selects criteria old then repository.revised around.now patch old else old) ∧
      session'.entries = session.entries := by
  unfold patchRow at ran
  unfold revised
  split at ran
  case isTrue absent =>
      obtain ⟨-, rfl⟩ := SessionWork.of_return ran
      refine ⟨fun row => ?_, rfl⟩
      simp [absent]
  case isFalse present =>
      obtain ⟨affected, changed, first, ran⟩ := SessionWork.of_bind ran
      obtain ⟨-, rfl⟩ := SessionWork.of_lift ran
      obtain ⟨does, entries⟩ := SessionWork.of_perform first
      refine ⟨fun row => ?_, entries⟩
      rw [of_updateWhere does, updated, Keyed.mem_update]
      simp only [if_neg present]

/-- A patch that an update accepts leaves the scope of a row. -/
theorem persistedScope_revised {now : Cell} {patch : Record} (steady : repository.Steady)
    (unscoped : repository.assertUnscoped patch = .ok ()) (row : Row Cell) :
    repository.persistedScope row = repository.persistedScope (repository.revised now patch row) := by
  unfold revised
  split
  · rfl
  have same : repository.scopeOf row = repository.scopeOf (repository.patched now patch row) := by
    refine List.map_congr_left fun column inside => ?_
    obtain ⟨notVersion, notUpdateDate⟩ := steady column inside
    rw [patched_of_not_has ?_ notVersion notUpdateDate]
    unfold assertUnscoped at unscoped
    split at unscoped
    · cases unscoped
    case h_2 absent => simpa using List.find?_eq_none.mp absent column inside
  unfold persistedScope
  rw [same]

/-- The row that an update answers is the first that its criteria select. -/
theorem of_logUpdate {id : JsString} {old : Option (Row Cell)} {scopes : Scopes Cell}
    {found : List (Row Cell)} {saved : Row Cell} (named : id ≠ [])
    (ran : (repository.logUpdate faults id old scopes found).run session = (.ok saved, session')) :
    saved ∈ found ∧ session'.table = session.table ∧
      session'.entries = session.entries ++
        repository.kept [⟨.update, id, old, some saved, Scopes.get scopes id, true⟩] ∧
      (repository.historyRecorder = true → repository.scopedColumns ≠ [] →
        (Scopes.get scopes id).isSome = true) := by
  cases found with
  | nil => cases (Prod.mk.inj ran).1
  | cons first rest =>
      obtain ⟨_, told, first, ran⟩ := SessionWork.of_bind ran
      obtain ⟨rfl, rfl⟩ := SessionWork.of_return ran
      obtain ⟨table, entries, carried⟩ := of_logHistory rfl first
      refine ⟨List.mem_cons_self .., table, ?_, fun recorder => carried recorder named⟩
      rw [entries, kept]
      cases repository.historyRecorder with
      | true => simp [named]
      | false => simp

theorem head?_select {table : Table Cell} {chosen : Row Cell → Bool} {row : Row Cell}
    (member : row ∈ table) (selected : chosen row = true)
    (only : ∀ other ∈ table, chosen other = true → other = row) :
    (table.select chosen).head? = some row := by
  have listed : row ∈ table.select chosen := Keyed.mem_select.mpr ⟨member, selected⟩
  cases rows : table.select chosen with
  | nil =>
      rw [rows] at listed
      cases listed
  | cons first rest =>
      have inside : first ∈ table.select chosen := by
        rw [rows]
        exact List.mem_cons_self ..
      obtain ⟨member', selected'⟩ := Keyed.mem_select.mp inside
      rw [List.head?_cons, only first member' selected']

theorem updateLogged_done (plain : ∀ column ∈ repository.scopedColumns, column.propertyName ≠ "id")
    {entity : Record} {saved : Row Cell}
    (ran : (updateLogged texts around faults none entity).run session = (.ok saved, session')) :
    ∃ id patch, updatedText entity = .ok id ∧ repository.onUpdate (entity.remove "id") = .ok patch ∧
      Updated repository around.now id patch saved session session' := by
  unfold updateLogged at ran
  obtain ⟨id, isId, ran⟩ := SessionWork.of_lift_bind ran
  obtain ⟨patch, isPatch, ran⟩ := SessionWork.of_lift_bind ran
  obtain ⟨_, unscoped, ran⟩ := SessionWork.of_lift_bind ran
  obtain ⟨begun, inner, ⟨same, same'⟩, ran, left, left'⟩ := SessionWork.of_withMutationRunner ran
  obtain ⟨criteria, built, ran⟩ := SessionWork.of_lift_bind ran
  have built : repository.mutationWhere ([id].map .string) = .ok criteria := built
  obtain ⟨olds, reading, first, ran⟩ := SessionWork.of_bind ran
  obtain ⟨read, -, readingTable, readingEntries⟩ := of_findLogged first
  obtain ⟨scopes, collecting, second, ran⟩ := SessionWork.of_bind ran
  obtain ⟨collected, silent, collectingTable, collectingEntries⟩ := of_resourceScopes second
  obtain ⟨_, updated, third, ran⟩ := SessionWork.of_bind ran
  obtain ⟨rows, updatedEntries⟩ := of_patchRow third
  obtain ⟨found, seen, fourth, ran⟩ := SessionWork.of_bind ran
  obtain ⟨rfl, seenTable, seenEntries⟩ := of_findRows fourth
  have chosen : ∀ row, repository.selects criteria row = true ↔ repository.Meant [id] row :=
    fun row => selects_iff plain built
  have table : collecting.table = session.table := by rw [collectingTable, readingTable, same]
  rw [table] at rows
  obtain ⟨isFound, told, entries, carried⟩ := of_logUpdate (of_updatedText isId).2 ran
  obtain ⟨there, selected⟩ := Keyed.mem_select.mp isFound
  obtain ⟨old, member, isOld⟩ := (rows saved).mp there
  have before : repository.selects criteria old = true := by
    by_contra unselected
    rw [if_neg unselected] at isOld
    rw [isOld] at selected
    exact unselected selected
  rw [if_pos before] at isOld
  have meant := (chosen old).mp before
  have only : ∀ other ∈ session.table, repository.selects criteria other = true → other = old :=
    fun other member' selected' => eq_of_meant member' member ((chosen other).mp selected') meant
  refine ⟨id, patch, isId, isPatch, old, member, meant, isOld, fun row => ?_, ?_, fun steady => ?_⟩
  · rw [left, told, seenTable, isOld]
    exact mem_changed_of_only rows member before only
  · rw [left', entries, seenEntries, updatedEntries, collectingEntries, readingEntries, same']
    cases recorder : repository.historyRecorder with
    | false => simp [kept, recorder]
    | true =>
        rw [readingTable, same] at collected
        have scope := get_eq_persistedScope recorder collected silent member (store_of_meant meant).symm
          (carried recorder)
        rw [scope, read recorder, same, head?_select member before only]
  · rw [isOld]
    exact persistedScope_revised steady unscoped old

/-! ## Creations -/

/-- The entity, audited and stamped, was saved, and the recorder was told of its row once. -/
structure Created (repository : Repository Cell) (around : Surroundings Cell) (entity : Record)
    (saved : Row Cell) (session session' : Session Cell) : Prop where
  saves : ∃ audited stamped, repository.onCreate entity = .ok audited ∧
    repository.fillTenancy audited = .ok stamped ∧
    (repository.save (calmed around) stamped).run session.table = (.ok saved, session'.table)
  there : saved ∈ session'.table
  others : ∀ row, row "id" ≠ saved "id" → (row ∈ session'.table ↔ row ∈ session.table)
  told : ∃ id, repository.store "id" (.item (.string id)) = saved "id" ∧
    session'.entries = session.entries ++ repository.kept
      [⟨.create, id, none, some saved, repository.persistedScope saved, true⟩]

/-- A row that was saved is in the table, under the key that its entity carries if it carries one. -/
theorem of_save {stamped : Record} {saved : Row Cell} {table table' : Table Cell}
    (ran : (repository.save (calmed around) stamped).run table = (.ok saved, table')) :
    saved ∈ table' ∧ (∀ row, row "id" ≠ saved "id" → (row ∈ table' ↔ row ∈ table)) ∧
      (saved "id").isSome ∧ ((repository.identity stamped).isSome →
        saved "id" = repository.identity stamped) := by
  unfold save at ran
  rcases issue_cases (calmed around) .save _ table with ⟨failure, thrown⟩ | ⟨answer, after, done, answered⟩
  · rw [thrown] at ran
    cases (Prod.mk.inj ran).1
  · rw [answered] at ran
    obtain ⟨isSaved, rfl⟩ := Prod.mk.inj ran
    obtain rfl := Except.ok.inj isSaved
    cases known : (repository.identity stamped).bind fun id => table.get? (some id) with
    | some old =>
        rw [known] at done
        obtain ⟨rfl, rfl⟩ := Prod.mk.inj (Except.ok.inj done)
        obtain ⟨cell, isCell, got⟩ := Option.bind_eq_some_iff.mp known
        obtain ⟨member, keyed⟩ := Keyed.get?_eq_some.mp got
        rw [repository.resaved_id]
        refine ⟨(Keyed.mem_update _).mpr ⟨old, member, by simp⟩, fun row other => ?_, ?_, fun _ => ?_⟩
        · rw [Keyed.mem_update]
          constructor
          · rintro ⟨before, there, rfl⟩
            by_cases same : before "id" = old "id"
            · refine absurd ?_ other
              rw [if_pos (decide_eq_true same), repository.resaved_id, same]
            · simpa [same] using there
          · intro there
            exact ⟨row, there, by simp [other]⟩
        · rw [keyed]
          rfl
        · rw [keyed, isCell]
    | none =>
        rw [known] at done
        simp only [insertRow] at done
        split at done
        · cases done
        · obtain ⟨rfl, rfl⟩ := Prod.mk.inj (Except.ok.inj done)
          have keyed : repository.inserted (calmed around) 0 stamped "id" =
              some ((repository.identity stamped).getD ((calmed around).generatedId 0)) := if_pos rfl
          refine ⟨Keyed.mem_save.mpr (.inl rfl), fun row other => ?_, by rw [keyed]; rfl, fun carried => ?_⟩
          · rw [Keyed.mem_save]
            constructor
            · rintro (rfl | ⟨there, -⟩)
              · exact absurd rfl other
              · exact there
            · exact fun there => .inr ⟨there, other⟩
          · obtain ⟨cell, isCell⟩ := Option.isSome_iff_exists.mp carried
            rw [keyed, isCell]
            rfl

/-- The id of a saved entity is stored as the key of its row. -/
theorem of_savedId {stamped : Record} {saved : Row Cell} {id : JsString} (keyed : (saved "id").isSome)
    (carried : (repository.identity stamped).isSome → saved "id" = repository.identity stamped)
    (answered : savedId texts stamped saved = .ok id) :
    repository.store "id" (.item (.string id)) = saved "id" := by
  unfold savedId at answered
  split at answered
  · obtain rfl := Except.ok.inj answered
    exact texts.store_of keyed
  · obtain rfl := Except.ok.inj answered
    exact texts.store_of keyed
  case h_3 text isText =>
      split at answered
      case isTrue known =>
          obtain rfl := Except.ok.inj answered
          have identity : repository.identity stamped = repository.store "id" (.item (.string text)) := by
            unfold Repository.identity
            rw [isText]
            rfl
          rw [identity] at carried
          exact (carried known).symm
      · cases answered
  · cases answered

theorem createLogged_done {entity : Record} {saved : Row Cell}
    (ran : (createLogged texts around faults none entity).run session = (.ok saved, session')) :
    Created repository around entity saved session session' := by
  unfold createLogged at ran
  obtain ⟨audited, isAudited, ran⟩ := SessionWork.of_lift_bind ran
  obtain ⟨stamped, isStamped, ran⟩ := SessionWork.of_lift_bind ran
  obtain ⟨begun, inner, ⟨same, same'⟩, ran, left, left'⟩ := SessionWork.of_withMutationRunner ran
  obtain ⟨row, saving, first, ran⟩ := SessionWork.of_bind ran
  obtain ⟨id, isId, ran⟩ := SessionWork.of_lift_bind ran
  obtain ⟨scopes, collecting, second, ran⟩ := SessionWork.of_bind ran
  obtain ⟨collected, silent, collectingTable, collectingEntries⟩ := of_resourceScopes second
  obtain ⟨_, told, third, ran⟩ := SessionWork.of_bind ran
  obtain ⟨toldTable, entries, carriedScope⟩ := of_logHistory rfl third
  obtain ⟨rfl, ended⟩ := SessionWork.of_return ran
  obtain ⟨saves, savingEntries⟩ := SessionWork.of_perform first
  obtain ⟨there, others, keyed, carried⟩ := of_save saves
  have isKey := of_savedId keyed carried isId
  have table : session'.table = saving.table := by rw [left, ended, toldTable, collectingTable]
  have named : id ≠ [] := texts.ne_nil (by rwa [isKey])
  rw [same] at saves others
  rw [← table] at saves others there
  refine ⟨⟨audited, stamped, isAudited, isStamped, saves⟩, there, others, id, isKey, ?_⟩
  rw [left', ended, entries, collectingEntries, savingEntries, same', kept]
  cases recorder : repository.historyRecorder with
  | false => simp
  | true =>
      have scope := get_eq_persistedScope recorder collected silent (table ▸ there) isKey
        (carriedScope recorder named)
      simp [named, scope]

/-! ## Imports -/

theorem toChunks_go_flatten {α : Type} (size : Nat) (xs : List α) (part : Array α)
    (parts : Array (List α)) :
    (List.toChunks.go size xs part parts).flatten = parts.toList.flatten ++ part.toList ++ xs := by
  induction xs generalizing part parts with
  | nil => simp [List.toChunks.go]
  | cons x xs ih =>
      unfold List.toChunks.go
      split
      · rw [ih]
        simp
      · rw [ih]
        simp

/-- Chunks hold what was divided, in its order. -/
theorem toChunks_flatten {α : Type} (size : Nat) (xs : List α) : (xs.toChunks size).flatten = xs := by
  unfold List.toChunks
  split
  · rfl
  · simp
  · rw [toChunks_go_flatten]
    simp

/-- Every entity has its row, in their order, and nothing else was written. -/
structure Imported (repository : Repository Cell) (around : Surroundings Cell) (entities : List Record)
    (saved : List (Row Cell)) (session session' : Session Cell) : Prop where
  stored : ∃ stamped, entities.mapM (fun entity =>
      (repository.onCreate entity).bind repository.fillTenancy) = .ok stamped ∧
    saved = stamped.mapIdx (repository.inserted around)
  rows : insertRows session.table saved = .ok session'.table
  untold : session'.entries = session.entries

theorem insertRows_append (table : Table Cell) (rows later : List (Row Cell)) :
    insertRows table (rows ++ later) = (insertRows table rows).bind fun table' => insertRows table' later :=
  List.foldlM_append

theorem of_insertStepwise {made : Nat} {chunks : List (List Record)} {saved : List (Row Cell)}
    (ran : (repository.insertStepwise around faults made chunks).run session = (.ok saved, session')) :
    saved = repository.chunkRows around made chunks.flatten ∧
      insertRows session.table saved = .ok session'.table ∧ session'.entries = session.entries := by
  induction chunks generalizing made saved session with
  | nil =>
      obtain ⟨rfl, rfl⟩ := SessionWork.of_return ran
      exact ⟨rfl, rfl, rfl⟩
  | cons chunk rest ih =>
      obtain ⟨_, between, first, ran⟩ := SessionWork.of_bind ran
      obtain ⟨later, after, second, ran⟩ := SessionWork.of_bind ran
      obtain ⟨rfl, rfl⟩ := SessionWork.of_return ran
      obtain ⟨rfl, inserted, entries⟩ := ih second
      obtain ⟨done, entries'⟩ := SessionWork.of_perform first
      have inserts : insertRows session.table (repository.chunkRows around made chunk) =
          .ok between.table := by
        rcases issue_cases (calmed around) .insert _ session.table with
          ⟨failure, thrown⟩ | ⟨_, table, effect, answered⟩
        · rw [insertChunk, thrown] at done
          cases (Prod.mk.inj done).1
        · rw [insertChunk, answered] at done
          obtain ⟨-, rfl⟩ := Prod.mk.inj done
          obtain ⟨table, inserts, same⟩ := of_map_ok effect
          rw [inserts, (Prod.mk.inj same).2]
      refine ⟨?_, ?_, entries.trans entries'⟩
      · unfold chunkRows
        rw [List.flatten_cons, List.mapIdx_append]
        refine congrArg _ (congrArg (fun make => rest.flatten.mapIdx make) ?_)
        funext index
        rw [Nat.add_assoc, Nat.add_comm chunk.length]
      · rw [insertRows_append, inserts]
        exact inserted

theorem importStepwise_done {entities : List Record} {saved : List (Row Cell)}
    (ran : (repository.importStepwise around faults none entities).run session = (.ok saved, session')) :
    Imported repository around entities saved session session' := by
  unfold importStepwise at ran
  split at ran
  case isTrue absent =>
      obtain ⟨rfl, rfl⟩ := SessionWork.of_return ran
      have absent : entities = [] := by simpa using absent
      rw [absent]
      exact ⟨⟨[], rfl, rfl⟩, rfl, rfl⟩
  case isFalse present =>
      obtain ⟨stamped, isStamped, ran⟩ := SessionWork.of_lift_bind ran
      obtain ⟨begun, inner, ⟨same, same'⟩, ran, left, left'⟩ := SessionWork.of_withMutationRunner ran
      obtain ⟨isSaved, inserted, entries⟩ := of_insertStepwise ran
      refine ⟨⟨stamped, isStamped, ?_⟩, by rw [left, ← same, inserted], by rw [left', entries, same']⟩
      rw [isSaved, toChunks_flatten]
      unfold chunkRows
      simp

/-! ## All or nothing -/

/-- The work fails and leaves rows and entries as they were, or it has done the whole of its effect. -/
structure AllOrNothing {α : Type} (work : SessionWork Cell α)
    (effect : α → Session Cell → Session Cell → Prop) : Prop where
  inside : SessionWork.Inside work
  nothing : SessionWork.Atomic work
  all : ∀ session answer session', work.run session = (.ok answer, session') →
    effect answer session session'

section Inside

open SessionWork

theorem inside_findLogged (chosen : Row Cell → Bool) :
    Inside (repository.findLogged around faults chosen) := by
  unfold findLogged
  split
  · exact inside_perform _
  · exact inside_return _

theorem inside_resourceScopes (chosen : Row Cell → Bool) :
    Inside (resourceScopes texts around faults chosen) := by
  unfold resourceScopes
  split
  · exact inside_return _
  · exact (inside_perform _).bind fun _ => inside_lift _

theorem inside_patchRow (criteria : Criteria) (patch : Record) :
    Inside (repository.patchRow around faults criteria patch) := by
  unfold patchRow
  split
  · exact inside_return _
  · exact (inside_perform _).bind fun _ => inside_lift _

theorem inside_logUpdate (id : JsString) (old : Option (Row Cell)) (scopes : Scopes Cell)
    (found : List (Row Cell)) : Inside (repository.logUpdate faults id old scopes found) := by
  cases found with
  | nil => exact inside_throw _
  | cons saved rest => exact (inside_logHistory rfl).bind fun _ => inside_return _

theorem inside_countLogged (olds : List (Row Cell)) (chosen : Row Cell → Bool) :
    Inside (repository.countLogged around faults olds chosen) := by
  unfold countLogged
  split
  · exact inside_return _
  · exact inside_perform _

theorem inside_logDeleted (scopes : Scopes Cell) (olds : List (Row Cell)) :
    Inside (logDeleted texts faults scopes olds) := by
  induction olds with
  | nil => exact inside_return _
  | cons old rest ih => exact (inside_logHistory rfl).bind fun _ => ih

theorem inside_insertStepwise (made : Nat) (chunks : List (List Record)) :
    Inside (repository.insertStepwise around faults made chunks) := by
  induction chunks generalizing made with
  | nil => exact inside_return _
  | cons chunk rest ih => exact (inside_perform _).bind fun _ => (ih _).bind fun _ => inside_return _

theorem createLogged_allOrNothing (entity : Record) :
    AllOrNothing (createLogged texts around faults none entity) (Created repository around entity) where
  inside :=
    (inside_lift _).bind fun _ => (inside_lift _).bind fun _ =>
      Inside.withMutationRunner ((inside_perform _).bind fun _ => (inside_lift _).bind fun _ =>
        (inside_resourceScopes _).bind fun _ => (inside_logHistory rfl).bind fun _ =>
          inside_return _) none
  nothing := atomic_lift_bind fun _ => atomic_lift_bind fun _ => atomic_withMutationRunner _
  all _ _ _ ran := createLogged_done ran

theorem importStepwise_allOrNothing (entities : List Record) :
    AllOrNothing (repository.importStepwise around faults none entities)
      (Imported repository around entities) where
  inside := by
    unfold importStepwise
    split
    · exact inside_return _
    · exact (inside_lift _).bind fun _ => (inside_insertStepwise _ _).withMutationRunner none
  nothing := by
    unfold importStepwise
    split
    · exact atomic_return _
    · exact atomic_lift_bind fun _ => atomic_withMutationRunner _
  all _ _ _ ran := importStepwise_done ran

section Plain

variable (plain : ∀ column ∈ repository.scopedColumns, column.propertyName ≠ "id")
include plain

theorem updateLogged_allOrNothing (entity : Record) :
    AllOrNothing (updateLogged texts around faults none entity) fun saved session session' =>
      ∃ id patch, updatedText entity = .ok id ∧ repository.onUpdate (entity.remove "id") = .ok patch ∧
        Updated repository around.now id patch saved session session' where
  inside :=
    (inside_lift _).bind fun _ => (inside_lift _).bind fun _ => (inside_lift _).bind fun _ =>
      Inside.withMutationRunner ((inside_lift _).bind fun _ => (inside_findLogged _).bind fun _ =>
        (inside_resourceScopes _).bind fun _ => (inside_patchRow _ _).bind fun _ =>
          (inside_perform _).bind fun _ => inside_logUpdate _ _ _ _) none
  nothing := atomic_lift_bind fun _ => atomic_lift_bind fun _ => atomic_lift_bind fun _ =>
    atomic_withMutationRunner _
  all _ _ _ ran := updateLogged_done plain ran

theorem deleteLogged_allOrNothing (ids : Ids) :
    AllOrNothing (deleteLogged texts around faults none ids) fun answer session session' =>
      answer = !(parseIds ids).isEmpty ∧ Deleted texts (parseIds ids) session session' where
  inside := by
    unfold deleteLogged
    split
    · exact inside_return _
    · refine Inside.withMutationRunner ((inside_lift _).bind fun _ => ?_) none
      refine (inside_findLogged _).bind fun _ => (inside_resourceScopes _).bind fun _ => ?_
      refine (inside_countLogged _ _).bind fun _ => (inside_lift _).bind fun _ => ?_
      exact (inside_perform _).bind fun _ => (inside_lift _).bind fun _ =>
        (inside_logDeleted _ _).bind fun _ => inside_return _
  nothing := by
    unfold deleteLogged
    split
    · exact atomic_return _
    · exact atomic_withMutationRunner _
  all _ _ _ ran := deleteLogged_done plain ran

theorem markStepwise_allOrNothing (statement : Statement) (time : Option Cell) (ids : Ids) :
    AllOrNothing (repository.markStepwise around faults none statement time ids)
      fun answer session session' =>
        answer = !(parseIds ids).isEmpty ∧
          Marked repository around.now time (parseIds ids) session session' where
  inside := by
    unfold markStepwise
    split
    · exact inside_return _
    · refine Inside.withMutationRunner ((inside_lift _).bind fun _ => ?_) none
      refine (inside_perform _).bind fun _ => (inside_lift _).bind fun _ => ?_
      exact (inside_perform _).bind fun _ => (inside_lift _).bind fun _ => inside_return _
  nothing := by
    unfold markStepwise
    split
    · exact atomic_return _
    · exact atomic_withMutationRunner _
  all _ _ _ ran := markStepwise_done plain ran

end Plain

end Inside

/-- Whatever the input, and whichever steps throw, a mutation does all of its work or none. -/
theorem mutations_atomic (texts : repository.IdTexts) (around : Surroundings Cell) (faults : Nat → Bool) :
    (∀ entity, AllOrNothing (createLogged texts around faults none entity)
      (Created repository around entity)) ∧
    (∀ entities, AllOrNothing (repository.importStepwise around faults none entities)
      (Imported repository around entities)) ∧
    ((∀ column ∈ repository.scopedColumns, column.propertyName ≠ "id") →
      (∀ entity, AllOrNothing (updateLogged texts around faults none entity)
        fun saved session session' => ∃ id patch, updatedText entity = .ok id ∧
          repository.onUpdate (entity.remove "id") = .ok patch ∧
          Updated repository around.now id patch saved session session') ∧
      (∀ ids, AllOrNothing (deleteLogged texts around faults none ids) fun answer session session' =>
        answer = !(parseIds ids).isEmpty ∧ Deleted texts (parseIds ids) session session') ∧
      (∀ ids, AllOrNothing (repository.softDeleteStepwise around faults none ids)
        fun answer session session' => answer = !(parseIds ids).isEmpty ∧
          Marked repository around.now (some around.now) (parseIds ids) session session') ∧
      ∀ ids, AllOrNothing (repository.restoreStepwise around faults none ids)
        fun answer session session' => answer = !(parseIds ids).isEmpty ∧
          Marked repository around.now none (parseIds ids) session session') :=
  ⟨createLogged_allOrNothing, importStepwise_allOrNothing, fun plain =>
    ⟨updateLogged_allOrNothing plain, deleteLogged_allOrNothing plain,
      markStepwise_allOrNothing plain .softDelete (some around.now),
      markStepwise_allOrNothing plain .restore none⟩⟩

/-! ### A product with its history -/

/-- Texts as cells; the empty one is not stored. -/
abbrev NamedText := { text : JsString // text ≠ [] }

instance : Inhabited NamedText := ⟨⟨[0x2d], by simp⟩⟩

def textStore (_ : String) : Value → Option NamedText
  | .item (.string text) => if present : text ≠ [] then some ⟨text, present⟩ else none
  | _ => none

/-- Products of a tenant, with history, for a request of the tenant `t1`. -/
def loggedProducts : Repository NamedText where
  columns := ["id", "name", "tenantCode"]
  updatable _ := true
  versionColumn := none
  updateDateColumn := none
  deleteDateColumn := some "deletedAt"
  scopedColumns := [⟨"tenantCode", true⟩]
  distinct := List.nodup_singleton _
  strategy := some ⟨none, false, .scope [("tenantCode", .item (.string (js "t1")))]⟩
  onCreate := .ok
  onUpdate := .ok
  historyRecorder := true
  store := textStore
  increment := id
  differs column value cell := textStore column value ≠ cell

def productTexts : loggedProducts.IdTexts where
  text := Subtype.val
  stored cell := dif_pos cell.2
  nonempty := rfl

def ownProduct : Row NamedText := fun column =>
  if column = "id" then textStore "id" (.item (.string (js "p"))) else
  if column = "tenantCode" then textStore "tenantCode" (.item (.string (js "t1"))) else none

def ownProducts : Session NamedText := ⟨⟨[ownProduct], by simp⟩, [], [], 0⟩

theorem loggedProducts_atomic :
    AllOrNothing (deleteLogged productTexts (calmly default) (fun step => step = 7) none (.text (js "p, p")))
        (fun answer session session' => answer = true ∧
          Deleted productTexts [js "p"] session session') ∧
      ((deleteLogged productTexts (calmly default) (fun _ => false) none (.text (js "p, p"))).run
        ownProducts).2.entries.length = 1 :=
  ⟨((mutations_atomic productTexts (calmly default) fun step => step = 7).2.2
    (by simp [loggedProducts])).2.1 (.text (js "p, p")), by rfl⟩

/-- An update that changes no column writes no row, and is recorded. -/
theorem emptyUpdate_recorded : ∃ saved session',
    (updateLogged productTexts (calmly default) (fun _ => false) none
      [("id", .item (.string (js "p")))]).run ownProducts = (.ok saved, session') ∧
    session'.table = ownProducts.table ∧ session'.entries.length = 1 :=
  ⟨_, _, rfl, rfl, rfl⟩

end Repository

end SdcoreNest.Orm
