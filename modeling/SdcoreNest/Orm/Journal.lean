/-
# Orm.Journal -- mutations together with their history

The mutations of `BaseRepository` with what the history recorder receives, and with every step of a
run able to throw on its own: connecting, beginning, each statement, each call of the recorder and the
commit.  A statement does what it does in `Orm.Repository`.  The recorder writes with the runner that it
is given, so a rollback takes those entries back with the rows; without one it writes on a connection of
its own, and a rollback keeps the entry.  A commit that throws has not been applied.
-/
import SdcoreNest.Orm.WriteIsolation

namespace SdcoreNest.Orm

open Theory

set_option autoImplicit false

/-! ## Sessions -/

inductive HistoryActionType where
  | create
  | update
  | delete
deriving DecidableEq

structure HistoryEntry (Cell : Type) where
  type : HistoryActionType
  tableId : JsString
  fromData : Option (Row Cell)
  toData : Option (Row Cell)
  resourceScope : Option (List (String × Option Cell))
  /-- The runner of the mutation is handed over. -/
  queryRunner : Bool

structure Session (Cell : Type) where
  table : Table Cell
  /-- What the recorder has written with the runner, oldest first. -/
  entries : List (HistoryEntry Cell)
  /-- What it has written on another connection. -/
  outside : List (HistoryEntry Cell)
  /-- The steps taken so far. -/
  steps : Nat

variable {Cell : Type}

/-- Rows and entries are as they were. -/
def Session.Same (session session' : Session Cell) : Prop :=
  session'.table = session.table ∧ session'.entries = session.entries

/-- Work on a session. -/
structure SessionWork (Cell α : Type) where
  run : Session Cell → Except Failure α × Session Cell

namespace SessionWork

variable {α β : Type}

def pure (a : α) : SessionWork Cell α := ⟨fun session => (.ok a, session)⟩

def bind (task : SessionWork Cell α) (next : α → SessionWork Cell β) : SessionWork Cell β where
  run session :=
    match task.run session with
    | (.ok a, session) => (next a).run session
    | (.error failure, session) => (.error failure, session)

instance : Monad (SessionWork Cell) where
  pure := SessionWork.pure
  bind := SessionWork.bind

def throw (failure : Failure) : SessionWork Cell α := ⟨fun session => (.error failure, session)⟩

def lift (answer : Except Failure α) : SessionWork Cell α := ⟨fun session => (answer, session)⟩

end SessionWork

/-! ## Steps -/

section Steps

variable {α : Type} (faults : Nat → Bool)

/-- A statement is one step; one that fails changes nothing. -/
def perform (work : Work Cell α) : SessionWork Cell α where
  run session :=
    if faults session.steps then (.error .thrown, { session with steps := session.steps + 1 })
    else
      match work.run session.table with
      | (.ok a, table) => (.ok a, { session with table, steps := session.steps + 1 })
      | (.error failure, _) => (.error failure, { session with steps := session.steps + 1 })

/-- `recorder.record`. -/
def receive (entry : HistoryEntry Cell) : SessionWork Cell Unit where
  run session :=
    if faults session.steps then (.error .thrown, { session with steps := session.steps + 1 })
    else if entry.queryRunner then
      (.ok (), { session with entries := session.entries ++ [entry], steps := session.steps + 1 })
    else (.ok (), { session with outside := session.outside ++ [entry], steps := session.steps + 1 })

/-- Owns a transaction unless the caller supplied one, which must be active. -/
def SessionWork.withMutationRunner (provided : Option Bool) (work : SessionWork Cell α) :
    SessionWork Cell α :=
  match provided with
  | some true => work
  | some false => SessionWork.throw .inactiveMutationTransaction
  | none =>
      { run := fun session =>
          -- connect and begin
          if faults session.steps || faults (session.steps + 1) then
            (.error .thrown, { session with steps := session.steps + 2 })
          else
            match work.run { session with steps := session.steps + 2 } with
            | (.error failure, inner) =>
                (.error failure, { session with outside := inner.outside, steps := inner.steps })
            | (.ok answer, inner) =>
                if faults inner.steps then
                  (.error .thrown, { session with outside := inner.outside, steps := inner.steps + 1 })
                else (.ok answer, { inner with steps := inner.steps + 1 }) }

end Steps

namespace Repository

variable [DecidableEq Cell] (repository : Repository Cell)

/-! ## Ids and scopes -/

/-- The texts of primary keys: each key has one that is stored as it, and the empty text is none. -/
structure IdTexts where
  text : Cell → JsString
  stored : ∀ cell, repository.store "id" (.item (.string (text cell))) = some cell
  nonempty : repository.store "id" (.item (.string [])) = none

variable {repository}

/-- The text of the id of a row; a row without one has the empty text. -/
def IdTexts.of (texts : repository.IdTexts) (row : Row Cell) : JsString :=
  ((row "id").map texts.text).getD []

variable (repository)

/-- The scoped columns of a row. -/
def scopeOf (row : Row Cell) : List (String × Option Cell) :=
  repository.scopedColumns.map fun column => (column.propertyName, row column.propertyName)

/-- The scope that an entry about a row carries, if the entity has one. -/
def persistedScope (row : Row Cell) : Option (List (String × Option Cell)) :=
  if repository.scopedColumns.isEmpty then none else some (repository.scopeOf row)

abbrev Scopes (Cell : Type) := List (JsString × List (String × Option Cell))

variable {repository}

/-- One turn of the loop of `historyResourceScopes`; a column that is not mapped has no value. -/
def resourceScope (texts : repository.IdTexts) (row : Row Cell) :
    Except Failure (JsString × List (String × Option Cell)) :=
  if (texts.of row).isEmpty || repository.scopedColumns.any (fun column =>
      !repository.columns.contains column.propertyName) then
    .error .missingHistoryResourceScope
  else .ok (texts.of row, repository.scopeOf row)

/-- `Map.get`; a later row replaces an earlier one. -/
def Scopes.get (scopes : Scopes Cell) (id : JsString) : Option (List (String × Option Cell)) :=
  scopes.reverse.lookup id

section Scripts

variable (texts : repository.IdTexts) (around : Surroundings Cell) (faults : Nat → Bool)

/-- The values of the surroundings, with faults of their own left out. -/
def calmed (around : Surroundings Cell) : Surroundings Cell :=
  { around with throws := fun _ => false, commit := .done }

def findRows (chosen : Row Cell → Bool) : SessionWork Cell (List (Row Cell)) :=
  perform faults (find (calmed around) chosen)

def resourceScopes (chosen : Row Cell → Bool) : SessionWork Cell (Scopes Cell) :=
  if !repository.historyRecorder || repository.scopedColumns.isEmpty then return []
  else do
    let rows ← findRows around faults chosen
    SessionWork.lift (rows.mapM (resourceScope texts))

variable (repository)

def findLogged (chosen : Row Cell → Bool) : SessionWork Cell (List (Row Cell)) :=
  if repository.historyRecorder then findRows around faults chosen else return []

def logHistory (entry : HistoryEntry Cell) : SessionWork Cell Unit :=
  if !repository.historyRecorder || entry.tableId.isEmpty then return ()
  else if !repository.scopedColumns.isEmpty && entry.resourceScope.isNone then
    SessionWork.throw .missingHistoryResourceScope
  else receive faults entry

/-! ## Mutations -/

variable {repository}

/-- The id that a saved entity carries: that of the caller, as it was given, or the new one. -/
def savedId (stamped : Record) (saved : Row Cell) : Except Failure JsString :=
  match stamped.get "id" with
  | .item .undefined | .item .null => .ok (texts.of saved)
  | .item (.string text) =>
      if (repository.store "id" (.item (.string text))).isSome then .ok text else .error .thrown
  | _ => .error .thrown

def createLogged (provided : Option Bool) (entity : Record) : SessionWork Cell (Row Cell) := do
  let audited ← SessionWork.lift (repository.onCreate entity)
  let stamped ← SessionWork.lift (repository.fillTenancy audited)
  SessionWork.withMutationRunner faults provided do
    let saved ← perform faults (repository.save (calmed around) stamped)
    let id ← SessionWork.lift (savedId texts stamped saved)
    let scopes ← resourceScopes texts around faults fun row =>
      row "id" = repository.store "id" (.item (.string id))
    repository.logHistory faults ⟨.create, id, none, some saved, Scopes.get scopes id, true⟩
    return saved

/-- The id of an update, a text. -/
def updatedText (entity : Record) : Except Failure JsString :=
  match entity.get "id" with
  | .item (.string text) =>
      if text.isEmpty then .error (.badRequest "core.repository.invalid-uuid") else .ok text
  | .item item =>
      if item.isTruthy then .error .thrown else .error (.badRequest "core.repository.invalid-uuid")
  | .array _ => .error .thrown

theorem of_updatedText {entity : Record} {id : JsString} (known : updatedText entity = .ok id) :
    entity.get "id" = .item (.string id) ∧ id ≠ [] := by
  unfold updatedText at known
  cases carried : entity.get "id" with
  | array items =>
      rw [carried] at known
      cases known
  | item item =>
      rw [carried] at known
      cases item with
      | string text =>
          simp only [] at known
          split at known
          · cases known
          next present =>
            obtain rfl := Except.ok.inj known
            exact ⟨rfl, by simpa using present⟩
      | _ =>
          simp only [] at known
          split at known <;> cases known

variable (repository) in
def patchRow (criteria : Criteria) (patch : Record) : SessionWork Cell Unit :=
  if patch.isEmpty then return ()
  else do
    let affected ← perform faults (repository.updateWhere (calmed around) criteria patch)
    SessionWork.lift (assertAffected affected 1)

variable (repository) in
/-- The row that an update answers, and its entry. -/
def logUpdate (id : JsString) (old : Option (Row Cell)) (scopes : Scopes Cell) :
    List (Row Cell) → SessionWork Cell (Row Cell)
  | [] => SessionWork.throw (.notFound "core.repository.not-found")
  | saved :: _ => do
      repository.logHistory faults ⟨.update, id, old, some saved, Scopes.get scopes id, true⟩
      return saved

def updateLogged (provided : Option Bool) (entity : Record) : SessionWork Cell (Row Cell) := do
  let id ← SessionWork.lift (updatedText entity)
  let patch ← SessionWork.lift (repository.onUpdate (entity.remove "id"))
  SessionWork.lift (repository.assertUnscoped patch)
  SessionWork.withMutationRunner faults provided do
    let criteria ← SessionWork.lift (repository.mutationWhere [.string id])
    let olds ← repository.findLogged around faults (repository.selects criteria)
    let scopes ← resourceScopes texts around faults (repository.selects criteria)
    repository.patchRow around faults criteria patch
    let found ← findRows around faults (repository.selects criteria)
    repository.logUpdate faults id olds.head? scopes found

/-- One entry for each row that was deleted. -/
def logDeleted (scopes : Scopes Cell) : List (Row Cell) → SessionWork Cell Unit
  | [] => return ()
  | old :: rest => do
      repository.logHistory faults
        ⟨.delete, texts.of old, some old, none, Scopes.get scopes (texts.of old), true⟩
      logDeleted scopes rest

variable (repository) in
def countLogged (olds : List (Row Cell)) (chosen : Row Cell → Bool) : SessionWork Cell Nat :=
  if repository.historyRecorder then return olds.length
  else perform faults (count (calmed around) chosen)

def deleteLogged (provided : Option Bool) (ids : Ids) : SessionWork Cell Bool :=
  if (parseIds ids).isEmpty then return false
  else
    SessionWork.withMutationRunner faults provided do
      let criteria ← SessionWork.lift (repository.mutationWhere ((parseIds ids).map .string))
      let olds ← repository.findLogged around faults (repository.selects criteria)
      let scopes ← resourceScopes texts around faults (repository.selects criteria)
      let matched ← repository.countLogged around faults olds (repository.selects criteria)
      SessionWork.lift (assertAffected matched (parseIds ids).length)
      let affected ← perform faults (repository.deleteWhere (calmed around) criteria)
      SessionWork.lift (assertAffected affected (parseIds ids).length)
      logDeleted texts faults scopes olds
      return true

variable (repository)

/-- `softDelete` and `restore`, which keep no history. -/
def markStepwise (provided : Option Bool) (statement : Statement) (time : Option Cell) (ids : Ids) :
    SessionWork Cell Bool :=
  if (parseIds ids).isEmpty then return false
  else
    SessionWork.withMutationRunner faults provided do
      let criteria ← SessionWork.lift (repository.mutationWhere ((parseIds ids).map .string))
      let matched ← perform faults (count (calmed around) (repository.selects criteria))
      SessionWork.lift (assertAffected matched (parseIds ids).length)
      let affected ← perform faults (repository.markWhere (calmed around) statement time criteria)
      SessionWork.lift (assertAffected affected (parseIds ids).length)
      return true

def softDeleteStepwise (provided : Option Bool) (ids : Ids) : SessionWork Cell Bool :=
  repository.markStepwise around faults provided .softDelete (some around.now) ids

def restoreStepwise (provided : Option Bool) (ids : Ids) : SessionWork Cell Bool :=
  repository.markStepwise around faults provided .restore none ids

def insertStepwise (made : Nat) : List (List Record) → SessionWork Cell (List (Row Cell))
  | [] => return []
  | chunk :: rest => do
      perform faults (insertChunk (calmed around) (repository.chunkRows around made chunk))
      let later ← insertStepwise (made + chunk.length) rest
      return repository.chunkRows around made chunk ++ later

def importStepwise (provided : Option Bool) (entities : List Record) : SessionWork Cell (List (Row Cell)) :=
  if entities.isEmpty then return []
  else do
    let stamped ← SessionWork.lift (entities.mapM fun entity =>
      (repository.onCreate entity).bind repository.fillTenancy)
    SessionWork.withMutationRunner faults provided
      (repository.insertStepwise around faults 0 (stamped.toChunks chunkSize))

end Scripts

end Repository

end SdcoreNest.Orm
