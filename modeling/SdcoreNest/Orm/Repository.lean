/-
# Orm.Repository -- the mutations of `BaseRepository`

The six mutations on one table, statement by statement.  What TypeORM does with a statement is
what its query builders do: criteria select the rows that satisfy all of them; an `UPDATE` sets the
mapped and updatable columns that have a value, and next to them the version and the update date
unless they are set; `softDelete` and `restore` set the delete date and both of these; `save` updates
the row with the same primary key where it finds a change, and inserts where there is no such row; an
insert with a key that is taken fails.  Every statement, hook and recorder may throw; a transaction
that the repository owns is rolled back then, one that the caller supplied is left to the caller.
Ids are compared as they are stored.
-/
import SdcoreNest.Orm.Tenancy
import SdcoreNest.Theory.Keyed

namespace SdcoreNest.Orm

open Theory

set_option autoImplicit false

/-! ## Rows and criteria -/

/-- The columns of a row; `none` is NULL. -/
abbrev Row (Cell : Type) := String → Option Cell

/-- The rows of the entity, by their primary key. -/
abbrev Table (Cell : Type) := Keyed (Option Cell) (Row Cell) fun row => row "id"

inductive Criterion where
  | equal (value : Value)
  | isIn (values : List Item)
deriving DecidableEq

abbrev Criteria := List (String × Criterion)

/-- `{ ...base, ...extra }`; the order of conditions does not matter. -/
def spread (base extra : Criteria) : Criteria :=
  (base.filter fun condition => !(extra.map Prod.fst).contains condition.1) ++ extra

def buildScopeWhere (scope : Record) (columns : List ScopedColumnMetadata) : Except Failure Criteria :=
  (resolveScopePredicates scope columns).map fun predicates => predicates.map fun predicate =>
    (predicate.propertyName,
      match predicate.operator with
      | .isIn => .isIn predicate.values
      | .equal => .equal (.item (predicate.values.headD .undefined)))

/-! ## The repository -/

/-- What `getCurrentScope` returns. -/
inductive ScopeAnswer where
  | nullish
  | notAnObject
  | scope (record : Record)

structure Strategy where
  /-- A grant, and what `assertBypassGrant` makes of it. -/
  getBypassGrant : Option (Except Failure Unit)
  shouldBypass : Bool
  getCurrentScope : ScopeAnswer

structure Repository (Cell : Type) where
  columns : List String
  /-- Columns that an update may set. -/
  updatable : String → Bool
  /-- The columns that TypeORM maintains by itself, where the entity has them. -/
  versionColumn : Option String
  updateDateColumn : Option String
  deleteDateColumn : Option String
  scopedColumns : List ScopedColumnMetadata
  distinct : (scopedColumns.map ScopedColumnMetadata.propertyName).Nodup
  strategy : Option Strategy
  onCreate : Record → Except Failure Record
  onUpdate : Record → Except Failure Record
  /-- `logHistory` is set and a recorder registered. -/
  historyRecorder : Bool
  /-- How a value is written into a column, or compared with it. -/
  store : String → Value → Option Cell
  /-- `version + 1` -/
  increment : Cell → Cell
  /-- What `save` takes for a change: the value of an entity beside that of its row. -/
  differs : String → Value → Option Cell → Bool

inductive Statement where
  | begin
  | find
  | count
  | save
  | update
  | delete
  | softDelete
  | restore
  | insert
  | record
deriving DecidableEq

inductive Commit where
  | done
  | refused
  /-- It took effect, and the answer was lost. -/
  | lost
deriving DecidableEq

/-- What the database and the hooks answer in one run. -/
structure Surroundings (Cell : Type) where
  throws : Statement → Bool
  commit : Commit
  /-- `CURRENT_TIMESTAMP` -/
  now : Cell
  /-- Keys that the database makes for new rows. -/
  generatedId : Nat → Cell
  defaults : String → Option Cell

variable {Cell : Type}

/-! ## Work on the table -/

/-- Statements in a transaction: an answer or a failure, and the table they leave. -/
structure Work (Cell α : Type) where
  run : Table Cell → Except Failure α × Table Cell

namespace Work

variable {α β : Type}

def pure (a : α) : Work Cell α := ⟨fun table => (.ok a, table)⟩

def bind (work : Work Cell α) (next : α → Work Cell β) : Work Cell β where
  run table :=
    match work.run table with
    | (.ok a, table) => (next a).run table
    | (.error failure, table) => (.error failure, table)

instance : Monad (Work Cell) where
  pure := Work.pure
  bind := Work.bind

def throw (failure : Failure) : Work Cell α := ⟨fun table => (.error failure, table)⟩

def lift (answer : Except Failure α) : Work Cell α := ⟨fun table => (answer, table)⟩

end Work

/-- A statement answers and leaves a table, or it throws and leaves the table as it was. -/
def issue {α : Type} (around : Surroundings Cell) (statement : Statement)
    (effect : Table Cell → Except Failure (α × Table Cell)) : Work Cell α where
  run table :=
    if around.throws statement then (.error .thrown, table)
    else
      match effect table with
      | .ok (answer, table') => (.ok answer, table')
      | .error failure => (.error failure, table)

namespace Repository

variable [DecidableEq Cell]

def holds (repository : Repository Cell) (row : Row Cell) (column : String) : Criterion → Bool
  | .equal value => (row column).isSome && row column = repository.store column value
  | .isIn values => (row column).isSome &&
      values.any fun item => row column = repository.store column (.item item)

def selects (repository : Repository Cell) (criteria : Criteria) (row : Row Cell) : Bool :=
  criteria.all fun condition => repository.holds row condition.1 condition.2

/-- `currentScope`, with `shouldBypass`; `none` is a bypass or an entity without scope. -/
def currentScope (repository : Repository Cell) : Except Failure (Option Record) :=
  if repository.scopedColumns.isEmpty then .ok none
  else
    match repository.strategy with
    | none => .error .missingTenancyContext
    | some strategy =>
        match strategy.getBypassGrant with
        | some (.error failure) => .error failure
        | some (.ok ()) => .ok none
        | none =>
            if strategy.shouldBypass then .error .unauthorizedTenancyBypass
            else
              match strategy.getCurrentScope with
              | .nullish => .error (.missingTenancyScope
                  ((repository.scopedColumns.filter (·.required)).map (·.propertyName)))
              | .notAnObject => .error (.invalidTenancyScope "*"
                  "strategy must return an object keyed by scoped property name")
              | .scope record => .ok (some record)

def scopeWhere (repository : Repository Cell) : Except Failure Criteria := do
  match ← repository.currentScope with
  | none => return []
  | some scope => buildScopeWhere scope repository.scopedColumns

def fillTenancy (repository : Repository Cell) (entity : Record) : Except Failure Record := do
  match ← repository.currentScope with
  | none => return entity
  | some scope => applyScopeToEntity entity scope repository.scopedColumns

def identified (ids : List Item) : Criterion :=
  match ids with
  | [id] => .equal (.item id)
  | _ => .isIn ids

def mutationWhere (repository : Repository Cell) (ids : List Item) : Except Failure Criteria :=
  repository.scopeWhere.map fun scope => spread [("id", identified ids)] scope

def assertAffected (affected expected : Nat) : Except Failure Unit :=
  if affected = expected then .ok () else .error (.notFound "core.repository.not-found")

/-- Owns a transaction unless the caller supplied one, which must be active. -/
def withMutationRunner {α : Type} (around : Surroundings Cell) (provided : Option Bool)
    (work : Work Cell α) : Work Cell α :=
  match provided with
  | some true => work
  | some false => Work.throw .inactiveMutationTransaction
  | none =>
      { run := fun table =>
          if around.throws .begin then (.error .thrown, table)
          else
            match work.run table with
            | (.error failure, _) => (.error failure, table)
            | (.ok answer, table') =>
                match around.commit with
                | .done => (.ok answer, table')
                | .refused => (.error .thrown, table)
                | .lost => (.error .thrown, table') }

/-- The columns that an `UPDATE` sets to the values of a record. -/
def sets (repository : Repository Cell) (record : Record) (column : String) : Bool :=
  repository.columns.contains column && repository.updatable column &&
    record.get column ≠ .item .undefined

/-- A row after an `UPDATE` that sets some columns to the values of a record, its key apart. -/
def written (repository : Repository Cell) (now : Cell) (chosen : String → Bool) (record : Record)
    (row : Row Cell) : Row Cell := fun column =>
  if column = "id" then row column
  else if chosen column then repository.store column (record.get column)
  else if repository.versionColumn = some column then (row column).map repository.increment
  else if repository.updateDateColumn = some column then some now
  else row column

/-- The row after `update`. -/
def patched (repository : Repository Cell) (now : Cell) (record : Record) : Row Cell → Row Cell :=
  repository.written now (repository.sets record) record

/-- Properties that are not mapped are refused, and a statement that sets nothing; the maintained
columns are not set for a patch of columns that no update may set. -/
def refuses (repository : Repository Cell) (patch : Record) : Bool :=
  let given := (patch.map Prod.fst).filter fun property => patch.get property ≠ .item .undefined
  given.any (fun property => !repository.columns.contains property) ||
    !given.any (repository.sets patch) &&
      (!given.isEmpty || repository.versionColumn.isNone && repository.updateDateColumn.isNone)

/-- The columns in which `save` finds an entity changed. -/
def changes (repository : Repository Cell) (entity : Record) (row : Row Cell) (column : String) : Bool :=
  repository.sets entity column && repository.differs column (entity.get column) (row column)

/-- The row after `save` of an entity that carries its key; without a change there is no statement. -/
def resaved (repository : Repository Cell) (now : Cell) (entity : Record) (row : Row Cell) : Row Cell :=
  if repository.columns.any (repository.changes entity row) then
    repository.written now (repository.changes entity row) entity row
  else row

/-- The primary key that an entity carries. -/
def identity (repository : Repository Cell) (entity : Record) : Option Cell :=
  match entity.get "id" with
  | .item item => if item.isNullish then none else repository.store "id" (.item item)
  | .array _ => none

/-- A new row for an entity. -/
def inserted (repository : Repository Cell) (around : Surroundings Cell) (index : Nat) (entity : Record) :
    Row Cell := fun column =>
  if column = "id" then some ((repository.identity entity).getD (around.generatedId index))
  else if repository.columns.contains column ∧ entity.get column ≠ .item .undefined then
    repository.store column (entity.get column)
  else around.defaults column

/-- A row with another time of its deletion, of an entity that has a column for it. -/
def marked (repository : Repository Cell) (now : Cell) (time : Option Cell) (row : Row Cell) :
    Row Cell := fun column =>
  if column = "id" ∨ repository.deleteDateColumn.isNone then row column
  else if repository.deleteDateColumn = some column then time
  else repository.written now (fun _ => false) [] row column

section Key

omit [DecidableEq Cell]

variable (repository : Repository Cell) (now : Cell) (record : Record) (row : Row Cell)

theorem written_id (chosen : String → Bool) :
    repository.written now chosen record row "id" = row "id" := if_pos rfl

theorem patched_id : repository.patched now record row "id" = row "id" := written_id ..

theorem resaved_id : repository.resaved now record row "id" = row "id" := by
  unfold resaved
  split
  · exact written_id ..
  · rfl

theorem marked_id (time : Option Cell) : repository.marked now time row "id" = row "id" :=
  if_pos (.inl rfl)

end Key

/-! ## Statements -/

/-- `find`, also of deleted rows -/
def find (around : Surroundings Cell) (chosen : Row Cell → Bool) : Work Cell (List (Row Cell)) :=
  issue around .find fun table => .ok (table.select chosen, table)

def count (around : Surroundings Cell) (chosen : Row Cell → Bool) : Work Cell Nat :=
  issue around .count fun table => .ok (table.count chosen, table)

def insertRow (table : Table Cell) (row : Row Cell) : Except Failure (Table Cell) :=
  if (table.get? (row "id")).isSome then .error .thrown else .ok (table.save row)

/-- `repo.save(repo.create(entity))` -/
def save (repository : Repository Cell) (around : Surroundings Cell) (entity : Record) :
    Work Cell (Row Cell) :=
  issue around .save fun table =>
    match (repository.identity entity).bind fun id => table.get? (some id) with
    | some row => .ok (repository.resaved around.now entity row,
        table.update (fun other => other "id" = row "id") (repository.resaved around.now entity)
          (repository.resaved_id around.now entity))
    | none => (insertRow table (repository.inserted around 0 entity)).map fun table' =>
        (repository.inserted around 0 entity, table')

/-- The table after an update of the rows that some criteria select. -/
def updated (repository : Repository Cell) (now : Cell) (patch : Record) (criteria : Criteria)
    (table : Table Cell) : Table Cell :=
  table.update (repository.selects criteria) (repository.patched now patch)
    (repository.patched_id now patch)

/-- `repo.update(where, patch)` -/
def updateWhere (repository : Repository Cell) (around : Surroundings Cell) (criteria : Criteria)
    (patch : Record) : Work Cell Nat :=
  issue around .update fun table =>
    if repository.refuses patch then .error .thrown
    else .ok (table.count (repository.selects criteria),
      repository.updated around.now patch criteria table)

def deleteWhere (repository : Repository Cell) (around : Surroundings Cell) (criteria : Criteria) :
    Work Cell Nat :=
  issue around .delete fun table => .ok (table.count (repository.selects criteria),
    table.discard (repository.selects criteria))

/-- `repo.softDelete(where)` and `repo.restore(where)`, which need a column for the time. -/
def markWhere (repository : Repository Cell) (around : Surroundings Cell) (statement : Statement)
    (time : Option Cell) (criteria : Criteria) : Work Cell Nat :=
  issue around statement fun table =>
    if repository.deleteDateColumn.isNone then .error .thrown
    else .ok (table.count (repository.selects criteria),
      table.update (repository.selects criteria) (repository.marked around.now time)
        (fun row => repository.marked_id around.now row time))

/-! ## History -/

/-- The rows whose scope columns a history entry may carry. -/
def historyResourceScopes (repository : Repository Cell) (around : Surroundings Cell)
    (chosen : Row Cell → Bool) : Work Cell (List (Row Cell)) :=
  if repository.scopedColumns.isEmpty || !repository.historyRecorder then return [] else find around chosen

/-- The rows that a history entry shows as they were. -/
def findOlds (repository : Repository Cell) (around : Surroundings Cell) (chosen : Row Cell → Bool) :
    Work Cell (List (Row Cell)) :=
  if repository.historyRecorder then find around chosen else return []

/-- The rows of the map of scopes have a key; `tableId` says whether there is an id at all. -/
def recordHistory (repository : Repository Cell) (around : Surroundings Cell) (scopes : List (Row Cell))
    (tableId : Bool) (id : Option Cell) : Work Cell Unit :=
  if !repository.historyRecorder || !tableId then return ()
  else if !repository.scopedColumns.isEmpty &&
      !scopes.any fun row => (row "id").isSome && row "id" = id then
    Work.throw .missingHistoryResourceScope
  else issue around .record fun table => .ok ((), table)

/-! ## Mutations -/

def create (repository : Repository Cell) (around : Surroundings Cell) (provided : Option Bool)
    (entity : Record) : Work Cell (Row Cell) := do
  let audited ← Work.lift (repository.onCreate entity)
  let stamped ← Work.lift (repository.fillTenancy audited)
  withMutationRunner around provided do
    let saved ← repository.save around stamped
    let scopes ← repository.historyResourceScopes around fun row => row "id" = saved "id"
    repository.recordHistory around scopes (saved "id").isSome (saved "id")
    return saved

/-- The id of an update; a list of ids is no id. -/
def updatedId (entity : Record) : Except Failure Item :=
  match entity.get "id" with
  | .item item =>
      if item.isTruthy then .ok item else .error (.badRequest "core.repository.invalid-uuid")
  | .array _ => .error .thrown

/-- Neither the caller nor a hook moves a row to another scope. -/
def assertUnscoped (repository : Repository Cell) (patch : Record) : Except Failure Unit :=
  match repository.scopedColumns.find? fun column => patch.has column.propertyName with
  | some column => .error (.tenancyScopeMutation column.propertyName)
  | none => .ok ()

def applyPatch (repository : Repository Cell) (around : Surroundings Cell) (criteria : Criteria)
    (patch : Record) : Work Cell Unit :=
  if patch.isEmpty then return ()
  else do
    let affected ← repository.updateWhere around criteria patch
    Work.lift (assertAffected affected 1)

/-- The row that an update answers; its entry is looked up by the id of the caller. -/
def readSaved (repository : Repository Cell) (around : Surroundings Cell) (scopes : List (Row Cell))
    (id : Item) : List (Row Cell) → Work Cell (Row Cell)
  | [] => Work.throw (.notFound "core.repository.not-found")
  | saved :: _ => do
      repository.recordHistory around scopes true (repository.store "id" (.item id))
      return saved

def update (repository : Repository Cell) (around : Surroundings Cell) (provided : Option Bool)
    (entity : Record) : Work Cell (Row Cell) := do
  let id ← Work.lift (updatedId entity)
  let patch ← Work.lift (repository.onUpdate (entity.remove "id"))
  Work.lift (repository.assertUnscoped patch)
  withMutationRunner around provided do
    let criteria ← Work.lift (repository.mutationWhere [id])
    let _ ← repository.findOlds around (repository.selects criteria)
    let scopes ← repository.historyResourceScopes around (repository.selects criteria)
    repository.applyPatch around criteria patch
    let found ← find around (repository.selects criteria)
    repository.readSaved around scopes id found

/-- `id: string | string[]` -/
inductive Ids where
  | text (ids : JsString)
  | list (ids : List JsString)

def parseIds : Ids → List JsString
  | .list ids => (ids.filter fun id => !id.isEmpty).eraseDups
  | .text ids =>
      (((JsString.splitOn 0x2c ids).map JsString.trim).filter fun id => !id.isEmpty).eraseDups

def recordAll (repository : Repository Cell) (around : Surroundings Cell) (scopes : List (Row Cell)) :
    List (Row Cell) → Work Cell Unit
  | [] => return ()
  | old :: rest => do
      repository.recordHistory around scopes (old "id").isSome (old "id")
      repository.recordAll around scopes rest

def countMatched (repository : Repository Cell) (around : Surroundings Cell) (olds : List (Row Cell))
    (chosen : Row Cell → Bool) : Work Cell Nat :=
  if repository.historyRecorder then return olds.length else count around chosen

def delete (repository : Repository Cell) (around : Surroundings Cell) (provided : Option Bool)
    (ids : Ids) : Work Cell Bool :=
  if (parseIds ids).isEmpty then return false
  else
    withMutationRunner around provided do
      let criteria ← Work.lift (repository.mutationWhere ((parseIds ids).map .string))
      let olds ← repository.findOlds around (repository.selects criteria)
      let scopes ← repository.historyResourceScopes around (repository.selects criteria)
      let matched ← repository.countMatched around olds (repository.selects criteria)
      Work.lift (assertAffected matched (parseIds ids).length)
      let affected ← repository.deleteWhere around criteria
      Work.lift (assertAffected affected (parseIds ids).length)
      repository.recordAll around scopes olds
      return true

/-- `softDelete` and `restore` differ in what they set. -/
def mark (repository : Repository Cell) (around : Surroundings Cell) (provided : Option Bool)
    (statement : Statement) (time : Option Cell) (ids : Ids) : Work Cell Bool :=
  if (parseIds ids).isEmpty then return false
  else
    withMutationRunner around provided do
      let criteria ← Work.lift (repository.mutationWhere ((parseIds ids).map .string))
      let matched ← count around (repository.selects criteria)
      Work.lift (assertAffected matched (parseIds ids).length)
      let affected ← repository.markWhere around statement time criteria
      Work.lift (assertAffected affected (parseIds ids).length)
      return true

def softDelete (repository : Repository Cell) (around : Surroundings Cell) (provided : Option Bool)
    (ids : Ids) : Work Cell Bool :=
  repository.mark around provided .softDelete (some around.now) ids

def restore (repository : Repository Cell) (around : Surroundings Cell) (provided : Option Bool)
    (ids : Ids) : Work Cell Bool :=
  repository.mark around provided .restore none ids

/-- The rows of one `INSERT`. -/
def insertRows (table : Table Cell) (rows : List (Row Cell)) : Except Failure (Table Cell) :=
  rows.foldlM insertRow table

/-- The `INSERT` of a chunk. -/
def insertChunk (around : Surroundings Cell) (rows : List (Row Cell)) : Work Cell Unit :=
  issue around .insert fun table => (insertRows table rows).map fun table' => ((), table')

/-- The rows of a chunk, after as many others. -/
def chunkRows (repository : Repository Cell) (around : Surroundings Cell) (made : Nat)
    (chunk : List Record) : List (Row Cell) :=
  chunk.mapIdx fun index => repository.inserted around (made + index)

/-- Chunks of 1000 entities, one statement each. -/
def insertChunks (repository : Repository Cell) (around : Surroundings Cell) (made : Nat) :
    List (List Record) → Work Cell (List (Row Cell))
  | [] => return []
  | chunk :: rest => do
      insertChunk around (repository.chunkRows around made chunk)
      let later ← repository.insertChunks around (made + chunk.length) rest
      return repository.chunkRows around made chunk ++ later

def chunkSize : Nat := 1000

/-- `import` -/
def importAll (repository : Repository Cell) (around : Surroundings Cell) (provided : Option Bool)
    (entities : List Record) : Work Cell (List (Row Cell)) :=
  if entities.isEmpty then return []
  else do
    let stamped ← Work.lift (entities.mapM fun entity =>
      (repository.onCreate entity).bind repository.fillTenancy)
    withMutationRunner around provided
      (repository.insertChunks around 0 (stamped.toChunks chunkSize))

end Repository

end SdcoreNest.Orm
