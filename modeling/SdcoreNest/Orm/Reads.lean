/-
# Orm.Reads -- what a read returns

The six reads of `base-repository.ts`: the query of each, the rows that it selects from the tables
and the entities that TypeORM makes of them.  How the database reads a column reference, which
rows a relation connects, and in which order rows come, is not part of the repository (`Engine`).
-/
import SdcoreNest.Orm.Query
import SdcoreNest.Orm.TextSearch
import SdcoreNest.Theory.LeftJoin

namespace SdcoreNest.Orm

open Theory

set_option autoImplicit false

/-! ## Tables -/

/-- The values of a row, by the names of its columns. -/
abbrev Stored (Cell : Type) := Text → Option Cell

abbrev Tables (Entity Cell : Type) := Entity → List (Stored Cell)

abbrev JoinedRow (Entity Cell : Type) := Joined (Join Entity) (Stored Cell)

/-- The row under an alias of the query. -/
def rowAt {Entity Cell : Type} (joined : JoinedRow Entity Cell) (table : Text) : Option (Stored Cell) :=
  match joined.rows.find? fun bound => decide (bound.1.table = table) with
  | some bound => bound.2
  | none => if table = ['e'] then some joined.root else none

/-- What the database and TypeORM make of a query. -/
structure Engine (Entity Cell : Type) where
  /-- The value of a column reference. -/
  resolve : JoinedRow Entity Cell → Sql → Option Cell
  /-- The relation of a join connects two rows. -/
  related : Join Entity → Stored Cell → Stored Cell → Bool
  /-- The date of the soft delete is set. -/
  isDeleted : Entity → Stored Cell → Bool
  /-- Two rows of the target have the same primary key. -/
  sameKey : Stored Cell → Stored Cell → Bool
  order : List (SortColumn × Text) → List (JoinedRow Entity Cell) → List (JoinedRow Entity Cell)

/-- An entity, with the rows that were found for its relations. -/
structure Hydrated (Entity Cell : Type) where
  root : Stored Cell
  relations : List (Join Entity × Stored Cell)

structure Answer (Entity Cell : Type) where
  items : List (Hydrated Entity Cell)
  total : Nat

section Execution

variable {Entity Cell : Type} (db : Database Cell) (engine : Engine Entity Cell)
  (tables : Tables Entity Cell)

/-- The condition of a join; deleted rows are left out unless they are wanted. -/
def joinAccepts (withDeleted : Bool) (joined : JoinedRow Entity Cell) (join : Join Entity)
    (row : Stored Cell) : Bool :=
  (rowAt joined join.parent).any (fun parent => engine.related join parent row) &&
    (withDeleted || !engine.isDeleted join.entity row) &&
    decide (evalCondition db (engine.resolve (joined.bind join (some row))) (.brackets join.condition) =
      some true)

/-- The WHERE clause. -/
def queryAccepts (target : Entity) (query : Query Entity (Sql → Option Cell))
    (joined : JoinedRow Entity Cell) : Bool :=
  (query.withDeleted || !engine.isDeleted target joined.root) &&
    decide (query.selects (engine.resolve joined) = some true)

/-- The rows of a query; a database refuses a query that gives an alias twice. -/
def Query.rows (target : Entity) (query : Query Entity (Sql → Option Cell)) :
    Except Failure (List (JoinedRow Entity Cell)) :=
  if (['e'] :: query.joins.map Join.table).Nodup then
    .ok (selected (fun join => tables join.entity) (joinAccepts db engine query.withDeleted) (tables target)
      query.joins (queryAccepts engine target query))
  else .error .thrown

/-- The first row of each primary key. -/
def distinctRoots : List (Stored Cell) → List (Stored Cell)
  | [] => []
  | row :: rest => row :: (distinctRoots rest).filter fun other => !engine.sameKey row other

/-- One entity for each primary key. -/
def hydrate (rows : List (JoinedRow Entity Cell)) : List (Hydrated Entity Cell) :=
  (distinctRoots engine (rows.map Joined.root)).map fun root =>
    ⟨root, (rows.filter fun joined => engine.sameKey root joined.root).flatMap Joined.found⟩

/-- `getManyAndCount`: rows are skipped and taken by entity. -/
def Query.answer (target : Entity) (query : Query Entity (Sql → Option Cell)) :
    Except Failure (Answer Entity Cell) :=
  (query.rows db engine tables target).map fun rows =>
    let entities := hydrate engine (engine.order query.orders rows)
    { items :=
        match query.limits with
        | some (skip, take) => (entities.drop skip).take take
        | none => entities
      total := entities.length }

end Execution

/-! ## The reads -/

inductive Read (Cell : Type) where
  | paging (req : RawPagingReq) (args : BaseRepositoryArgs (Sql → Option Cell))
  | pagingDeleted (req : RawPagingReq) (args : BaseRepositoryArgs (Sql → Option Cell))
  | all (filters : List Filter) (args : BaseRepositoryArgs (Sql → Option Cell))
  | findByIds (ids : List JsString) (args : BaseRepositoryArgs (Sql → Option Cell))
  | detail (id : JsString) (args : BaseRepositoryArgs (Sql → Option Cell))
  | search (keyword : JsString) (filters : List Filter)

section Reads

variable {Cell Entity : Type} (db : Database Cell) (host : Host) (schema : Schema Entity)
  (scoping : Scoping Entity) (draws : Nat → Text) (isUuid : JsString → Bool)
  (searchable : Option SearchableConfig) (target : Entity)

/-- The query of `search`; `none` where it answers an empty list. -/
def searchQuery (keyword : JsString) (filters : List Filter) :
    Except Failure (Option (Query Entity (Sql → Option Cell))) := do
  let wheres ← searchWheres host schema (schema target) draws isUuid (addonFilter host scoping target)
    searchable keyword filters
  return wheres.map fun wheres =>
    { withDeleted := false
      joins := []
      wheres := wheres.map fun condition => (condition.1, fun row => evalCondition db row condition.2)
      orders := []
      limits := some (0,
        if !(JsString.trim keyword).isEmpty && isUuid (JsString.trim keyword) then 1 else 20) }

/-- The query of a read; `none` where it answers an empty list. -/
def Read.query : Read Cell → Except Failure (Option (Query Entity (Sql → Option Cell)))
  | .paging req args => (pagingQuery db host schema scoping draws target req args).map some
  | .pagingDeleted req args =>
      (pagingQuery db host schema scoping draws target req { args with withDeleted := true }).map some
  | .all filters args => (allQuery db host schema scoping draws target filters args).map some
  | .findByIds ids args =>
      let uniqueIds := (ids.filter fun id => !id.isEmpty).eraseDups
      if uniqueIds.isEmpty then .ok none
      else
        (allQuery db host schema scoping draws target
          [.leaf ⟨some "id".toList, .isIn, some (.array (uniqueIds.map .string)), none, none⟩] args).map some
  | .detail id args =>
      if isUuid id then (detailQuery db host schema scoping draws target id args).map some
      else .error (.badRequest "core.repository.invalid-uuid")
  | .search keyword filters =>
      searchQuery db host schema scoping draws isUuid searchable target keyword filters

/-- What a read returns; `all`, `search`, `detail` and `findByIds` return the items only. -/
def Read.run (engine : Engine Entity Cell) (tables : Tables Entity Cell) (read : Read Cell) :
    Except Failure (Answer Entity Cell) := do
  match ← read.query db host schema scoping draws isUuid searchable target with
  | none => return ⟨[], 0⟩
  | some query => query.answer db engine tables target

end Reads

end SdcoreNest.Orm
