/-
# Orm.Query -- the query of a read

`createBaseQueryBuilder` of `base-repository.ts`: the relations that are joined, with the scope of
the joined entity in the join condition, the fragments of the caller, the filters and the sorts.
A fragment is opaque: what is known of a condition given as text is how its parts are joined at the
top, and what each part comes to in a row.
-/
import SdcoreNest.Orm.FilterMeaning

namespace SdcoreNest.Orm

open Theory

set_option autoImplicit false

/-! ## Relations -/

/-- The paths that a relation of the arguments adds to the set. -/
def parentPaths (relation : Text) : List Text :=
  ((partsOf relation).scanl (fun path part => if path.isEmpty then part else path ++ '.' :: part) []).tail

/-- The set of joined paths, in the order of the joins. -/
def relationPaths (relations : List Text) : List Text :=
  Text.sort (relations.flatMap parentPaths).dedup

/-- `relation.replace(/\./g, '_')`. -/
def aliasOf (relation : Text) : Text := relation.map fun c => if c = '.' then '_' else c

/-- What the repository knows of the scopes of its entities. -/
structure Scoping (Entity : Type) where
  scopedColumns : Entity → List ScopedColumnMetadata
  /-- `currentScope` for a read. -/
  currentScope : Entity → Except Failure (Option Record)

/-- A table joined under an alias, through a property of the table under another alias. -/
structure Join (Entity : Type) where
  path : Text
  table : Text
  parent : Text
  property : Text
  entity : Entity
  /-- What the join demands beside the relation. -/
  condition : Wheres

section Relations

variable {Entity : Type} (schema : Schema Entity) (scoping : Scoping Entity)

/-- `driver.escape`: double quotes around the name. -/
def escaped (name : Text) : Sql := [.identifier name]

/-- The test of one predicate of a join; the name of its parameter carries the index. -/
def relationPredicate (metadata : EntityMetadata Entity) (table stem : Text)
    (predicate : ResolvedScopePredicate) (index : Nat) : Except Failure Condition :=
  match metadata.findColumnWithPropertyName predicate.propertyName.toList with
  | none => .error (.badRequest "core.repository.column-not-found")
  | some column =>
      let columnSql := escaped table ++ code "." ++ escaped column.databaseName
      let parameter := stem ++ '_' :: Text.decimal index
      match predicate.operator with
      | .isIn =>
          if predicate.values.isEmpty then .ok .never
          else .ok (.isIn false columnSql ⟨parameter, .array predicate.values⟩)
      | .equal =>
          .ok (.compare .equal columnSql
            (.parameter ⟨parameter, .item (predicate.values.headD .undefined)⟩))

/-- The loop of `relationScope`; an empty set of allowed values ends it. -/
def relationConditions (metadata : EntityMetadata Entity) (table stem : Text) :
    List ResolvedScopePredicate → Nat → Wheres → Except Failure Wheres
  | [], _, conditions => .ok conditions
  | predicate :: rest, index, conditions => do
      match ← relationPredicate metadata table stem predicate index with
      | .never => return [(.and, .never)]
      | condition =>
          relationConditions metadata table stem rest (index + 1)
            (conditions ++ [(.and, condition)])

def relationScope (entity : Entity) (table stem : Text) : Except Failure Wheres :=
  if (scoping.scopedColumns entity).isEmpty then .ok []
  else do
    match ← scoping.currentScope entity with
    | none => return []
    | some scope => do
        let predicates ← resolveScopePredicates scope (scoping.scopedColumns entity)
        relationConditions (schema entity) table stem predicates 0 []

/-- The entity that a path of relations leads to. -/
def relationMetadata : Entity → List Text → Except Failure Entity
  | entity, [] => .ok entity
  | entity, property :: rest =>
      match (schema entity).findRelationWithPropertyPath property with
      | none => .error (.badRequest "core.repository.relation-not-found")
      | some relation => relationMetadata relation.inverse rest

def joinRelation (target : Entity) (count : Nat) (relation : Text) : Except Failure (Join Entity) := do
  let entity ← relationMetadata schema target (partsOf relation)
  let condition ← relationScope schema scoping entity (aliasOf relation)
    ("relation_scope_".toList ++ Text.decimal count ++ '_' :: aliasOf relation)
  let parts := partsOf relation
  return { path := relation
           table := aliasOf relation
           parent := if parts.length ≤ 1 then ['e'] else aliasOf (joinParts '.' parts.dropLast)
           property := parts.getLastD []
           entity
           condition }

def joinRelations (target : Entity) (relations : List Text) : Except Failure (List (Join Entity)) :=
  (relationPaths relations).mapM
    (joinRelation schema scoping target (relationPaths relations).length)

end Relations

/-! ## Fragments -/

/-- A fragment of `andWheres`, with what stands between its connectives. -/
inductive Fragment (α : Type) where
  /-- Text: its parts are joined as they stand in it. -/
  | string (parts : List (Connective × α))
  | brackets (whole : α)
  | object (whole : α)

namespace Fragment

variable {α β : Type}

def map (f : α → β) : Fragment α → Fragment β
  | .string parts => .string (parts.map fun part => (part.1, f part.2))
  | .brackets whole => .brackets (f whole)
  | .object whole => .object (f whole)

/-- An empty text is skipped. -/
def isEmpty : Fragment α → Bool
  | .string parts => parts.isEmpty
  | _ => false

/-- What `andWhere` adds to the chain: a text is not put in parentheses. -/
def wheres : Fragment α → List (Connective × α)
  | .string [] => []
  | .string ((_, first) :: rest) => (.and, first) :: rest
  | .brackets whole => [(.and, whole)]
  | .object whole => [(.and, whole)]

/-- The fragment as a whole. -/
def truth : Fragment Truth → Truth
  | .string parts => chain parts
  | .brackets whole => whole
  | .object whole => whole

end Fragment

/-- The WHERE clause: the fragments, then the filters in brackets if there are any. -/
def queryWheres {α : Type} (andWheres : List (Fragment α)) (filters : Option α) : List (Connective × α) :=
  andWheres.flatMap Fragment.wheres ++ (filters.map fun whole => (.and, whole)).toList

/-! ## The query -/

structure Order where
  field : Text
  direction : Text

structure BaseRepositoryArgs (Row : Type) where
  relations : List Text
  withDeleted : Bool
  andWheres : List (Fragment (Row → Truth))

structure PagingReq where
  pageNumber : Nat
  pageSize : Nat
  orders : List Order
  filters : List Filter

/-- A request as it comes in. -/
structure RawPagingReq where
  pageNumber : Option Int
  pageSize : Option Int
  orders : List (Option Text × Option Text)
  filters : List Filter

structure Query (Entity Row : Type) where
  withDeleted : Bool
  joins : List (Join Entity)
  wheres : List (Connective × (Row → Truth))
  orders : List (SortColumn × Text)
  /-- Rows to skip and rows to take. -/
  limits : Option (Nat × Nat)

def Query.selects {Entity Row : Type} (query : Query Entity Row) (row : Row) : Truth :=
  chain (query.wheres.map fun condition => (condition.1, condition.2 row))

section Builder

variable {Cell Entity : Type} (db : Database Cell) (host : Host) (schema : Schema Entity)
  (scoping : Scoping Entity) (draws : Nat → Text)

/-- The conditions of the filters, if there are any filters. -/
def queryFilters (target : Entity) (filters : List Filter) : Except Failure (Option (Wheres × Nat)) :=
  if filters.isEmpty then .ok none
  else (applyFilters host schema (schema target) "e" draws filters 0 0).map some

def createBaseQueryBuilder (target : Entity) (req : PagingReq)
    (args : BaseRepositoryArgs (Sql → Option Cell)) (paginate : Bool) :
    Except Failure (Query Entity (Sql → Option Cell)) := do
  let joins ← joinRelations schema scoping target args.relations
  let filters ← queryFilters host schema draws target req.filters
  let orders ← req.orders.mapM fun order =>
    (resolveSortColumn schema (schema target) "e" order.field).map fun column => (column, order.direction)
  return { withDeleted := args.withDeleted
           joins
           wheres := queryWheres args.andWheres
             (filters.map fun built row => evalCondition db row (.brackets built.1))
           orders
           limits :=
             if paginate && 0 < req.pageSize then some (req.pageNumber * req.pageSize, req.pageSize)
             else none }

/-- Drops sorts without a field or a direction. -/
def prepareSorts (sorts : List (Option Text × Option Text)) : List Order :=
  sorts.filterMap fun sort =>
    match sort with
    | (some field, some direction) =>
        if field.isEmpty || direction.isEmpty then none else some ⟨field, direction⟩
    | _ => none

def scopeFilter (predicate : ResolvedScopePredicate) : Filter :=
  match predicate.operator with
  | .isIn =>
      .leaf ⟨some predicate.propertyName.toList, .isIn, some (.array predicate.values), none, none⟩
  | .equal =>
      .leaf ⟨some predicate.propertyName.toList, .equal,
        some (.item (predicate.values.headD .undefined)), none, none⟩

def buildScopeFilters (scope : Record) (columns : List ScopedColumnMetadata) :
    Except Failure (List Filter) :=
  (resolveScopePredicates scope columns).map (List.map scopeFilter)

def addonFilter (target : Entity) (filters : List Filter) : Except Failure (List Filter) := do
  let cleaned ← prepareFilter host filters
  if (scoping.scopedColumns target).isEmpty then return cleaned
  else
    match ← scoping.currentScope target with
    | none => return cleaned
    | some scope => do
        let injected ← buildScopeFilters scope (scoping.scopedColumns target)
        return cleaned ++ injected

/-- At most `MAX_PAGE_SIZE` rows. -/
def preparePagingReq (target : Entity) (req : RawPagingReq) : Except Failure PagingReq := do
  let filters ← addonFilter host scoping target req.filters
  return { pageNumber := (req.pageNumber.getD 0).toNat
           pageSize :=
             match req.pageSize with
             | some size => if 0 < size then min size.toNat 200 else 10
             | none => 10
           orders := prepareSorts req.orders
           filters }

def pagingQuery (target : Entity) (req : RawPagingReq)
    (args : BaseRepositoryArgs (Sql → Option Cell)) :
    Except Failure (Query Entity (Sql → Option Cell)) := do
  let prepared ← preparePagingReq host scoping target req
  createBaseQueryBuilder db host schema scoping draws target prepared args true

def allQuery (target : Entity) (filters : List Filter)
    (args : BaseRepositoryArgs (Sql → Option Cell)) :
    Except Failure (Query Entity (Sql → Option Cell)) := do
  let prepared ← preparePagingReq host scoping target ⟨some 0, none, [], filters⟩
  createBaseQueryBuilder db host schema scoping draws target prepared args false

/-- The query of `detail`, for an id that is a UUID. -/
def detailQuery (target : Entity) (id : JsString)
    (args : BaseRepositoryArgs (Sql → Option Cell)) :
    Except Failure (Query Entity (Sql → Option Cell)) := do
  let prepared ← preparePagingReq host scoping target
    ⟨some 0, some 1, [], [.leaf ⟨some "id".toList, .equal, some (.item (.string id)), none, none⟩]⟩
  createBaseQueryBuilder db host schema scoping draws target prepared args true

end Builder

end SdcoreNest.Orm
