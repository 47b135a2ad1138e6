/-
# Orm.Columns -- field paths and the columns they name

`resolveColumnName` and `resolveSortColumn` of `filter-query-builder.ts`.  A reference is kept
as the pieces of SQL text it consists of, each with the way it is quoted.  The metadata is that
of TypeORM: lists of columns and relations that are searched from the front.
-/
import SdcoreNest.Orm.Tenancy
import SdcoreNest.Theory.SqlText

namespace SdcoreNest.Orm

open Theory

set_option autoImplicit false

/-! ## Metadata -/

inductive ColumnType where
  /-- The constructor `Date`. -/
  | date
  | named (name : Text)
  /-- Another constructor, or none. -/
  | other
deriving DecidableEq

structure ColumnMetadata where
  propertyName : Text
  /-- Begins with the property of the embedding object, if the column is in one. -/
  propertyPath : Text
  databaseName : Text
  type : ColumnType
  isArray : Bool
deriving DecidableEq

structure RelationMetadata (Entity : Type) where
  propertyPath : Text
  joinColumns : List ColumnMetadata
  inverse : Entity

structure EntityMetadata (Entity : Type) where
  columns : List ColumnMetadata
  relations : List (RelationMetadata Entity)

/-- The metadata of every entity; relations may lead around in circles. -/
abbrev Schema (Entity : Type) := Entity → EntityMetadata Entity

variable {Entity : Type}

namespace EntityMetadata

variable (metadata : EntityMetadata Entity)

def findColumnWithPropertyName (name : Text) : Option ColumnMetadata :=
  metadata.columns.find? fun column => column.propertyName == name

def findRelationWithPropertyPath (path : Text) : Option (RelationMetadata Entity) :=
  metadata.relations.find? fun relation => relation.propertyPath == path

/-- A relation with one join column stands for that column. -/
def findColumnWithPropertyPath (path : Text) : Option ColumnMetadata :=
  match metadata.columns.find? fun column => column.propertyPath == path with
  | some column => some column
  | none =>
      match metadata.findRelationWithPropertyPath path with
      | some relation =>
          match relation.joinColumns with
          | [column] => some column
          | _ => none
      | none => none

end EntityMetadata

/-! ## Pieces of SQL -/

inductive Piece where
  | code (text : Text)
  /-- What stands between double quotes. -/
  | identifier (inside : Text)
  /-- What stands between single quotes. -/
  | string (inside : Text)
deriving DecidableEq

def Piece.text : Piece → Text
  | .code text => text
  | .identifier inside => '"' :: inside ++ ['"']
  | .string inside => '\'' :: inside ++ ['\'']

abbrev Sql := List Piece

def Sql.text (sql : Sql) : Text := sql.flatMap Piece.text

/-- A literal of the source. -/
def code (literal : String) : Sql := [.code literal.toList]

/-- Doubles every double quote. -/
def quoteIdentifier (value : Text) : Sql :=
  [.identifier (value.flatMap fun c => if c = '"' then ['"', '"'] else [c])]

/-- An empty text gives way to the other, as `||` has it. -/
def orElse (text other : Text) : Text := if text.isEmpty then other else text

/-! ## Field paths -/

def isSafeChar (c : Char) : Bool :=
  ('a' ≤ c && c ≤ 'z') || ('A' ≤ c && c ≤ 'Z') || ('0' ≤ c && c ≤ '9') || c == '_' || c == '.'

/-- `SAFE_FIELD`. -/
def isSafeField (field : Text) : Bool := !field.isEmpty && field.all isSafeChar

def partsOf (field : Text) : List Text := field.splitOn '.'

def joinParts (separator : Char) (parts : List Text) : Text := [separator].intercalate parts

def isJson (column : ColumnMetadata) : Bool :=
  [ColumnType.named "jsonb".toList, .named "json".toList, .named "simple-json".toList].contains
    column.type

/-- The steps into a JSON column: the last one yields text. -/
def jsonPath : List Text → Sql
  | [] => []
  | [last] => code " ->> " ++ [.string last]
  | key :: rest => code " -> " ++ [.string key] ++ jsonPath rest

def resolveColumnName (schema : Schema Entity) (metadata : EntityMetadata Entity) (root : String)
    (field : Text) : Except Failure Sql :=
  if !isSafeField field then .error (.badRequest "core.repository.invalid-field-name")
  else
    match partsOf field with
    | [] => .ok []
    | rootProp :: rest =>
        match metadata.findColumnWithPropertyName rootProp, rest with
        | some col, [] =>
            .ok (code root ++ code "." ++ quoteIdentifier (orElse col.databaseName rootProp))
        | some col, key :: keys =>
            if isJson col then
              .ok (code root ++ code "." ++ quoteIdentifier (orElse col.databaseName rootProp) ++
                jsonPath (key :: keys))
            else .ok (viaRelation rootProp (key :: keys))
        | none, rest => .ok (viaRelation rootProp rest)
where
  /-- The last two rules. -/
  viaRelation (rootProp : Text) (rest : List Text) : Sql :=
    match metadata.findRelationWithPropertyPath rootProp, rest with
    | some rel, key :: keys =>
        let childField := joinParts '.' (key :: keys)
        let childColumn := (schema rel.inverse).findColumnWithPropertyPath childField
        quoteIdentifier rootProp ++ code "." ++
          quoteIdentifier (orElse ((childColumn.map ColumnMetadata.databaseName).getD []) childField)
    | _, _ => code root ++ code "." ++ [.identifier field]

/-- The column of a field whose type decides about its operands. -/
def findFilterColumn (schema : Schema Entity) (metadata : EntityMetadata Entity) (field : Text) :
    Option ColumnMetadata :=
  match partsOf field with
  | [] => none
  | rootProp :: rest =>
      match metadata.findColumnWithPropertyName rootProp with
      | some direct => some direct
      | none =>
          if rest.isEmpty then none
          else
            (metadata.findRelationWithPropertyPath rootProp).bind fun relation =>
              (schema relation.inverse).findColumnWithPropertyPath (joinParts '.' rest)

/-- `TEMPORAL_COLUMN_TYPES`. -/
def temporalColumnTypes : List String :=
  ["date", "datetime", "datetime2", "smalldatetime", "time", "time with time zone",
    "time without time zone", "timestamp", "timestamp with local time zone",
    "timestamp with time zone", "timestamp without time zone", "timestamptz"]

def isTemporalFilterColumn (schema : Schema Entity) (metadata : EntityMetadata Entity)
    (field : Text) : Bool :=
  match (findFilterColumn schema metadata field).map ColumnMetadata.type with
  | some .date => true
  | some (.named name) => (temporalColumnTypes.map String.toList).contains (name.map Char.toLower)
  | _ => false

/-! ## Sorts -/

/-- Where a sort points: an alias of the query and a property path of its entity. -/
structure SortColumn where
  table : Text
  propertyPath : Text
deriving DecidableEq

/-- The entity that a list of relations leads to; the code is that of the failure. -/
def followRelations (schema : Schema Entity) (code : String) :
    EntityMetadata Entity → List Text → Except Failure (EntityMetadata Entity)
  | metadata, [] => .ok metadata
  | metadata, property :: rest =>
      match metadata.findRelationWithPropertyPath property with
      | none => .error (.badRequest code)
      | some relation => followRelations schema code (schema relation.inverse) rest

def findSortColumn (metadata : EntityMetadata Entity) (code : String) (table columnName : Text) :
    Except Failure SortColumn :=
  match metadata.findColumnWithPropertyName columnName with
  | none => .error (.badRequest code)
  | some column => .ok ⟨table, column.propertyPath⟩

def resolveSortColumn (schema : Schema Entity) (metadata : EntityMetadata Entity) (root : String)
    (field : Text) : Except Failure SortColumn :=
  if !isSafeField field then .error (.badRequest "core.repository.invalid-sort-field")
  else
    match partsOf field with
    | [] => .error (.badRequest "core.repository.column-not-found")
    | [only] => findSortColumn metadata "core.repository.column-not-found" root.toList only
    | rootRelation :: second :: rest =>
        match metadata.findRelationWithPropertyPath rootRelation with
        | none => .error (.badRequest "core.repository.relation-not-found")
        | some relation => do
            let current ← followRelations schema "core.repository.relation-not-found-in"
              (schema relation.inverse) (second :: rest).dropLast
            findSortColumn current "core.repository.column-not-found-in"
              (joinParts '_' (rootRelation :: (second :: rest).dropLast))
              ((second :: rest).getLastD [])

end SdcoreNest.Orm
