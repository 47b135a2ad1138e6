/-
# Orm.Tenancy -- scopes, and what they make of reads and writes

The helpers of `tenancy.helpers.ts`.  A scope says for each scoped column which values are
allowed; it is resolved into predicates for reads and criteria, and stamped on new entities.
-/
import Mathlib
import SdcoreNest.Theory.JsNumber

namespace SdcoreNest.Orm

open Theory

set_option autoImplicit false

/-! ## Values -/

/-- A value that is not an array.  Dates and other objects have an identity. -/
inductive Item where
  | undefined
  | null
  | string (text : JsString)
  | number (value : JsNumber)
  | negativeZero
  | boolean (value : Bool)
  | bigint (value : Int)
  /-- An invalid date has no time. -/
  | date (identity : Nat) (time : Option Int)
  | object (identity : Nat)
deriving DecidableEq, Inhabited

inductive Value where
  | item (item : Item)
  | array (items : List Item)
deriving DecidableEq

namespace Item

def isNullish : Item → Bool
  | .undefined | .null => true
  | _ => false

def isTruthy : Item → Bool
  | .undefined | .null | .negativeZero | .number .nan => false
  | .string text => !text.isEmpty
  | .number value => value ≠ .finite 0
  | .boolean value => value
  | .bigint value => value ≠ 0
  | .date _ _ | .object _ => true

def isScalar : Item → Bool
  | .string text => !(JsString.trim text).isEmpty
  | .number value => value.isFinite
  | .negativeZero | .boolean _ | .bigint _ => true
  | .date _ time => time.isSome
  | .undefined | .null | .object _ => false

/-- What a `Set` keeps of a value: its zero has no sign. -/
def asMember : Item → Item
  | .negativeZero => .number (.finite 0)
  | item => item

end Item

/-- An object with own properties. -/
abbrev Record := List (String × Value)

namespace Record

def get (record : Record) (name : String) : Value := (record.lookup name).getD (.item .undefined)

def has (record : Record) (name : String) : Bool := (record.lookup name).isSome

def set (record : Record) (name : String) (value : Value) : Record :=
  if has record name then record.map fun property => if property.1 = name then (name, value) else property
  else record ++ [(name, value)]

def remove (record : Record) (name : String) : Record := record.filter fun property => property.1 ≠ name

end Record

/-! ## Failures -/

inductive Failure where
  | missingTenancyContext
  | missingTenancyScope (columns : List String)
  | invalidTenancyScope (column : String) (reason : String)
  | unauthorizedTenancyBypass
  | tenancyScopeMutation (column : String)
  | inactiveMutationTransaction
  | missingHistoryResourceScope
  | badRequest (code : String)
  | notFound (code : String)
  /-- Thrown by the driver or by a hook. -/
  | thrown
deriving DecidableEq

/-! ## Scopes -/

structure ScopedColumnMetadata where
  propertyName : String
  required : Bool
deriving DecidableEq

inductive ScopeOperator where
  | equal
  | isIn
deriving DecidableEq

structure ResolvedScopePredicate where
  propertyName : String
  required : Bool
  operator : ScopeOperator
  values : List Item
deriving DecidableEq

def isMissing : Value → Bool
  | .item item => item.isNullish
  | .array _ => false

def normalizeAllowedValues (column : String) (value : List Item) : Except Failure (List Item) :=
  let values := value.filter fun item => !item.isNullish
  if values.any fun item => !item.isScalar then
    .error (.invalidTenancyScope column "allowed values must be scalar")
  else .ok (values.map Item.asMember).eraseDups

def assertRequiredScope (scope : Record) (columns : List ScopedColumnMetadata) : Except Failure Unit :=
  let missing := columns.filter fun column => column.required && isMissing (scope.get column.propertyName)
  if missing.isEmpty then .ok () else .error (.missingTenancyScope (missing.map (·.propertyName)))

/-- One turn of the loop of `resolveScopePredicates`. -/
def resolveScopePredicate (scope : Record) (column : ScopedColumnMetadata) :
    Except Failure (Option ResolvedScopePredicate) :=
  match scope.get column.propertyName with
  | .array items =>
      (normalizeAllowedValues column.propertyName items).map fun values =>
        some ⟨column.propertyName, column.required, .isIn, values⟩
  | .item item =>
      if item.isNullish then .ok none
      else if !item.isScalar then
        .error (.invalidTenancyScope column.propertyName "value must be scalar or an array of scalars")
      else .ok (some ⟨column.propertyName, column.required, .equal, [item]⟩)

def resolveScopePredicates (scope : Record) (columns : List ScopedColumnMetadata) :
    Except Failure (List ResolvedScopePredicate) := do
  assertRequiredScope scope columns
  let predicates ← columns.mapM (resolveScopePredicate scope)
  return predicates.reduceOption

/-- One turn of the loop of `applyScopeToEntity`. -/
def applyScopeColumn (scope : Record) (entity : Record) (column : ScopedColumnMetadata) :
    Except Failure Record :=
  match scope.get column.propertyName with
  | .item item =>
      if item.isNullish then .ok entity
      else if !item.isScalar then
        .error (.invalidTenancyScope column.propertyName "write value must be scalar")
      else .ok (entity.set column.propertyName (.item item))
  | .array items => do
      let allowed ← normalizeAllowedValues column.propertyName items
      match allowed, entity.get column.propertyName with
      | [], _ => .error (.invalidTenancyScope column.propertyName "allowed values are empty")
      | [only], .item .undefined | [only], .item .null =>
          .ok (entity.set column.propertyName (.item only))
      | _, .item .undefined | _, .item .null =>
          .error (.invalidTenancyScope column.propertyName
            "a write scope must be selected from the allowed values")
      | allowed, .item selected =>
          if selected.isScalar && allowed.contains selected then .ok entity
          else .error (.invalidTenancyScope column.propertyName "selected write scope is not allowed")
      | _, .array _ =>
          .error (.invalidTenancyScope column.propertyName "selected write scope is not allowed")

def applyScopeToEntity (entity scope : Record) (columns : List ScopedColumnMetadata) :
    Except Failure Record := do
  assertRequiredScope scope columns
  columns.foldlM (applyScopeColumn scope) entity

end SdcoreNest.Orm
