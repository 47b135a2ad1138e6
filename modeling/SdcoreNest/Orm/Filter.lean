/-
# Orm.Filter -- filter trees and the conditions made of them

`prepareFilter` and `applyFilterToQuery` of `filter-query-builder.ts`.  A builder collects
conditions with the connective that precedes each; `Brackets` run their callback at once, so
random numbers are drawn in the order of the leaves.  The functions of `FilterUtilities` are not
part of the repository: `validateFilter` returns an equal clone or throws, and the two others are
taken as they come.
-/
import SdcoreNest.Orm.Columns
import SdcoreNest.Theory.Kleene
import SdcoreNest.Theory.NumberText
import SdcoreNest.Theory.Program

namespace SdcoreNest.Orm

open Theory

set_option autoImplicit false

/-! ## Filters -/

inductive Operator where
  | null
  | notNull
  | equal
  | notEqual
  | lessThan
  | lessOrEqual
  | greaterThan
  | greaterOrEqual
  | contain
  | notContain
  | startWith
  | notStartWith
  | endWith
  | notEndWith
  | between
  | isIn
  | notIn
  /-- Any other text. -/
  | unsupported
deriving DecidableEq

inductive DataType where
  | field
  | dateToday
  | dateRelative
deriving DecidableEq

inductive FilterTimestampUnit where
  | milliseconds
  | seconds
deriving DecidableEq

inductive Data where
  | item (item : Item)
  | array (items : List Item)
  /-- An object with `from` and `to`. -/
  | range (lower upper : Item)
deriving DecidableEq

namespace Data

def isNullish : Data → Bool
  | .item value => value.isNullish
  | _ => false

def isArray : Data → Bool
  | .array _ => true
  | _ => false

def isBounded : Data → Bool
  | .range lower upper => !lower.isNullish && !upper.isNullish
  | _ => false

/-- The values that a placeholder `:...` is spread to. -/
def items : Data → List Item
  | .array values => values
  | .item value => [value]
  | .range _ _ => []

end Data

/-- A filter on one field; `data` may be missing altogether. -/
structure Leaf where
  field : Option Text
  operator : Operator
  data : Option Data
  dataType : Option DataType
  timestampUnit : Option FilterTimestampUnit
deriving DecidableEq

inductive Filter where
  | leaf (leaf : Leaf)
  | group (operator : Connective) (data : List Filter)

def invalidFilter : Failure := .badRequest "core.repository.invalid-filter"

/-- What comes from outside the repository. -/
structure Host where
  validateFilter : Filter → Except Failure Unit
  toEpoch : Data → FilterTimestampUnit → Option JsNumber
  /-- At the reference time of the query. -/
  resolveData : Leaf → Item
  /-- `String(data)` of what is not a string. -/
  toText : Data → JsString

/-! ## `prepareFilter` -/

namespace Leaf

/-- Absent and empty fields are skipped. -/
def name (leaf : Leaf) : Text := leaf.field.getD []

/-- What `prepareFilter` keeps. -/
def isKept (leaf : Leaf) : Bool :=
  if leaf.name.isEmpty then false
  else
    match leaf.operator, leaf.data with
    | .null, _ | .notNull, _ => true
    | _, none => false
    | .isIn, some data | .notIn, some data => leaf.dataType == some .field || data.isArray
    | .between, some data => data.isBounded
    | _, some data => !data.isNullish

end Leaf

mutual

/-- One turn of the loop. -/
def prepareOne (host : Host) : Filter → Except Failure (Option Filter)
  | .group operator data => do
      host.validateFilter (.group .and data)
      let cleaned ← prepareEach host data
      return if cleaned.isEmpty then none else some (.group operator cleaned)
  | .leaf leaf => .ok (if leaf.isKept then some (.leaf leaf) else none)

def prepareEach (host : Host) : List Filter → Except Failure (List Filter)
  | [] => .ok []
  | filter :: rest => do
      let first ← prepareOne host filter
      let others ← prepareEach host rest
      return first.toList ++ others

end

def prepareFilter (host : Host) (filters : List Filter) : Except Failure (List Filter) := do
  host.validateFilter (.group .and filters)
  prepareEach host filters

/-! ## Conditions -/

inductive Comparison where
  | equal
  | notEqual
  | less
  | lessOrEqual
  | greater
  | greaterOrEqual
deriving DecidableEq

def Comparison.sign : Comparison → String
  | .equal => " = "
  | .notEqual => " != "
  | .less => " < "
  | .lessOrEqual => " <= "
  | .greater => " > "
  | .greaterOrEqual => " >= "

structure Parameter where
  name : Text
  value : Data
deriving DecidableEq

inductive Operand where
  | column (column : Sql)
  | parameter (parameter : Parameter)

/-- What a text is compared with; a column may have `%` put around it. -/
inductive Pattern where
  | parameter (parameter : Parameter)
  | column (before : Bool) (column : Sql) (after : Bool)

inductive Condition where
  | isNull (column : Sql)
  | isNotNull (column : Sql)
  | compare (comparison : Comparison) (column : Sql) (operand : Operand)
  | like (negated : Bool) (column : Sql) (pattern : Pattern)
  | isIn (negated : Bool) (column : Sql) (parameter : Parameter)
  | equalsAny (column array : Sql)
  /-- The array holds a NULL. -/
  | holdsNull (array : Sql)
  /-- The constant `1 = 0`. -/
  | never
  | coalesceFalse (condition : Condition)
  | negation (conditions : List (Connective × Condition))
  | brackets (conditions : List (Connective × Condition))

abbrev Wheres := List (Connective × Condition)

/-! ## Operands -/

/-- Division of a double. -/
def thousandth : JsNumber → JsNumber
  | .finite value => JsNumber.nearest (value / 1000)
  | number => number

/-- The time of `new Date(epoch)`. -/
def timeOf : JsNumber → Option Int
  | .finite value =>
      if |value| ≤ 8640000000000000 then some (if 0 ≤ value then value.floor else value.ceil) else none
  | _ => none

def normalizeTimestampValue (host : Host) (value : Data) (unit : FilterTimestampUnit)
    (temporalColumn : Bool) : Except Failure Item :=
  match host.toEpoch value unit with
  | none => .error invalidFilter
  | some epoch =>
      .ok (if temporalColumn then .date 0 (timeOf epoch)
        else .number (if unit = .seconds then thousandth epoch else epoch))

section Apply

variable {Entity : Type} (host : Host) (schema : Schema Entity) (metadata : EntityMetadata Entity)
  (root : String) (draws : Nat → Text)

def normalizeTimestampOperand (value : Data) (unit : Option FilterTimestampUnit) (field : Text) :
    Except Failure Data :=
  match unit, value with
  | none, value => .ok value
  | some unit, .array items =>
      (items.mapM fun item => normalizeTimestampValue host (.item item) unit
        (isTemporalFilterColumn schema metadata field)).map .array
  | some unit, value =>
      (normalizeTimestampValue host value unit (isTemporalFilterColumn schema metadata field)).map .item

/-- A template literal around the data. -/
def template (before : Bool) (data : Data) (after : Bool) : Data :=
  let mark (wanted : Bool) : JsString := if wanted then JsString.js "%" else []
  .item (.string (mark before ++
    (match data with
      | .item (.string text) => text
      | data => host.toText data) ++ mark after))

/-- `COALESCE(… = …, FALSE) OR (… IS NULL AND … IS NULL)`. -/
def nullSafeEqual (column operandColumn : Sql) : Wheres :=
  [(.and, .coalesceFalse (.compare .equal column (.column operandColumn))),
    (.or, .brackets [(.and, .isNull column), (.and, .isNull operandColumn)])]

/-- `COALESCE(… = ANY(…), FALSE) OR (… IS NULL AND array_position(…, NULL) IS NOT NULL)`. -/
def nullSafeMember (column operandColumn : Sql) : Wheres :=
  [(.and, .coalesceFalse (.equalsAny column operandColumn)),
    (.or, .brackets [(.and, .isNull column), (.and, .holdsNull operandColumn)])]

def applyColumnOperand (operator : Operator) (column operandColumn : Sql) : Except Failure Wheres :=
  match operator with
  | .equal => .ok [(.and, .brackets (nullSafeEqual column operandColumn))]
  | .notEqual => .ok [(.and, .negation (nullSafeEqual column operandColumn))]
  | .lessThan => .ok [(.and, .compare .less column (.column operandColumn))]
  | .lessOrEqual => .ok [(.and, .compare .lessOrEqual column (.column operandColumn))]
  | .greaterThan => .ok [(.and, .compare .greater column (.column operandColumn))]
  | .greaterOrEqual => .ok [(.and, .compare .greaterOrEqual column (.column operandColumn))]
  | .contain => .ok [(.and, .like false column (.column true operandColumn true))]
  | .notContain => .ok [(.and, .like true column (.column true operandColumn true))]
  | .startWith => .ok [(.and, .like false column (.column false operandColumn true))]
  | .notStartWith => .ok [(.and, .like true column (.column false operandColumn true))]
  | .endWith => .ok [(.and, .like false column (.column true operandColumn false))]
  | .notEndWith => .ok [(.and, .like true column (.column true operandColumn false))]
  | .isIn => .ok [(.and, .brackets (nullSafeMember column operandColumn))]
  | .notIn =>
      .ok [(.and, .isNotNull operandColumn), (.and, .negation (nullSafeMember column operandColumn))]
  | _ => .error invalidFilter

/-- A field operand; what is no text has no `split`. -/
def operandField : Data → Except Failure Text
  | .item (.string text) => .ok (Text.ofUnits text)
  | _ => .error .thrown

/-- `p_${idx}_${Math.random().toString(36).slice(2, 8)}`. -/
def parameterName (idx : Count) (suffix : Text) : Text :=
  "p_".toList ++ idx.text ++ ['_'] ++ suffix

/-- `idx * 1000 + j`, in doubles: deep in a tree neighbours can be one number. -/
def nestedIdx (idx : Count) (j : Nat) : Count := (idx.times 1000 (by decide)).plus (.ofNat j)

theorem nestedIdx_ofNat {i j : Nat} (small : i * 1000 + j < 2 ^ 53) :
    nestedIdx (.ofNat i) j = .ofNat (i * 1000 + j) := by
  have indexSmall : i < 2 ^ 53 := Nat.lt_of_le_of_lt (by omega) small
  have scaledSmall : i * 1000 < 2 ^ 53 := Nat.lt_of_le_of_lt (by omega) small
  have positionSmall : j < 2 ^ 53 := Nat.lt_of_le_of_lt (by omega) small
  rw [nestedIdx, Count.times_ofNat indexSmall, Count.plus_ofNat scaledSmall positionSmall]

example : nestedIdx (.ofNat 1000000000000000) 0 = nestedIdx (.ofNat 1000000000000000) 1 := by
  decide +kernel

/-- The bounds of `BETWEEN`; another value has neither. -/
def bounds : Data → Data × Data
  | .range lower upper => (.item lower, .item upper)
  | _ => (.item .undefined, .item .undefined)

/-- The `switch` over the operators with a bound value. -/
def applyOperand (leaf : Leaf) (col : Sql) (data : Data) (param : Text) : Except Failure Wheres :=
  let compare (comparison : Comparison) : Except Failure Wheres :=
    .ok [(.and, .compare comparison col (.parameter ⟨param, data⟩))]
  let like (negated before after : Bool) : Except Failure Wheres :=
    .ok [(.and, .like negated col (.parameter ⟨param, template host before data after⟩))]
  match leaf.operator with
  | .equal => compare .equal
  | .notEqual => compare .notEqual
  | .lessThan => compare .less
  | .lessOrEqual => compare .lessOrEqual
  | .greaterThan => compare .greater
  | .greaterOrEqual => compare .greaterOrEqual
  | .contain => like false true true
  | .notContain => like true true true
  | .startWith => like false false true
  | .notStartWith => like true false true
  | .endWith => like false true false
  | .notEndWith => like true true false
  | .between => do
      -- the bounds are those of the leaf, before any conversion
      let range := bounds (leaf.data.getD (.item .undefined))
      let lower ← normalizeTimestampOperand host schema metadata range.1 leaf.timestampUnit leaf.name
      let upper ← normalizeTimestampOperand host schema metadata range.2 leaf.timestampUnit leaf.name
      return [(.and, .compare .greaterOrEqual col (.parameter ⟨param ++ "_from".toList, lower⟩)),
        (.and, .compare .lessOrEqual col (.parameter ⟨param ++ "_to".toList, upper⟩))]
  | .isIn =>
      if data = .array [] then .ok [(.and, .never)] else .ok [(.and, .isIn false col ⟨param, data⟩)]
  | .notIn => if data = .array [] then .ok [] else .ok [(.and, .isIn true col ⟨param, data⟩)]
  | _ => .error invalidFilter

/-- Membership wants an array column. -/
def assertArrayOperand (leaf : Leaf) (operand : Text) : Except Failure Unit :=
  if (leaf.operator = .isIn ∨ leaf.operator = .notIn) ∧
      (findFilterColumn schema metadata operand).map ColumnMetadata.isArray ≠ some true then
    .error invalidFilter
  else .ok ()

/-- A leaf with data: the conditions, and the number of draws made so far. -/
def applyData (leaf : Leaf) (col : Sql) (data : Data) (idx : Count) (draw : Nat) :
    Except Failure (Wheres × Nat) :=
  if data.isNullish then .ok ([], draw)
  else if leaf.dataType = some .field then do
    let operand ← operandField data
    assertArrayOperand schema metadata leaf operand
    let operandColumn ← resolveColumnName schema metadata root operand
    let wheres ← applyColumnOperand leaf.operator col operandColumn
    return (wheres, draw)
  else do
    let resolved :=
      if leaf.dataType.isSome then .item (host.resolveData leaf) else data
    let operand ← normalizeTimestampOperand host schema metadata resolved leaf.timestampUnit leaf.name
    let wheres ← applyOperand host schema metadata leaf col operand (parameterName idx (draws draw))
    return (wheres, draw + 1)

def applyLeaf (leaf : Leaf) (idx : Count) (draw : Nat) : Except Failure (Wheres × Nat) :=
  if leaf.name.isEmpty then .ok ([], draw)
  else do
    let col ← resolveColumnName schema metadata root leaf.name
    match leaf.operator, leaf.data with
    | .null, _ => return ([(.and, .isNull col)], draw)
    | .notNull, _ => return ([(.and, .isNotNull col)], draw)
    | _, none => return ([], draw)
    | _, some data => applyData host schema metadata root draws leaf col data idx draw

mutual

/-- The conditions that a filter adds to the builder, and the number of draws made so far. -/
def applyFilterToQuery : Filter → Count → Nat → Except Failure (Wheres × Nat)
  | .leaf leaf, idx, draw => do
      host.validateFilter (.leaf leaf)
      applyLeaf host schema metadata root draws leaf idx draw
  | .group operator data, idx, draw => do
      host.validateFilter (.group operator data)
      let (members, draw) ← applyMembers operator data idx 0 draw
      return (if data.isEmpty then [] else [(.and, .brackets members)], draw)

def applyMembers (operator : Connective) : List Filter → Count → Nat → Nat →
    Except Failure (Wheres × Nat)
  | [], _, _, draw => .ok ([], draw)
  | member :: rest, idx, j, draw => do
      let (wrapped, draw) ← applyFilterToQuery member (nestedIdx idx j) draw
      let (others, draw) ← applyMembers operator rest idx (j + 1) draw
      return ((operator, .brackets wrapped) :: others, draw)

end

/-- `filters.forEach((f, i) => applyFilterToQuery(qb, f, i, …))`. -/
def applyFilters : List Filter → Nat → Nat → Except Failure (Wheres × Nat)
  | [], _, draw => .ok ([], draw)
  | filter :: rest, i, draw => do
      let (wheres, draw) ← applyFilterToQuery host schema metadata root draws filter (.ofNat i) draw
      let (others, draw) ← applyFilters rest (i + 1) draw
      return (wheres ++ others, draw)

end Apply

end SdcoreNest.Orm
