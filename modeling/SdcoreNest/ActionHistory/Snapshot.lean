/-
# ActionHistory.Snapshot -- what an audit row keeps of an object graph

`sanitizeSnapshot` walks a graph of objects with sharing and cycles into a tree of fresh
objects.  It redacts values by key and by path, charges every value to one budget, and
redacts an object it meets for the second time.
-/
import SdcoreNest.Theory.JsNumber
import SdcoreNest.Theory.Utf8

namespace SdcoreNest.ActionHistory

open SdcoreNest.Theory SdcoreNest.Theory.JsString

set_option autoImplicit false

/-! ## Object graphs -/

/-- The values that are no objects. -/
inductive Primitive where
  | undefined
  | null
  | boolean (value : Bool)
  | number (value : JsNumber)
  | bigint (value : Int)
  | string (text : JsString)
  | symbol (id : Nat)
  | function (id : Nat)
deriving DecidableEq

/-- The identity of an object. -/
abbrev Ref := Nat

inductive Value where
  | primitive (value : Primitive)
  | object (ref : Ref)
deriving DecidableEq

inductive Descriptor where
  | data (value : Value)
  | accessor
deriving DecidableEq

inductive PropertyKey where
  | string (text : JsString)
  | symbol (id : Nat)
deriving DecidableEq

structure Property where
  key : PropertyKey
  enumerable : Bool
  descriptor : Descriptor
deriving DecidableEq

/-- The own index properties of an array in ascending order, holes left out, and its other own
properties. -/
structure ArrayObject where
  length : Nat
  elements : List (Nat × Descriptor)
  extras : List Property
  short : length < 2 ^ 32
  inside : ∀ element ∈ elements, element.1 < length
  ascending : elements.Pairwise fun first second => first.1 < second.1

/-- The own properties of any other object, in the order of `Reflect.ownKeys`. -/
structure PlainObject where
  properties : List Property
  distinct : (properties.map Property.key).Nodup

inductive HeapObject where
  /-- Milliseconds since the epoch; an invalid date has none. -/
  | date (time : Option Int)
  | array (object : ArrayObject)
  | plain (object : PlainObject)

abbrev Heap := Ref → HeapObject

structure Graph where
  heap : Heap
  root : Value

/-! ## What is stored -/

mutual

inductive Snapshot where
  | leaf (value : Primitive)
  | array (length : Nat) (elements : Branches)
  | object (properties : Branches)

/-- Own enumerable data properties. -/
inductive Branches where
  | none
  | branch (key : PropertyKey) (value : Snapshot) (rest : Branches)

end

inductive SnapshotError where
  /-- `ActionHistorySnapshotLimitError` -/
  | limit
  /-- `ActionHistoryUnsafeSnapshotError` -/
  | unsafeProperty
  /-- The `RangeError` of an invalid date. -/
  | range
  /-- The walk was cut off; no run of the code ends so. -/
  | unfinished
deriving DecidableEq

def MAX_SNAPSHOT_DEPTH : Nat := 32

def MAX_SNAPSHOT_NODES : Nat := 10000

def MAX_SNAPSHOT_UTF8_BYTES : Nat := 1024 * 1024

def REDACTED : JsString := js "[REDACTED]"

def UNSAFE_SNAPSHOT_KEYS : List JsString := [js "__proto__", js "prototype", js "constructor"]

def DEFAULT_SENSITIVE_FIELDS : List JsString :=
  [js "password", js "passwd", js "secret", js "clientsecret", js "token", js "accesstoken",
    js "refreshtoken", js "idtoken", js "authorization", js "apikey", js "accesskey",
    js "privatekey", js "credential"]

def SENSITIVE_FIELD_MARKERS : List JsString :=
  [js "password", js "passwd", js "secret", js "token", js "privatekey", js "apikey",
    js "accesskey", js "credential", js "authorization"]

structure ActionHistorySecurityOptions where
  redactFields : List JsString
  redactSnapshot : Option (Graph → Graph)

/-! ## The text of a date -/

/-- Decimal digits, padded on the left with zeros. -/
def padded (width n : Nat) : JsString :=
  let digits := Text.units (Text.decimal n)
  List.replicate (width - digits.length) 0x30 ++ digits

/-- Year, month and day of a day counted from the epoch. -/
def civil (days : Int) : Int × Nat × Nat :=
  let shifted := days + 719468
  let era := shifted.fdiv 146097
  let dayOfEra := (shifted - era * 146097).toNat
  let yearOfEra := (dayOfEra - dayOfEra / 1460 + dayOfEra / 36524 - dayOfEra / 146096) / 365
  let dayOfYear := dayOfEra - (365 * yearOfEra + yearOfEra / 4 - yearOfEra / 100)
  let shiftedMonth := (5 * dayOfYear + 2) / 153
  let day := dayOfYear - (153 * shiftedMonth + 2) / 5 + 1
  let month := if shiftedMonth < 10 then shiftedMonth + 3 else shiftedMonth - 9
  let year := (yearOfEra : Int) + era * 400
  (if month ≤ 2 then year + 1 else year, month, day)

/-- `Date.prototype.toISOString` of a valid date. -/
def toISOString (time : Int) : JsString :=
  let (year, month, day) := civil (time.fdiv 86400000)
  let clock := (time.fmod 86400000).toNat
  let yearText :=
    if 0 ≤ year ∧ year ≤ 9999 then padded 4 year.toNat
    else (if year < 0 then js "-" else js "+") ++ padded 6 year.natAbs
  yearText ++ js "-" ++ padded 2 month ++ js "-" ++ padded 2 day ++ js "T" ++
    padded 2 (clock / 3600000) ++ js ":" ++ padded 2 (clock / 60000 % 60) ++ js ":" ++
    padded 2 (clock / 1000 % 60) ++ js "." ++ padded 3 (clock % 1000) ++ js "Z"

example : toISOString 951827696789 = js "2000-02-29T12:34:56.789Z" := by decide +kernel

/-! ## What is redacted -/

section

variable (toLowerCase : JsString → JsString)

/-- `toLowerCase().replace(/[^a-z0-9]/g, '')` -/
def normalizeField (field : JsString) : JsString :=
  (toLowerCase field).filter fun u => isDigit u || (0x61 ≤ u.toNat && u.toNat ≤ 0x7A)

def isSensitiveField (field : JsString) : Bool :=
  let normalized := normalizeField toLowerCase field
  DEFAULT_SENSITIVE_FIELDS.contains normalized ||
    SENSITIVE_FIELD_MARKERS.any fun marker => decide (marker <:+: normalized)

/-- `configured`: the fields and paths of the options, in lower case. -/
def configured (security : ActionHistorySecurityOptions) : List JsString :=
  security.redactFields.map toLowerCase

/-- The check of a key and its path. -/
def redacts (security : ActionHistorySecurityOptions) (key path : JsString) : Bool :=
  isSensitiveField toLowerCase key || (configured toLowerCase security).contains (toLowerCase key) ||
    (configured toLowerCase security).contains (toLowerCase path)

/-- `path ? path.key : key` -/
def childPath (path key : JsString) : JsString := if path = [] then key else path ++ 0x2E :: key

/-- `String(index)` -/
def indexText (index : Nat) : JsString := Text.units (Text.decimal index)

/-! ## The walk -/

/-- The counters of one call, and the objects it has met. -/
structure Traversal where
  nodes : Nat
  utf8Bytes : Nat
  seen : List Ref

/-- `Buffer.byteLength(text, 'utf8')` -/
def byteLength (text : JsString) : Nat := (JsString.utf8Bytes text).length

/-- What a value adds to the bytes: the text of a string. -/
def stringBytes : Value → Nat
  | .primitive (.string text) => byteLength text
  | _ => 0

def consume (value : Value) (path : JsString) (depth : Nat) (state : Traversal) :
    Except SnapshotError Traversal :=
  let state := { state with
    nodes := state.nodes + 1
    utf8Bytes := state.utf8Bytes + stringBytes value + byteLength path }
  if MAX_SNAPSHOT_DEPTH < depth ∨ MAX_SNAPSHOT_NODES < state.nodes ∨
      MAX_SNAPSHOT_UTF8_BYTES < state.utf8Bytes then .error .limit
  else .ok state

/-- A visit of one value at its path. -/
abbrev Visit := Value → JsString → Traversal → Except SnapshotError (Snapshot × Traversal)

/-- The loop over the indices of an array. -/
def walkElements (visit : Visit) (path : JsString) :
    List (Nat × Descriptor) → Traversal → Except SnapshotError (Branches × Traversal)
  | [], state => .ok (.none, state)
  | (_, .accessor) :: _, _ => .error .unsafeProperty
  | (index, .data value) :: rest, state => do
      let (child, state) ← visit value (childPath path (indexText index)) state
      let (branches, state) ← walkElements visit path rest state
      return (.branch (.string (indexText index)) child branches, state)

/-- One visible property: redacted without a look at its value, or visited. -/
def walkChild (visit : Visit) (security : ActionHistorySecurityOptions) (path : JsString) (depth : Nat)
    (key : JsString) (value : Value) (state : Traversal) : Except SnapshotError (Snapshot × Traversal) :=
  if redacts toLowerCase security key (childPath path key) then do
    let state ← consume (.primitive .undefined) (childPath path key) (depth + 1) state
    return (.leaf (.string REDACTED), state)
  else visit value (childPath path key) state

/-- The loop over the own keys of an object. -/
def walkProperties (visit : Visit) (security : ActionHistorySecurityOptions) (path : JsString)
    (depth : Nat) : List Property → Traversal → Except SnapshotError (Branches × Traversal)
  | [], state => .ok (.none, state)
  | { key, enumerable, descriptor } :: rest, state =>
      if !enumerable then walkProperties visit security path depth rest state
      else
        match key, descriptor with
        | .string key, .data value =>
            if UNSAFE_SNAPSHOT_KEYS.contains key then .error .unsafeProperty
            else do
              let (child, state) ← walkChild toLowerCase visit security path depth key value state
              let (branches, state) ← walkProperties visit security path depth rest state
              return (.branch (.string key) child branches, state)
        | _, _ => .error .unsafeProperty

def walk (security : ActionHistorySecurityOptions) (heap : Heap) :
    Nat → Value → JsString → Nat → Traversal → Except SnapshotError (Snapshot × Traversal)
  | 0, _, _, _, _ => .error .unfinished
  | fuel + 1, value, path, depth, state => do
      let state ← consume value path depth state
      match value with
      | .primitive value => return (.leaf value, state)
      | .object ref =>
          let visit : Visit := fun value path state => walk security heap fuel value path (depth + 1) state
          match heap ref with
          | .date none => .error .range
          | .date (some time) => return (.leaf (.string (toISOString time)), state)
          | .array array =>
              if ref ∈ state.seen then return (.leaf (.string REDACTED), state)
              else
                let state := { state with seen := ref :: state.seen }
                let (elements, state) ← walkElements visit path array.elements state
                if array.extras.any Property.enumerable then .error .unsafeProperty
                else return (.array array.length elements, state)
          | .plain object =>
              if ref ∈ state.seen then return (.leaf (.string REDACTED), state)
              else
                let state := { state with seen := ref :: state.seen }
                let (properties, state) ←
                  walkProperties toLowerCase visit security path depth object.properties state
                return (.object properties, state)

/-- `sanitizeSnapshot`, cut off after a number of levels. -/
def sanitizeWithin (fuel : Nat) (security : ActionHistorySecurityOptions) (graph : Graph) :
    Except SnapshotError Snapshot :=
  if graph.root = .primitive .undefined then .ok (.leaf .undefined)
  else
    let candidate := (security.redactSnapshot.map (· graph)).getD graph
    (walk toLowerCase security candidate.heap fuel candidate.root [] 0 ⟨0, 0, []⟩).map (·.1)

/-- One level more than the depth that is allowed finds every walk at its end. -/
def sanitizeSnapshot (security : ActionHistorySecurityOptions) (graph : Graph) :
    Except SnapshotError Snapshot :=
  sanitizeWithin toLowerCase (MAX_SNAPSHOT_DEPTH + 2) security graph

end

end SdcoreNest.ActionHistory
