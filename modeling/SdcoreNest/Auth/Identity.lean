/-
# Auth.Identity -- request identities, and when two of them conflict

An identity is what a principal or a trusted gateway says about a request.  Custom claims
are a record of values of any shape; two records conflict where a common key has values that
`safeIdentityValueEqual` does not accept as equal.
-/
import SdcoreNest.Theory.JsNumber
import Mathlib.Data.Finmap

namespace SdcoreNest.Auth

open SdcoreNest.Theory

set_option autoImplicit false

/-- A value of a custom claim.  `object` is a plain object with data properties only; `other`
is whatever else there is: functions, class instances, objects with accessors or cycles, each
told from the others by its reference. -/
inductive Value where
  | undefined
  | null
  | bool (value : Bool)
  | number (value : JsNumber)
  /-- `-0`, which `Object.is` tells from `0`. -/
  | negativeZero
  | text (value : JsString)
  | array (items : List Value)
  | object (fields : List (JsString × Value))
  | other (reference : Nat)

/-- A `Record<string, unknown>`; the order of its keys is not kept. -/
abbrev Record := Finmap fun _ : JsString => Value

/-- `{ ...left, ...right }`. -/
def Record.spread (left right : Record) : Record := right ∪ left

/-- Claims on top of what a custom bag holds; no claims leave it as it is. -/
def bagWith (bag : Option Record) : Option Record → Option Record
  | some custom => some ((bag.getD ∅).spread custom)
  | none => bag

structure ResolvedContextIdentity where
  userId : JsString
  tenant : Option JsString := none
  roles : Option (List JsString) := none
  permissions : Option (List JsString) := none
  permissionVersion : Option JsString := none
  custom : Option Record := none

/-- What a trusted gateway says. -/
structure PartialIdentity where
  userId : Option JsString
  tenant : Option JsString
  roles : Option (List JsString)
  permissions : Option (List JsString)
  permissionVersion : Option JsString
  custom : Option Record

/-! ## Conflicts -/

/-- The default order of `sort`: by code units. -/
def sorted (texts : List JsString) : List JsString :=
  texts.mergeSort fun left right => !decide (right < left)

/-- `JSON.stringify` of an array of strings. -/
def stringify (texts : List JsString) : JsString :=
  JsString.js "[" ++ (JsString.js ",").intercalate (texts.map JsString.quote) ++ JsString.js "]"

def arraysConflict : Option (List JsString) → Option (List JsString) → Bool
  | some left, some right => stringify (sorted left) ≠ stringify (sorted right)
  | _, _ => false

/-- The first argument counts the levels left: a comparison gives up beyond depth 32. -/
def safeIdentityValueEqual : Nat → Value → Value → Bool
  | 0, _, _ => false
  | _ + 1, .undefined, .undefined => true
  | _ + 1, .null, .null => true
  | _ + 1, .bool left, .bool right => left = right
  | _ + 1, .text left, .text right => left = right
  | _ + 1, .number (.finite left), .number (.finite right) => left = right
  | _ + 1, .negativeZero, .negativeZero => true
  | levels + 1, .array left, .array right =>
      left.length = right.length &&
        (left.zip right).all fun (x, y) => safeIdentityValueEqual levels x y
  | levels + 1, .object left, .object right =>
      sorted (left.map Prod.fst) = sorted (right.map Prod.fst) &&
        left.all fun (key, x) => (right.lookup key).any fun y => safeIdentityValueEqual levels x y
  | _ + 1, _, _ => false

def customConflict : Option Record → Option Record → Bool
  | some left, some right => left.any fun key x =>
      (right.lookup key).any fun y => !safeIdentityValueEqual 33 x y
  | _, _ => false

/-- Two values that are both given and differ. -/
def scalarConflict : Option JsString → Option JsString → Bool
  | some left, some right => left ≠ right
  | _, _ => false

def hasConflict (trusted : PartialIdentity) (verified : ResolvedContextIdentity) : Bool :=
  scalarConflict trusted.userId (some verified.userId) ||
    scalarConflict trusted.tenant verified.tenant ||
    scalarConflict trusted.permissionVersion verified.permissionVersion ||
    arraysConflict trusted.roles verified.roles ||
    arraysConflict trusted.permissions verified.permissions ||
    customConflict trusted.custom verified.custom

end SdcoreNest.Auth
