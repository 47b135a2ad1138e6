/-
# I18n.LanguageResolver -- the locale of a request

`DefaultLanguageResolver.resolve` splits an `Accept-Language` header into tags with weights,
sorts them and takes the first base code that is supported.
-/
import SdcoreNest.Theory.Encoding
import SdcoreNest.Theory.ParseFloat
import Mathlib.Data.List.Sort

namespace SdcoreNest.I18n

open SdcoreNest.Theory SdcoreNest.Theory.JsString

set_option autoImplicit false

/-! ## Splitting at a text -/

/-- The text before the first occurrence of a separator, and the text after it, if it occurs. -/
def cut (separator : JsString) : JsString → JsString × Option JsString
  | [] => ([], none)
  | u :: rest =>
      if separator.isPrefixOf (u :: rest) then ([], some ((u :: rest).drop separator.length))
      else (u :: (cut separator rest).1, (cut separator rest).2)

/-- `const [first, second] = text.split(separator)` -/
def splitPair (separator text : JsString) : JsString × Option JsString :=
  ((cut separator text).1, (cut separator text).2.map fun rest => (cut separator rest).1)

/-! ## The resolver -/

structure LanguageResolverOptions where
  supported : List JsString
  fallback : JsString

/-- One entry of `ranked`. -/
structure Ranked where
  base : JsString
  weight : JsNumber
deriving DecidableEq

section

variable (toLowerCase : JsString → JsString)

def rankedPart (part : JsString) : Ranked :=
  let (tag, q) := splitPair (js ";q=") (trim part)
  let weight := q.elim (.finite 1) JsNumber.parseFloat
  { base := toLowerCase (trim (before 0x2D tag))
    weight := if weight = .nan then .finite 0 else weight }

/-- The comparator `(a, b) => b.weight - a.weight` leaves `a` before `b`. -/
def staysBefore (a b : Ranked) : Prop := JsNumber.lt (.finite 0) (JsNumber.sub b.weight a.weight) = false

instance (a b : Ranked) : Decidable (staysBefore a b) := inferInstanceAs (Decidable (_ = _))

def ranked (raw : JsString) : List Ranked :=
  (((splitOn 0x2C raw).map (rankedPart toLowerCase)).filter fun t => t.base ≠ []).insertionSort staysBefore

def resolve (opts : LanguageResolverOptions) (raw : Option JsString) : JsString :=
  match raw with
  | none => opts.fallback
  | some raw =>
      if raw = [] then opts.fallback
      else
        match (ranked toLowerCase raw).find? fun t => opts.supported.contains t.base with
        | some t => t.base
        | none => opts.fallback

theorem resolve_some {opts : LanguageResolverOptions} {raw : JsString} (nonempty : raw ≠ []) :
    resolve toLowerCase opts (some raw) =
      (((ranked toLowerCase raw).find? fun t => opts.supported.contains t.base).map Ranked.base).getD
        opts.fallback := by
  simp only [resolve, if_neg nonempty]
  cases (ranked toLowerCase raw).find? fun t => opts.supported.contains t.base <;> rfl

end

end SdcoreNest.I18n
