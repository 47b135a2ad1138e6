/-
# Cache.Value -- the values a cache key is made of, and their encoding

`toSafeCacheValue` copies a value of the program into a JSON-like one or refuses it;
`visit` writes the copy as a sequence of bytes.  Two copies are written alike if and only
if they are alike as JSON-like values, the order of object keys apart.
-/
import SdcoreNest.Theory.JsNumber
import SdcoreNest.Theory.Text

namespace SdcoreNest.Cache

open Theory Text

set_option autoImplicit false

/-! ## Values -/

/-- A number with the sign of its zero, which `Object.is` sees. -/
inductive Numeric where
  | negativeZero
  | plain (value : JsNumber)
deriving DecidableEq

namespace Numeric

def isFinite : Numeric → Bool
  | .negativeZero => true
  | .plain value => value.isFinite

/-- How the key writes a number, given `String`. -/
def printed (string : JsNumber → Text) : Numeric → Text
  | .negativeZero => "-0".toList
  | .plain value => string value

end Numeric

/-- What `Object.getPrototypeOf` says of an object. -/
inductive Prototype where
  | objectPrototype
  | null
  | other
deriving DecidableEq

/-- A value of the program, as a walk from it sees it: an object inside itself is the leaf
`enclosing`.  An object has distinct own keys, an unnamed number of symbol keys, and a value
for each key whose property is an enumerable data property. -/
inductive JsValue where
  | undefined
  | null
  | boolean (value : Bool)
  | number (value : Numeric)
  | string (text : Text)
  /-- A function, a symbol or a bigint. -/
  | other
  | enclosing
  | array (length : Nat) (item : Fin length → JsValue)
  | object (prototype : Prototype) (symbols : Bool) (keys : List Text) (distinct : keys.Nodup)
      (isData : Text → Bool) (value : Text → JsValue)

/-- `CacheKeyValue` of `types.ts`, as `toSafeCacheValue` makes it: its numbers are finite. -/
inductive CacheKeyValue where
  | undefined
  | null
  | boolean (value : Bool)
  | number (value : Numeric) (finite : value.isFinite = true)
  | string (text : Text)
  | array (length : Nat) (item : Fin length → CacheKeyValue)
  | record (keys : List Text) (distinct : keys.Nodup) (value : Text → CacheKeyValue)

/-- A record of `CacheKeyValue`s. -/
structure CacheRecord where
  keys : List Text
  distinct : keys.Nodup
  value : Text → CacheKeyValue

def CacheKeyValue.ofRecord (record : CacheRecord) : CacheKeyValue :=
  .record record.keys record.distinct record.value

/-- The frozen copy as a value of the program. -/
def CacheKeyValue.toValue : CacheKeyValue → JsValue
  | .undefined => .undefined
  | .null => .null
  | .boolean value => .boolean value
  | .number value _ => .number value
  | .string text => .string text
  | .array length item => .array length fun i => (item i).toValue
  | .record keys distinct value =>
      .object .objectPrototype false keys distinct (fun _ => true) fun key => (value key).toValue

/-- Equal as JSON-like values, the order of object keys apart. -/
inductive JsValue.Alike : JsValue → JsValue → Prop
  | undefined : Alike .undefined .undefined
  | null : Alike .null .null
  | boolean (value : Bool) : Alike (.boolean value) (.boolean value)
  | number (value : Numeric) : Alike (.number value) (.number value)
  | string (text : Text) : Alike (.string text) (.string text)
  | array {length : Nat} {item other : Fin length → JsValue}
      (items : ∀ i, Alike (item i) (other i)) : Alike (.array length item) (.array length other)
  | object {prototype prototype' : Prototype} {symbols symbols' : Bool} {keys keys' : List Text}
      {distinct : keys.Nodup} {distinct' : keys'.Nodup} {isData isData' : Text → Bool}
      {value value' : Text → JsValue} (sameKeys : keys.Perm keys')
      (values : ∀ key ∈ keys, Alike (value key) (value' key)) :
      Alike (.object prototype symbols keys distinct isData value)
        (.object prototype' symbols' keys' distinct' isData' value')

namespace JsValue.Alike

theorem symm {v w : JsValue} (alike : Alike v w) : Alike w v := by
  induction alike with
  | undefined => exact .undefined
  | null => exact .null
  | boolean value => exact .boolean value
  | number value => exact .number value
  | string text => exact .string text
  | array _ ih => exact .array ih
  | object sameKeys _ ih =>
      exact .object sameKeys.symm fun key member => ih key (sameKeys.mem_iff.mpr member)

theorem trans {u v w : JsValue} (first : Alike u v) (second : Alike v w) : Alike u w := by
  induction first generalizing w with
  | undefined => exact second
  | null => exact second
  | boolean _ => exact second
  | number _ => exact second
  | string _ => exact second
  | array _ ih =>
      cases second with
      | array items => exact .array fun i => ih i (items i)
  | object sameKeys _ ih =>
      cases second with
      | object sameKeys' values =>
          refine .object (sameKeys.trans sameKeys') fun key member => ?_
          exact ih key member (values key (sameKeys.mem_iff.mp member))

end JsValue.Alike

def CacheKeyValue.Alike (value other : CacheKeyValue) : Prop := value.toValue.Alike other.toValue

/-! ## The safe copy -/

def MAX_CACHE_VALUE_DEPTH : Nat := 32

/-- A JSON-like copy of a value at a depth, unless something in it is not JSON-like, lies too
deep or encloses itself. -/
def toSafeCacheValue : JsValue → Nat → Option CacheKeyValue
  | value, depth =>
      if MAX_CACHE_VALUE_DEPTH < depth then none
      else
        match value with
        | .undefined => some .undefined
        | .null => some .null
        | .boolean value => some (.boolean value)
        | .number value =>
            if finite : value.isFinite = true then some (.number value finite) else none
        | .string text => some (.string text)
        | .other => none
        | .enclosing => none
        | .array length item =>
            if ∀ i, (toSafeCacheValue (item i) (depth + 1)).isSome then
              some (.array length fun i =>
                (toSafeCacheValue (item i) (depth + 1)).getD .undefined)
            else none
        | .object prototype symbols keys distinct isData value =>
            if prototype = .other ∨ symbols then none
            else if ∀ key ∈ keys, isData key ∧
                (toSafeCacheValue (value key) (depth + 1)).isSome then
              some (.record (sort keys) (sort_nodup distinct) fun key =>
                (toSafeCacheValue (value key) (depth + 1)).getD .undefined)
            else none

/-- A copy is alike to what it copies. -/
theorem alike_of_safe {value : JsValue} : ∀ {depth : Nat} {safe : CacheKeyValue},
    toSafeCacheValue value depth = some safe → value.Alike safe.toValue := by
  induction value with
  | undefined =>
      intro depth safe copied
      simp only [toSafeCacheValue, Option.ite_none_left_eq_some, Option.some.injEq] at copied
      obtain ⟨-, rfl⟩ := copied
      exact .undefined
  | null =>
      intro depth safe copied
      simp only [toSafeCacheValue, Option.ite_none_left_eq_some, Option.some.injEq] at copied
      obtain ⟨-, rfl⟩ := copied
      exact .null
  | boolean value =>
      intro depth safe copied
      simp only [toSafeCacheValue, Option.ite_none_left_eq_some, Option.some.injEq] at copied
      obtain ⟨-, rfl⟩ := copied
      exact .boolean value
  | number value =>
      intro depth safe copied
      simp only [toSafeCacheValue, Option.ite_none_left_eq_some, Option.dite_none_right_eq_some,
        Option.some.injEq] at copied
      obtain ⟨-, finite, rfl⟩ := copied
      exact .number value
  | string text =>
      intro depth safe copied
      simp only [toSafeCacheValue, Option.ite_none_left_eq_some, Option.some.injEq] at copied
      obtain ⟨-, rfl⟩ := copied
      exact .string text
  | other =>
      intro depth safe copied
      simp [toSafeCacheValue] at copied
  | enclosing =>
      intro depth safe copied
      simp [toSafeCacheValue] at copied
  | array length item ih =>
      intro depth safe copied
      simp only [toSafeCacheValue, Option.ite_none_left_eq_some, Option.ite_none_right_eq_some,
        Option.some.injEq] at copied
      obtain ⟨-, all, rfl⟩ := copied
      refine .array fun i => ?_
      obtain ⟨copy, found⟩ := Option.isSome_iff_exists.mp (all i)
      simpa [found] using ih i found
  | object prototype symbols keys distinct isData value ih =>
      intro depth safe copied
      simp only [toSafeCacheValue, Option.ite_none_left_eq_some, Option.ite_none_right_eq_some,
        Option.some.injEq] at copied
      obtain ⟨-, -, all, rfl⟩ := copied
      refine .object (sort_perm keys).symm fun key member => ?_
      obtain ⟨copy, found⟩ := Option.isSome_iff_exists.mp (all key member).2
      simpa [found] using ih key found

theorem alike_iff_of_safe {value value' : JsValue} {depth depth' : Nat}
    {safe safe' : CacheKeyValue} (copied : toSafeCacheValue value depth = some safe)
    (copied' : toSafeCacheValue value' depth' = some safe') :
    safe.Alike safe' ↔ value.Alike value' := by
  have first := alike_of_safe copied
  have second := alike_of_safe copied'
  constructor
  · intro alike
    exact first.trans (alike.trans second.symm)
  · intro alike
    exact first.symm.trans (alike.trans second)

/-! ## The bytes that are hashed -/

section Encoding

variable (string : JsNumber → Text)

/-- `hash.update` of a literal of the source. -/
def update (literal : String) : List UInt8 := bytes literal.toList

def writeText (marker : String) (text : Text) : List UInt8 :=
  update marker ++ bytes (decimal (bytes text).length) ++ update ":" ++ bytes text

/-- Finite numbers are printed injectively. -/
def PrintsApart : Prop :=
  ∀ n m : Numeric, n.isFinite = true → m.isFinite = true →
    n.printed string = m.printed string → n = m

/-- The bytes of a value. -/
def visit : CacheKeyValue → List UInt8
  | .undefined => update "u;"
  | .null => update "n;"
  | .string text => writeText "s" text
  | .number value _ => writeText "d" (value.printed string)
  | .boolean value => if value then update "b1;" else update "b0;"
  | .array length item =>
      update "a" ++ bytes (decimal length) ++ update "[" ++
        (List.ofFn fun i => visit (item i)).flatten ++ update "]"
  | .record keys _ value =>
      update "o" ++ bytes (decimal (sort keys).length) ++ update "\x7b" ++
        (sort keys).flatMap (fun key => writeText "k" key ++ visit (value key)) ++
        update "\x7d"

theorem writeText_eq (marker : String) (text : Text) :
    writeText marker text = update marker ++ framed text := by
  have colon : update ":" = [58] := by decide
  simp [writeText, framed, colon]

theorem writeText_delimits (marker : String) : Delimits Eq (writeText marker) := by
  intro text other rest others same
  simp only [writeText_eq, List.append_assoc, List.append_cancel_left_eq] at same
  exact framed_delimits text other rest others same

/-- The byte that every encoding of a kind of value starts with. -/
def CacheKeyValue.marker : CacheKeyValue → UInt8
  | .undefined => 117
  | .null => 110
  | .string _ => 115
  | .number _ _ => 100
  | .boolean _ => 98
  | .array _ _ => 97
  | .record _ _ _ => 111

theorem visit_eq_cons (value : CacheKeyValue) :
    ∃ later, visit string value = value.marker :: later := by
  cases value with
  | undefined => exact ⟨_, rfl⟩
  | null => exact ⟨_, rfl⟩
  | boolean value => cases value <;> exact ⟨_, rfl⟩
  | number value finite => exact ⟨_, rfl⟩
  | string text => exact ⟨_, rfl⟩
  | array length item => exact ⟨_, rfl⟩
  | record keys distinct value => exact ⟨_, rfl⟩

theorem marker_eq {value other : CacheKeyValue} {rest others : List UInt8}
    (same : visit string value ++ rest = visit string other ++ others) :
    value.marker = other.marker := by
  obtain ⟨later, first⟩ := visit_eq_cons string value
  obtain ⟨later', second⟩ := visit_eq_cons string other
  rw [first, second] at same
  exact (List.cons.inj same).1

/-- The encoding shows where it ends and says what it encodes. -/
theorem visit_delimits (prints : PrintsApart string) :
    Delimits CacheKeyValue.Alike (visit string) := by
  intro value
  induction value with
  | undefined =>
      intro other rest others same
      cases other <;> try simpa [CacheKeyValue.marker] using marker_eq string same
      exact ⟨.undefined, List.append_cancel_left same⟩
  | null =>
      intro other rest others same
      cases other <;> try simpa [CacheKeyValue.marker] using marker_eq string same
      exact ⟨.null, List.append_cancel_left same⟩
  | boolean value =>
      intro other rest others same
      cases other <;> try simpa [CacheKeyValue.marker] using marker_eq string same
      rename_i other
      cases value <;> cases other
      · exact ⟨.boolean _, List.append_cancel_left same⟩
      · simp [visit, update, bytes, String.utf8EncodeChar] at same
      · simp [visit, update, bytes, String.utf8EncodeChar] at same
      · exact ⟨.boolean _, List.append_cancel_left same⟩
  | number value finite =>
      intro other rest others same
      cases other <;> try simpa [CacheKeyValue.marker] using marker_eq string same
      rename_i other finite'
      obtain ⟨texts, ends⟩ := writeText_delimits "d" _ _ _ _ same
      obtain rfl := prints value other finite finite' texts
      exact ⟨.number value, ends⟩
  | string text =>
      intro other rest others same
      cases other <;> try simpa [CacheKeyValue.marker] using marker_eq string same
      obtain ⟨rfl, ends⟩ := writeText_delimits "s" _ _ _ _ same
      exact ⟨.string text, ends⟩
  | array length item ih =>
      intro other rest others same
      cases other <;> try simpa [CacheKeyValue.marker] using marker_eq string same
      rename_i length' item'
      have bracket : update "[" = [91] := by decide
      simp only [visit, bracket, List.append_assoc, List.append_cancel_left_eq, List.cons_append,
        List.nil_append] at same
      obtain ⟨rfl, tails⟩ := counted_delimits (by decide) same
      obtain ⟨items, ends⟩ := delimits_ofFn ih tails
      exact ⟨.array items, List.append_cancel_left ends⟩
  | record keys distinct value ih =>
      intro other rest others same
      cases other <;> try simpa [CacheKeyValue.marker] using marker_eq string same
      rename_i keys' distinct' value'
      have brace : update "\x7b" = [123] := by decide
      simp only [visit, brace, List.append_assoc, List.append_cancel_left_eq, List.cons_append,
        List.nil_append] at same
      obtain ⟨lengths, tails⟩ := counted_delimits (by decide) same
      obtain ⟨names, values, ends⟩ :=
        delimits_keyed (writeText_delimits "k") lengths ih (by simpa using tails)
      refine ⟨.object (sort_eq_iff.mp names) fun key member => ?_, List.append_cancel_left ends⟩
      exact values key ((sort_perm keys).mem_iff.mpr member)

/-- Values that are alike are written alike. -/
theorem visit_of_alike {value other : CacheKeyValue}
    (alike : value.Alike other) : visit string value = visit string other := by
  induction value generalizing other with
  | undefined =>
      cases other <;> cases alike
      rfl
  | null =>
      cases other <;> cases alike
      rfl
  | boolean value =>
      cases other <;> cases alike
      rfl
  | number value finite =>
      cases other <;> cases alike
      rfl
  | string text =>
      cases other <;> cases alike
      rfl
  | array length item ih =>
      cases other <;> cases alike
      rename_i item' items
      have written : (fun i => visit string (item i)) = fun i => visit string (item' i) := by
        funext i
        exact ih i (items i)
      simp only [visit, written]
  | record keys distinct value ih =>
      cases other <;> cases alike
      rename_i keys' _ value' _ _ sameKeys values
      have sorted := sort_eq_iff.mpr sameKeys
      have written : ∀ key ∈ sort keys', writeText "k" key ++ visit string (value key) =
          writeText "k" key ++ visit string (value' key) := fun key member => by
        rw [← sorted] at member
        rw [ih key (values key ((sort_perm keys).mem_iff.mp member))]
      simp only [visit, sorted, List.flatMap_congr written]

/-- The encoding is injective, the order of object keys apart. -/
theorem visit_eq_iff_alike (prints : PrintsApart string) {value other : CacheKeyValue} :
    visit string value = visit string other ↔ value.Alike other := by
  constructor
  · intro same
    exact (visit_delimits string prints value other [] [] (by rw [same])).1
  · exact visit_of_alike string

end Encoding

end SdcoreNest.Cache
