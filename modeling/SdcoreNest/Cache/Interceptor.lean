/-
# Cache.Interceptor -- which calls share a cache entry

`buildKey` names a class, a method, a security namespace and the business material of a
call.  Two calls get one key if and only if they agree on all four; a call without the
identity that its scope asks for gets none.
-/
import SdcoreNest.Cache.Value
import Mathlib.Logic.Encodable.Basic

namespace SdcoreNest.Cache

open Theory Text

set_option autoImplicit false

/-! ## Calls -/

inductive CacheScope where
  | global
  | tenant
  | user
deriving DecidableEq

def CacheScope.text : CacheScope → Text
  | .global => "global".toList
  | .tenant => "tenant".toList
  | .user => "user".toList

/-- `CacheHttpRequestDescriptor` of `types.ts`. -/
structure CacheHttpRequestDescriptor where
  method : Text
  url : Text
  path : Text
  params : CacheRecord
  query : CacheRecord
  body : CacheKeyValue

/-- The descriptor as a value of the program. -/
def CacheHttpRequestDescriptor.toValue (request : CacheHttpRequestDescriptor) : JsValue :=
  .object .objectPrototype false
    ["method".toList, "url".toList, "path".toList, "params".toList, "query".toList,
      "body".toList] (by decide) (fun _ => true) fun key =>
    if key = "method".toList then .string request.method
    else if key = "url".toList then .string request.url
    else if key = "path".toList then .string request.path
    else if key = "params".toList then (CacheKeyValue.ofRecord request.params).toValue
    else if key = "query".toList then (CacheKeyValue.ofRecord request.query).toValue
    else request.body.toValue

/-- `CachedOptions`, less the time to live.  `scope` is absent when it is none of the three
scopes; a resolver may throw. -/
structure CachedOptions where
  scope : Option CacheScope
  keyResolver : Option (CacheHttpRequestDescriptor → Text → Except Unit JsValue)

/-- The store of the request context, an object. -/
structure RequestContext where
  prototype : Prototype
  symbols : Bool
  keys : List Text
  distinct : keys.Nodup
  isData : Text → Bool
  value : Text → JsValue

/-- What `buildKey` is given. -/
structure Call where
  className : Text
  methodName : Text
  request : CacheHttpRequestDescriptor
  opts : CachedOptions
  context : Option RequestContext

/-! ## The scope material -/

def VOLATILE_CONTEXT_KEYS : List Text :=
  ["request".toList, "response".toList, "token".toList, "user".toList]

/-- The keys that the loop over the context skips. -/
def skips (scope : CacheScope) (key : Text) : Bool :=
  key ∈ VOLATILE_CONTEXT_KEYS || (scope = .tenant && key = "userId".toList)

def JsValue.text? : JsValue → Option Text
  | .string text => some text
  | _ => none

/-- The texts of an array that has only strings. -/
def JsValue.strings? : JsValue → Option (List Text)
  | .array _ item =>
      if ∀ i, (item i).text?.isSome then some (List.ofFn fun i => (item i).text?.getD [])
      else none
  | _ => none

def JsValue.ofTexts (texts : List Text) : JsValue :=
  .array texts.length fun i => .string (texts.get i)

/-- The fields whose order does not matter. -/
def isUnordered (key : Text) : Bool := key = "roles".toList || key = "permissions".toList

/-- Roles and permissions are sorted when they are all strings. -/
def selectedValue (key : Text) (value : JsValue) : JsValue :=
  if isUnordered key then
    match value.strings? with
    | some texts => .ofTexts (sort texts)
    | none => value
  else value

/-- The keys that the loop keeps, in its order. -/
def selectedKeys (scope : CacheScope) (context : RequestContext) : List Text :=
  (sort context.keys).filter fun key => !skips scope key

theorem selectedKeys_nodup (scope : CacheScope) (context : RequestContext) :
    (selectedKeys scope context).Nodup :=
  (sort_nodup context.distinct).filter _

/-- The object that the loop fills. -/
def selected (scope : CacheScope) (context : RequestContext) : JsValue :=
  .object .null false (selectedKeys scope context) (selectedKeys_nodup scope context)
    (fun _ => true) fun key => selectedValue key (context.value key)

/-- A field of a record, when it is a string. -/
def CacheKeyValue.textField (name : Text) : CacheKeyValue → Option Text
  | .record keys _ value =>
      if name ∈ keys then
        match value name with
        | .string text => some text
        | _ => none
      else none
  | _ => none

def isBlank (text : Text) : Bool := (JsString.trim (units text)).length = 0

/-- The field is a string with something in it. -/
def named (safe : CacheKeyValue) (name : String) : Bool :=
  (safe.textField name.toList).any fun text => !isBlank text

def globalMaterial : CacheKeyValue :=
  .record ["scope".toList] (by decide) fun _ => .string CacheScope.global.text

def scopedMaterial (scope : CacheScope) (context : CacheKeyValue) : CacheKeyValue :=
  .record ["scope".toList, "context".toList] (by decide) fun key =>
    if key = "scope".toList then .string scope.text else context

def buildScopeMaterial (scope : CacheScope) (context : Option RequestContext) :
    Option CacheKeyValue :=
  if scope = .global then some globalMaterial
  else
    match context with
    | none => none
    | some context =>
        if context.prototype = .other ∨ context.symbols then none
        else if ¬ ∀ key ∈ selectedKeys scope context, context.isData key then none
        else
          match toSafeCacheValue (selected scope context) 0 with
          | none => none
          | some safe =>
              if !named safe "tenant" then none
              else if scope = .user && !named safe "userId" then none
              else some (scopedMaterial scope safe)

/-! ## The key -/

/-- What the key resolver selects, or the descriptor. -/
def Call.businessMaterial (call : Call) : Option JsValue :=
  match call.opts.keyResolver with
  | some resolve => (resolve call.request call.methodName).toOption
  | none => some call.request.toValue

section Key

variable (digest : List UInt8 → Text) (string : JsNumber → Text)

def sha256 (value : CacheKeyValue) : Text := digest (visit string value)

def buildKey (call : Call) : Option Text := do
  let scope ← call.opts.scope
  let safeScopeMaterial ← buildScopeMaterial scope call.context
  let businessMaterial ← call.businessMaterial
  let safeBusinessMaterial ← toSafeCacheValue businessMaterial 0
  return call.className ++ '.' :: (call.methodName ++ ':' ::
    (sha256 digest string safeScopeMaterial ++ ':' :: sha256 digest string safeBusinessMaterial))

end Key

/-! ## What two calls agree on -/

/-- Two values of a context field: roles and permissions that are all strings agree as
multisets. -/
def FieldAgrees (key : Text) (value value' : JsValue) : Prop :=
  value.Alike value' ∨ isUnordered key = true ∧
    ∃ texts texts', value.strings? = some texts ∧ value'.strings? = some texts' ∧
      texts.Perm texts'

/-- Two contexts have the same fields, as far as the scope looks at them. -/
def ContextAgrees (scope : CacheScope) (context other : RequestContext) : Prop :=
  (∀ key, skips scope key = false → (key ∈ context.keys ↔ key ∈ other.keys)) ∧
    ∀ key ∈ context.keys, skips scope key = false →
      FieldAgrees key (context.value key) (other.value key)

/-- Two calls agree on everything that separates cache entries. -/
structure Call.Agrees (call other : Call) : Prop where
  className : call.className = other.className
  methodName : call.methodName = other.methodName
  scope : call.opts.scope = other.opts.scope
  context : ∀ scope context context', call.opts.scope = some scope → scope ≠ .global →
    call.context = some context → other.context = some context' →
    ContextAgrees scope context context'
  business : ∀ value value', call.businessMaterial = some value →
    other.businessMaterial = some value' → value.Alike value'

/-- The field of the context is a string with something in it. -/
def RequestContext.Names (context : RequestContext) (name : String) : Prop :=
  name.toList ∈ context.keys ∧
    ∃ text, context.value name.toList = .string text ∧ isBlank text = false

/-- The context has the identity that the scope asks for. -/
def Call.Identified (call : Call) : Prop :=
  (call.opts.scope = some .tenant ∨ call.opts.scope = some .user →
    ∃ context, call.context = some context ∧ context.Names "tenant") ∧
  (call.opts.scope = some .user → ∃ context, call.context = some context ∧ context.Names "userId")

/-! ## The context in the key -/

theorem text?_of_alike {value value' : JsValue} (alike : value.Alike value') :
    value.text? = value'.text? := by
  cases alike <;> rfl

theorem strings?_of_alike {value value' : JsValue} (alike : value.Alike value') :
    value.strings? = value'.strings? := by
  cases alike with
  | array items =>
      have texts := funext fun i => text?_of_alike (items i)
      simp only [JsValue.strings?, congrFun texts]
  | _ => rfl

@[simp] theorem strings?_ofTexts (texts : List Text) :
    (JsValue.ofTexts texts).strings? = some texts := by
  simp [JsValue.strings?, JsValue.ofTexts, JsValue.text?]

theorem ofTexts_alike_iff {texts others : List Text} :
    (JsValue.ofTexts texts).Alike (.ofTexts others) ↔ texts = others := by
  constructor
  · intro alike
    simpa using strings?_of_alike alike
  · rintro rfl
    exact .array fun i => .string _

/-- Sorting the roles makes them a multiset. -/
theorem selectedValue_alike_iff {key : Text} {value value' : JsValue} :
    (selectedValue key value).Alike (selectedValue key value') ↔ FieldAgrees key value value' := by
  by_cases listed : isUnordered key = true
  · simp only [selectedValue, FieldAgrees, listed, if_true, true_and]
    cases first : value.strings? with
    | none =>
        cases second : value'.strings? with
        | none => simp
        | some texts' =>
            have apart : ∀ w : JsValue, w.strings? = some (sort texts') ∨ w.strings? = some texts' →
                ¬ value.Alike w := by
              rintro w (read | read) alike <;>
                simp [← strings?_of_alike alike, first] at read
            simp [apart _ (.inl (strings?_ofTexts _)), apart _ (.inr second)]
    | some texts =>
        cases second : value'.strings? with
        | none =>
            have apart : ∀ w : JsValue, w.strings? = some (sort texts) ∨ w.strings? = some texts →
                ¬ w.Alike value' := by
              rintro w (read | read) alike <;>
                simp [strings?_of_alike alike, second] at read
            simp [apart _ (.inl (strings?_ofTexts _)), apart _ (.inr first)]
        | some texts' =>
            simp only [ofTexts_alike_iff, sort_eq_iff, Option.some.injEq, exists_and_left,
              exists_eq_left']
            constructor
            · exact .inr
            · rintro (alike | perm)
              · have same := strings?_of_alike alike
                rw [first, second, Option.some.injEq] at same
                rw [same]
              · exact perm
  · simp [selectedValue, FieldAgrees, listed]

theorem mem_selectedKeys {scope : CacheScope} {context : RequestContext} {key : Text} :
    key ∈ selectedKeys scope context ↔ key ∈ context.keys ∧ skips scope key = false := by
  simp [selectedKeys, (sort_perm context.keys).mem_iff]

theorem selected_alike_iff {scope : CacheScope} {context other : RequestContext} :
    (selected scope context).Alike (selected scope other) ↔ ContextAgrees scope context other := by
  constructor
  · intro alike
    cases alike with
    | object sameKeys values =>
        refine ⟨fun key kept => ?_, fun key member kept => ?_⟩
        · simpa [mem_selectedKeys, kept] using sameKeys.mem_iff (a := key)
        · exact selectedValue_alike_iff.mp (values key (mem_selectedKeys.mpr ⟨member, kept⟩))
  · rintro ⟨fields, values⟩
    refine .object ?_ fun key member => ?_
    · refine (List.perm_ext_iff_of_nodup (selectedKeys_nodup _ _) (selectedKeys_nodup _ _)).mpr ?_
      intro key
      simp only [mem_selectedKeys]
      constructor
      · rintro ⟨member, kept⟩
        exact ⟨(fields key kept).mp member, kept⟩
      · rintro ⟨member, kept⟩
        exact ⟨(fields key kept).mpr member, kept⟩
    · obtain ⟨member, kept⟩ := mem_selectedKeys.mp member
      exact selectedValue_alike_iff.mpr (values key member kept)

/-! ## The scope in the key -/

theorem not_global_alike_scoped {scope : CacheScope} {context : CacheKeyValue} :
    ¬ globalMaterial.Alike (scopedMaterial scope context) := by
  intro alike
  cases alike with
  | object sameKeys _ => simpa using sameKeys.length_eq

theorem scopedMaterial_alike_iff {scope scope' : CacheScope} {context context' : CacheKeyValue} :
    (scopedMaterial scope context).Alike (scopedMaterial scope' context') ↔
      scope = scope' ∧ context.Alike context' := by
  constructor
  · intro alike
    cases alike with
    | object _ values =>
        have scopes := values "scope".toList (by simp)
        have contexts := values "context".toList (by simp)
        refine ⟨?_, contexts⟩
        have texts : some scope.text = some scope'.text := text?_of_alike scopes
        revert texts
        cases scope <;> cases scope' <;> decide
  · rintro ⟨rfl, contexts⟩
    refine .object (.refl _) fun key member => ?_
    rcases List.mem_cons.mp member with rfl | member
    · exact .string _
    · obtain rfl := List.mem_singleton.mp member
      exact contexts

/-- What it takes to have a namespace other than the global one. -/
theorem buildScopeMaterial_eq {scope : CacheScope} {context : Option RequestContext}
    {material : CacheKeyValue} (built : buildScopeMaterial scope context = some material) :
    scope = .global ∧ material = globalMaterial ∨
      scope ≠ .global ∧ ∃ store safe, context = some store ∧
        toSafeCacheValue (selected scope store) 0 = some safe ∧
        named safe "tenant" = true ∧ (scope = .user → named safe "userId" = true) ∧
        material = scopedMaterial scope safe := by
  by_cases isGlobal : scope = .global
  · simp only [buildScopeMaterial, isGlobal, if_true, Option.some.injEq] at built
    exact .inl ⟨isGlobal, built.symm⟩
  · cases context with
    | none => simp [buildScopeMaterial, isGlobal] at built
    | some store =>
        simp only [buildScopeMaterial, isGlobal, if_false] at built
        split at built
        · cases built
        split at built
        · cases built
        split at built
        · cases built
        rename_i safe copied
        split at built
        · cases built
        rename_i tenant
        split at built
        · cases built
        rename_i userId
        refine .inr ⟨isGlobal, store, safe, rfl, copied, by simpa using tenant, ?_, ?_⟩
        · intro isUser
          simpa [isUser] using userId
        · exact (Option.some.inj built).symm

theorem scopeMaterial_alike_iff {scope scope' : CacheScope}
    {context context' : Option RequestContext} {material material' : CacheKeyValue}
    (built : buildScopeMaterial scope context = some material)
    (built' : buildScopeMaterial scope' context' = some material') :
    material.Alike material' ↔ scope = scope' ∧ ∀ store store', scope ≠ .global →
      context = some store → context' = some store' → ContextAgrees scope store store' := by
  rcases buildScopeMaterial_eq built with ⟨rfl, rfl⟩ | ⟨chosen, store, safe, rfl, copied, -, -, rfl⟩
  · rcases buildScopeMaterial_eq built' with ⟨rfl, rfl⟩ | ⟨chosen', _, safe', -, -, -, -, rfl⟩
    · refine iff_of_true (.object (.refl _) fun _ _ => .string _) ⟨rfl, ?_⟩
      exact fun _ _ wrong => absurd rfl wrong
    · refine iff_of_false not_global_alike_scoped ?_
      rintro ⟨rfl, -⟩
      exact chosen' rfl
  · rcases buildScopeMaterial_eq built' with ⟨rfl, rfl⟩ | ⟨-, store', safe', rfl, copied', -, -, rfl⟩
    · refine iff_of_false (fun alike => not_global_alike_scoped alike.symm) ?_
      rintro ⟨rfl, -⟩
      exact chosen rfl
    · rw [scopedMaterial_alike_iff]
      constructor
      · rintro ⟨rfl, alike⟩
        refine ⟨rfl, ?_⟩
        rintro _ _ - ⟨⟩ ⟨⟩
        exact selected_alike_iff.mp ((alike_iff_of_safe copied copied').mp alike)
      · rintro ⟨rfl, agrees⟩
        refine ⟨rfl, (alike_iff_of_safe copied copied').mpr ?_⟩
        exact selected_alike_iff.mpr (agrees store store' chosen rfl rfl)

/-- A string in the copy of a context is the string in the context. -/
theorem names_of_named {scope : CacheScope} {store : RequestContext} {safe : CacheKeyValue}
    {name : String} (copied : toSafeCacheValue (selected scope store) 0 = some safe)
    (ordered : isUnordered name.toList = false) (present : named safe name = true) :
    store.Names name := by
  simp only [toSafeCacheValue, selected, Option.ite_none_left_eq_some,
    Option.ite_none_right_eq_some, Option.some.injEq] at copied
  obtain ⟨-, -, all, rfl⟩ := copied
  simp only [named, CacheKeyValue.textField] at present
  by_cases member : name.toList ∈ sort (selectedKeys scope store)
  · rw [if_pos member] at present
    have inside := (sort_perm _).mem_iff.mp member
    obtain ⟨copy, found⟩ := Option.isSome_iff_exists.mp (all _ inside).2
    have original := text?_of_alike (alike_of_safe found)
    simp only [selectedValue, ordered, Bool.false_eq_true, if_false] at original found
    simp only [selectedValue, ordered, Bool.false_eq_true, if_false, Nat.zero_add, found,
      Option.getD_some] at present
    cases copy with
    | string text =>
        refine ⟨(mem_selectedKeys.mp inside).1, text, ?_, by simpa using present⟩
        generalize store.value name.toList = value at original
        cases value <;> simp_all [JsValue.text?, CacheKeyValue.toValue]
    | _ => simp at present
  · simp [member] at present

/-! ## Which calls share a key -/

section Isolation

variable (digest : List UInt8 → Text) (string : JsNumber → Text)

theorem buildKey_eq {call : Call} {key : Text} (built : buildKey digest string call = some key) :
    ∃ scope material value safe, call.opts.scope = some scope ∧
      buildScopeMaterial scope call.context = some material ∧
      call.businessMaterial = some value ∧ toSafeCacheValue value 0 = some safe ∧
      key = call.className ++ '.' :: (call.methodName ++ ':' ::
        (sha256 digest string material ++ ':' :: sha256 digest string safe)) := by
  simp only [buildKey, bind, Option.bind_eq_some_iff] at built
  obtain ⟨scope, chosen, material, built, value, business, safe, copied, rest⟩ := built
  exact ⟨scope, material, value, safe, chosen, built, business, copied,
    (Option.some.inj rest).symm⟩

/-- SHA-256 in hexadecimal, taken as injective. -/
structure Hashing : Prop where
  injective : Function.Injective digest
  hexadecimal : ∀ message, ∀ c ∈ digest message, c ∈ "0123456789abcdef".toList

variable {digest string}

theorem Hashing.no_colon (hashing : Hashing digest) (message : List UInt8) :
    ':' ∉ digest message := fun inside =>
  absurd (hashing.hexadecimal message ':' inside) (by decide)

/-- A key can be taken apart again. -/
theorem key_inj (hashing : Hashing digest) {className className' methodName methodName' : Text}
    {first first' second second' : List UInt8} (dotless : '.' ∉ className)
    (dotless' : '.' ∉ className') :
    className ++ '.' :: (methodName ++ ':' :: (digest first ++ ':' :: digest second)) =
        className' ++ '.' :: (methodName' ++ ':' :: (digest first' ++ ':' :: digest second')) ↔
      className = className' ∧ methodName = methodName' ∧ first = first' ∧ second = second' := by
  constructor
  · intro same
    obtain ⟨rfl, afterClass⟩ := append_mark_inj dotless dotless' same
    have lastColon : (methodName ++ ':' :: digest first) ++ ':' :: digest second =
        (methodName' ++ ':' :: digest first') ++ ':' :: digest second' := by
      simpa using afterClass
    obtain ⟨front, seconds⟩ :=
      mark_append_inj (hashing.no_colon _) (hashing.no_colon _) lastColon
    obtain ⟨rfl, firsts⟩ := mark_append_inj (hashing.no_colon _) (hashing.no_colon _) front
    exact ⟨rfl, rfl, hashing.injective firsts, hashing.injective seconds⟩
  · rintro ⟨rfl, rfl, rfl, rfl⟩
    rfl

theorem keys_eq_iff (hashing : Hashing digest) (prints : PrintsApart string) {call other : Call}
    {key key' : Text} (dotless : '.' ∉ call.className) (dotless' : '.' ∉ other.className)
    (built : buildKey digest string call = some key)
    (built' : buildKey digest string other = some key') : key = key' ↔ call.Agrees other := by
  obtain ⟨scope, material, value, safe, chosen, context, business, copied, rfl⟩ :=
    buildKey_eq digest string built
  obtain ⟨scope', material', value', safe', chosen', context', business', copied', rfl⟩ :=
    buildKey_eq digest string built'
  simp only [sha256, key_inj hashing dotless dotless', visit_eq_iff_alike string prints,
    scopeMaterial_alike_iff context context', alike_iff_of_safe copied copied']
  constructor
  · rintro ⟨classes, methods, ⟨rfl, contexts⟩, alike⟩
    refine ⟨classes, methods, by rw [chosen, chosen'], ?_, ?_⟩
    · intro wanted store store' is scopedBy found found'
      obtain rfl := Option.some.inj (chosen.symm.trans is)
      exact contexts store store' scopedBy found found'
    · intro v v' is is'
      obtain rfl := Option.some.inj (business.symm.trans is)
      obtain rfl := Option.some.inj (business'.symm.trans is')
      exact alike
  · intro agrees
    have scopes : scope = scope' :=
      Option.some.inj (chosen.symm.trans (agrees.scope.trans chosen'))
    refine ⟨agrees.className, agrees.methodName, ⟨scopes, ?_⟩, ?_⟩
    · exact fun store store' scopedBy => agrees.context scope store store' chosen scopedBy
    · exact agrees.business value value' business business'

theorem identified_of_built {call : Call} {key : Text}
    (built : buildKey digest string call = some key) : call.Identified := by
  obtain ⟨scope, material, value, safe, chosen, context, -, -, -⟩ := buildKey_eq digest string built
  rcases buildScopeMaterial_eq context with ⟨rfl, -⟩ | ⟨-, store, safe, found, copied, tenant, user, -⟩
  · simp [Call.Identified, chosen]
  · refine ⟨fun _ => ⟨store, found, names_of_named copied (by decide) tenant⟩, fun isUser => ?_⟩
    obtain rfl := Option.some.inj (chosen.symm.trans isUser)
    exact ⟨store, found, names_of_named copied (by decide) (user rfl)⟩

/-- **Cache keys isolate exactly.**  Two calls have one key if and only if they agree; the
encoding of the material is injective; a call without the identity that its scope asks for
has no key. -/
theorem cache_keys_isolate (hashing : Hashing digest) (prints : PrintsApart string) :
    (∀ (call other : Call) (key key' : Text), '.' ∉ call.className → '.' ∉ other.className →
      buildKey digest string call = some key → buildKey digest string other = some key' →
      (key = key' ↔ call.Agrees other)) ∧
    (∀ value value' : CacheKeyValue,
      visit string value = visit string value' ↔ value.Alike value') ∧
    ∀ call : Call, ¬ call.Identified → buildKey digest string call = none := by
  refine ⟨?_, ?_, ?_⟩
  · intro call other key key' dotless dotless' built built'
    exact keys_eq_iff hashing prints dotless dotless' built built'
  · intro value value'
    exact visit_eq_iff_alike string prints
  · intro call anonymous
    cases built : buildKey digest string call with
    | none => rfl
    | some key => exact absurd (identified_of_built built) anonymous

end Isolation

/-! ## Two calls that share an entry -/

/-- Natural numbers as `String` prints them. -/
def smallString : JsNumber → Text
  | .finite value =>
      if value.den = 1 ∧ 0 ≤ value.num then decimal value.num.toNat
      else '_' :: decimal (Encodable.encode (value.num, value.den))
  | _ => []

theorem not_mem_decimal {n : Nat} {c : Char} (nondigit : c.isDigit = false) : c ∉ decimal n :=
  fun inside => by
    have digit := Nat.isDigit_of_mem_toDigits (by omega) (by omega) inside
    simp [nondigit] at digit

theorem not_mem_smallString (value : JsNumber) : '-' ∉ smallString value := by
  cases value with
  | finite value =>
      simp only [smallString]
      split
      · exact not_mem_decimal (by decide)
      · simpa using not_mem_decimal (by decide)
  | infinity negative => simp [smallString]
  | nan => simp [smallString]

theorem smallString_injective {value value' : ℚ}
    (same : smallString (.finite value) = smallString (.finite value')) : value = value' := by
  simp only [smallString] at same
  split at same <;> split at same
  · rename_i natural natural'
    have numerators := decimal_injective same
    exact Rat.ext (by omega) (by omega)
  · exact absurd (same ▸ List.mem_cons_self) (not_mem_decimal (by decide))
  · exact absurd (same ▸ List.mem_cons_self) (not_mem_decimal (by decide))
  · have codes := decimal_injective (List.cons.inj same).2
    obtain ⟨numerators, denominators⟩ := Prod.mk.inj (Encodable.encode_injective codes)
    exact Rat.ext numerators denominators

theorem smallString_apart : PrintsApart smallString := by
  have minus : '-' ∈ "-0".toList := by decide
  intro n m finite finite' same
  cases n with
  | negativeZero =>
      cases m with
      | negativeZero => rfl
      | plain value' =>
          have printed : "-0".toList = smallString value' := same
          exact absurd (printed ▸ minus) (not_mem_smallString value')
  | plain value =>
      cases m with
      | negativeZero =>
          have printed : smallString value = "-0".toList := same
          exact absurd (printed ▸ minus) (not_mem_smallString value)
      | plain value' =>
          cases value <;> cases value' <;> try simp [Numeric.isFinite, JsNumber.isFinite] at *
          exact smallString_injective same

def hexCharacter (n : Nat) : Char := "0123456789abcdef".toList.getD n '0'

def hexByte (byte : UInt8) : Text := [hexCharacter (byte.toNat / 16), hexCharacter (byte.toNat % 16)]

/-- The material of the namespace of the two calls. -/
def smallScopeBytes : List UInt8 :=
  update "o2\x7bk7:contexto2\x7bk5:rolesa2[s6:editors6:viewer]k6:tenants2:t1\x7dk5:scopes6:tenant\x7d"

/-- SHA-256 on the two messages that are hashed below. -/
def smallDigest (message : List UInt8) : Text :=
  if message = smallScopeBytes then
    "023e77b733fbbbea5b2c14962b490b3b67c827237ddce608fefff8a20a448324".toList
  else if message = update "d1:7" then
    "356fe2d7bed7fdf0579b611cb5911ba615e3999ecadcba4a6af03b5b98e97fe1".toList
  else '0' :: message.flatMap hexByte

theorem hexCharacter_mem (n : Nat) : hexCharacter n ∈ "0123456789abcdef".toList := by
  by_cases small : n < 16
  · have all : ∀ i : Fin 16, hexCharacter i ∈ "0123456789abcdef".toList := by decide
    exact all ⟨n, small⟩
  · have beyond : hexCharacter n = '0' := by
      simp only [hexCharacter, List.getD_eq_getElem?_getD]
      rw [List.getElem?_eq_none (by simpa using small)]
      rfl
    rw [beyond]
    decide

theorem hexByte_delimits : Delimits Eq hexByte := by
  have apart : ∀ i j : Fin 16, hexCharacter i = hexCharacter j → i = j := by decide
  intro byte byte' rest others same
  simp only [hexByte, List.cons_append, List.nil_append, List.cons.injEq] at same
  obtain ⟨high, low, ends⟩ := same
  have range := byte.toNat_lt
  have range' := byte'.toNat_lt
  have highs := congrArg Fin.val
    (apart ⟨byte.toNat / 16, by omega⟩ ⟨byte'.toNat / 16, by omega⟩ high)
  have lows := congrArg Fin.val
    (apart ⟨byte.toNat % 16, by omega⟩ ⟨byte'.toNat % 16, by omega⟩ low)
  simp only at highs lows
  exact ⟨UInt8.toNat.inj (by omega), ends⟩

/-- Every other message is written out at odd length. -/
theorem ne_hexadecimal {text : Text} (even : text.length % 2 = 0) (message : List UInt8) :
    text ≠ '0' :: message.flatMap hexByte := by
  rintro rfl
  have pairs : (message.flatMap hexByte).length = message.length * 2 := by
    simp [List.length_flatMap, hexByte]
  rw [List.length_cons, pairs] at even
  omega

theorem smallDigest_hashing : Hashing smallDigest where
  injective := by
    intro message message' same
    simp only [smallDigest] at same
    split at same
    · rename_i first
      split at same
      · rename_i second
        exact first.trans second.symm
      split at same
      · exact absurd same (by decide)
      · exact absurd same (ne_hexadecimal (by decide) _)
    split at same
    · rename_i first
      split at same
      · exact absurd same (by decide)
      split at same
      · rename_i second
        exact first.trans second.symm
      · exact absurd same (ne_hexadecimal (by decide) _)
    · split at same
      · exact absurd same.symm (ne_hexadecimal (by decide) _)
      split at same
      · exact absurd same.symm (ne_hexadecimal (by decide) _)
      · exact hexByte_delimits.flatMap_injective (by simp [hexByte]) (List.cons.inj same).2
  hexadecimal := by
    intro message c inside
    simp only [smallDigest] at inside
    split at inside
    · exact List.forall_iff_forall_mem.mp (by decide) c inside
    split at inside
    · exact List.forall_iff_forall_mem.mp (by decide) c inside
    · rcases List.mem_cons.mp inside with rfl | inside
      · decide
      · obtain ⟨byte, -, written⟩ := List.mem_flatMap.mp inside
        simp only [hexByte, List.mem_cons, List.not_mem_nil, or_false] at written
        rcases written with rfl | rfl <;> exact hexCharacter_mem _

def smallContext (roles : List String) : RequestContext where
  prototype := .objectPrototype
  symbols := false
  keys := ["tenant".toList, "userId".toList, "roles".toList]
  distinct := by decide
  isData := fun _ => true
  value := fun key =>
    if key = "tenant".toList then .string "t1".toList
    else if key = "userId".toList then .string "u1".toList
    else .ofTexts (roles.map String.toList)

def smallCall (roles : List String) : Call where
  className := "TestService".toList
  methodName := "tenant".toList
  request :=
    { method := "GET".toList
      url := "/tenant".toList
      path := "/tenant".toList
      params := ⟨[], .nil, fun _ => .undefined⟩
      query := ⟨[], .nil, fun _ => .undefined⟩
      body := .undefined }
  opts := ⟨some .tenant, some fun _ _ => .ok (.number (.plain (.finite 7)))⟩
  context := some (smallContext roles)

theorem cache_keys_isolate_reordered : ∃ key,
    buildKey smallDigest smallString (smallCall ["viewer", "editor"]) = some key ∧
    buildKey smallDigest smallString (smallCall ["editor", "viewer"]) = some key ∧
    (smallCall ["viewer", "editor"]).Agrees (smallCall ["editor", "viewer"]) := by
  have first : buildKey smallDigest smallString (smallCall ["viewer", "editor"]) =
      buildKey smallDigest smallString (smallCall ["editor", "viewer"]) := by
    decide +kernel
  obtain ⟨key, built⟩ := Option.isSome_iff_exists.mp
    (show (buildKey smallDigest smallString (smallCall ["editor", "viewer"])).isSome = true by
      decide +kernel)
  refine ⟨key, first.trans built, built, ?_⟩
  exact ((cache_keys_isolate smallDigest_hashing smallString_apart).1 _ _ key key (by decide)
    (by decide) (first.trans built) built).mp rfl

end SdcoreNest.Cache
