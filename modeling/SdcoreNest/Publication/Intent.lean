/-
# Publication.Intent -- publication intents and what `verify` accepts

An intent names one generation of a binding, the immutable source and the target object.
The checks are those of `coordinator.ts`: every part of a binding, the source snapshot, the
CDN base, the target key built from them and the descriptor hash over all three.  The
digest and the URL parser of the platform are parameters.
-/
import SdcoreNest.Theory.JsNumber
import SdcoreNest.Theory.Program

namespace SdcoreNest.Publication

open SdcoreNest.Theory SdcoreNest.Theory.JsString

set_option autoImplicit false

structure Binding where
  environment : JsString
  module : JsString
  scopeId : JsString
  bindingId : JsString
  generation : JsString
deriving DecidableEq

/-- A binding without its generation. -/
structure LogicalBinding where
  environment : JsString
  module : JsString
  scopeId : JsString
  bindingId : JsString
deriving DecidableEq

def Binding.logical (binding : Binding) : LogicalBinding :=
  ⟨binding.environment, binding.module, binding.scopeId, binding.bindingId⟩

structure Source where
  id : JsString
  version : JsString
  locator : JsString
  sha256 : JsString
  size : JsNumber
  contentType : JsString
deriving DecidableEq

/-- The target; its delivery mode is the literal `external`. -/
structure Target where
  key : JsString
  url : JsString
deriving DecidableEq

structure Intent where
  id : JsString
  binding : Binding
  source : Source
  target : Target
  descriptorHash : JsString
  createdAt : JsNumber
deriving DecidableEq

inductive State where
  | pending
  | uncertain
  | ready
  | retiring
  | retired
  | blocked
deriving DecidableEq

/-- The action of a lease; `other` is a value outside the declared type. -/
inductive Action where
  | publish
  | retire
  | other
deriving DecidableEq

structure Lease where
  intent : Intent
  token : JsString
  revision : JsNumber
  leaseUntil : JsNumber
  action : Action
deriving DecidableEq

/-- An exception: an `UploadedFilePublicationError` with its code, or another one. -/
inductive Fault where
  | publication (code : JsString)
  | other
deriving DecidableEq

def Fault.invalidDescriptor : Fault := .publication (js "core.file.publication.invalid-descriptor")
def Fault.notConfigured : Fault := .publication (js "core.file.publication.not-configured")
def Fault.namespaceDenied : Fault := .publication (js "core.file.publication.namespace-denied")

/-- The components of a parsed URL that `publicationCdnBase` reads, and its text. -/
structure ParsedUrl where
  protocol : JsString
  username : JsString
  password : JsString
  search : JsString
  hash : JsString
  href : JsString

/-- SHA-256 in hexadecimal and the WHATWG URL parser. -/
structure Platform where
  publicationHash : JsString → JsString
  parseUrl : JsString → Option ParsedUrl

structure Config where
  environment : JsString
  keyPrefix : JsString
  modulePrefixes : List (JsString × JsString)
  cdnBaseUrl : Option JsString
  /-- `deliveryMode` is `external`; it may also be missing. -/
  external : Bool

/-! ## Checks -/

def publicationHasControlCharacter (value : JsString) : Bool :=
  value.any fun u => u.toNat ≤ 31 || u.toNat = 127

def slash : UInt16 := 0x2F

def backslash : UInt16 := 0x5C

def part (value : JsString) : Except Fault JsString :=
  if value = [] ∨ value ≠ trim value ∨ 256 < value.length ∨ value.contains slash ∨
      value.contains backslash ∨ publicationHasControlCharacter value ∨ value = js "." ∨
      value = js ".." then
    .error .invalidDescriptor
  else if (encodeURIComponent value).isNone then .error .invalidDescriptor
  else .ok value

def publicationBinding (value : Binding) : Except Fault Binding := do
  return {
    environment := ← part value.environment
    module := ← part value.module
    scopeId := ← part value.scopeId
    bindingId := ← part value.bindingId
    generation := ← part value.generation }

/-- The expression `[a-f0-9]{64}`. -/
def isSha256 (value : JsString) : Bool :=
  value.length = 64 && value.all fun u => isDigit u || (0x61 ≤ u.toNat && u.toNat ≤ 0x66)

def isMimeStart (u : UInt16) : Bool := isDigit u || (0x61 ≤ u.toNat && u.toNat ≤ 0x7A)

def isMimeUnit (u : UInt16) : Bool :=
  isMimeStart u || u.toNat = 0x2E || u.toNat = 0x2B || u.toNat = 0x2D

/-- The expression `[a-z0-9][a-z0-9.+-]*`. -/
def isMimeToken (value : JsString) : Bool :=
  match value with
  | [] => false
  | u :: rest => isMimeStart u && rest.all isMimeUnit

/-- Two tokens around one slash. -/
def isContentType (value : JsString) : Bool :=
  match splitOn slash value with
  | [type, subtype] => isMimeToken type && isMimeToken subtype
  | _ => false

def publicationSource (value : Source) : Except Fault Source := do
  if value.locator = [] ∨ 2048 < value.locator.length ∨
      publicationHasControlCharacter value.locator ∨ !isSha256 value.sha256 ∨
      !value.size.isSafeInteger ∨ value.size.le (.finite 0) ∨ !isContentType value.contentType then
    throw .invalidDescriptor
  else
    return { value with id := ← part value.id, version := ← part value.version }

/-- A path segment of one or two dots, each plain or escaped. -/
def isDotSegment (segment : JsString) : Bool :=
  let lower := segment.map lowerAscii
  [js ".", js "%2e", js "..", js ".%2e", js "%2e.", js "%2e%2e"].contains lower

/-- Remove the slashes at the end. -/
def dropTrailingSlashes (s : JsString) : JsString := (s.reverse.dropWhile (· = slash)).reverse

section

variable (platform : Platform)

def publicationCdnBase (value : Option JsString) : Except Fault JsString := do
  match value with
  | none => throw .notConfigured
  | some value =>
      if value = [] ∨ value ≠ trim value ∨ 2048 < value.length then throw .notConfigured
      else
        match platform.parseUrl value with
        | none => throw .notConfigured
        | some url =>
            if url.protocol ≠ js "https:" ∨ url.username ≠ [] ∨ url.password ≠ [] ∨
                value.contains 0x3F ∨ value.contains 0x23 ∨ url.search ≠ [] ∨ url.hash ≠ [] ∨
                value.contains backslash ∨ publicationHasControlCharacter value ∨
                (splitOn slash value).any isDotSegment then
              throw .notConfigured
            else return dropTrailingSlashes url.href

/-! ## The descriptor -/

/-- `{"name":value,...}` of rendered values. -/
def jsonObject (fields : List (String × JsString)) : JsString :=
  js "\x7b" ++ joinWith (js ",") (fields.map fun field => quote (js field.1) ++ js ":" ++ field.2) ++
    js "\x7d"

def Binding.json (binding : Binding) : JsString :=
  jsonObject [("environment", quote binding.environment), ("module", quote binding.module),
    ("scopeId", quote binding.scopeId), ("bindingId", quote binding.bindingId),
    ("generation", quote binding.generation)]

/-- The text of a size that `publicationSource` accepted, a positive integer. -/
def sizeText : JsNumber → JsString
  | .finite value => js (toString value.num)
  | _ => js "null"

def Source.json (source : Source) : JsString :=
  jsonObject [("id", quote source.id), ("version", quote source.version),
    ("locator", quote source.locator), ("sha256", quote source.sha256),
    ("size", sizeText source.size), ("contentType", quote source.contentType)]

def Target.json (target : Target) : JsString :=
  jsonObject [("key", quote target.key), ("url", quote target.url),
    ("deliveryMode", quote (js "external"))]

def descriptor (binding : Binding) (source : Source) (target : Target) : JsString :=
  platform.publicationHash (jsonObject
    [("binding", binding.json), ("source", source.json), ("target", target.json)])

/-! ## The target and the whole intent -/

variable (config : Config)

def authorizedBinding (value : Binding) : Except Fault Binding := do
  let binding ← publicationBinding value
  match config.modulePrefixes.lookup binding.module with
  | none => throw .namespaceDenied
  | some modulePrefix =>
      if binding.environment ≠ config.environment then throw .namespaceDenied
      else
        let _ ← part modulePrefix
        return binding

/-- A text that `part` accepted can be encoded. -/
def encoded (value : JsString) : Except Fault JsString :=
  match encodeURIComponent value with
  | some text => .ok text
  | none => .error .other

def targetFor (binding : Binding) (source : Source) : Except Fault Target := do
  match config.modulePrefixes.lookup binding.module with
  | none => throw .notConfigured
  | some modulePrefix =>
      if !config.external ∨ binding.environment ≠ config.environment then throw .notConfigured
      else
        let base ← publicationCdnBase platform config.cdnBaseUrl
        let segments ← if config.keyPrefix = [] then pure []
          else (splitOn slash config.keyPrefix).mapM part
        let modulePrefix ← part modulePrefix
        let identity := platform.publicationHash (js "[" ++
          joinWith (js ",") [quote binding.bindingId, quote binding.generation] ++ js "]")
        let environment ← part binding.environment
        let scope ← encoded binding.scopeId
        let key := joinWith [slash] ([joinWith [slash] segments, environment, modulePrefix,
          js "public", scope, identity, source.sha256].filter (· ≠ []))
        let path ← (splitOn slash key).mapM encoded
        return ⟨key, base ++ [slash] ++ joinWith [slash] path⟩

def verify (input : Intent) : Except Fault Intent := do
  let binding ← authorizedBinding config input.binding
  let source ← publicationSource input.source
  let target ← targetFor platform config binding source
  if input.target ≠ target ∨ !input.createdAt.isSafeInteger ∨ input.createdAt.lt (.finite 0) ∨
      input.descriptorHash ≠ descriptor platform binding source target then
    throw .invalidDescriptor
  else
    let id ← part input.id
    return ⟨id, binding, source, target, input.descriptorHash, input.createdAt⟩

end

/-! ## What `verify` returns is what it was given -/

theorem part_eq {value checked : JsString} (passed : part value = .ok checked) :
    checked = value := by
  unfold part at passed
  split at passed
  · cases passed
  · split at passed
    · cases passed
    · cases passed
      rfl

theorem publicationBinding_eq {value checked : Binding}
    (passed : publicationBinding value = .ok checked) : checked = value := by
  unfold publicationBinding at passed
  obtain ⟨environment, first, passed⟩ := of_bind_ok passed
  obtain ⟨module, second, passed⟩ := of_bind_ok passed
  obtain ⟨scopeId, third, passed⟩ := of_bind_ok passed
  obtain ⟨bindingId, fourth, passed⟩ := of_bind_ok passed
  obtain ⟨generation, fifth, passed⟩ := of_bind_ok passed
  cases passed
  rw [part_eq first, part_eq second, part_eq third, part_eq fourth, part_eq fifth]

theorem publicationSource_eq {value checked : Source}
    (passed : publicationSource value = .ok checked) : checked = value := by
  unfold publicationSource at passed
  split at passed
  · cases passed
  · obtain ⟨id, first, passed⟩ := of_bind_ok passed
    obtain ⟨version, second, passed⟩ := of_bind_ok passed
    cases passed
    rw [part_eq first, part_eq second]

theorem authorizedBinding_eq {config : Config} {value checked : Binding}
    (passed : authorizedBinding config value = .ok checked) : checked = value := by
  unfold authorizedBinding at passed
  obtain ⟨binding, first, passed⟩ := of_bind_ok passed
  split at passed
  · cases passed
  · split at passed
    · cases passed
    · obtain ⟨_, -, passed⟩ := of_bind_ok passed
      cases passed
      exact publicationBinding_eq first

/-- A verified intent is the intent that was verified. -/
theorem verify_eq {platform : Platform} {config : Config} {input intent : Intent}
    (passed : verify platform config input = .ok intent) : intent = input := by
  unfold verify at passed
  obtain ⟨binding, first, passed⟩ := of_bind_ok passed
  obtain ⟨source, second, passed⟩ := of_bind_ok passed
  obtain ⟨target, -, passed⟩ := of_bind_ok passed
  split at passed
  · cases passed
  · rename_i same
    obtain ⟨id, third, passed⟩ := of_bind_ok passed
    cases passed
    have target' : input.target = target := by
      by_contra different
      exact same (.inl different)
    rw [authorizedBinding_eq first, publicationSource_eq second, part_eq third, ← target']

end SdcoreNest.Publication
