/-
# Http.Service -- outgoing requests and the identity headers they carry

`HttpService` wraps axios: an interceptor decides by the origin of the request which identity
headers go out, and a redirect hook decides again at every hop.  Headers pass through two
containers: `AxiosHeaders` knows one entry per field name, a plain object one per spelling.

axios sends to `url` when it is absolute and else to `baseURL` and `url` joined as strings
(`buildFullPath`), while the interceptor resolves `url` against `baseURL` with `new URL`.  How
the strings are joined, and which requests axios refuses to send, is a parameter (`Axios`).
follow-redirects calls the hook with the target of the hop; between the hops headers may have
changed in any way, by follow-redirects or by the hook of the consumer.  Values are the strings
they are sent as, and what is null or undefined is left out.
-/
import Mathlib
import SdcoreNest.Theory.Keyed
import SdcoreNest.Theory.Url

namespace SdcoreNest.Http

open SdcoreNest.Theory

set_option autoImplicit false

/-! ## Header containers -/

/-- `toLowerCase` of a field name, which is ASCII. -/
def lowerCase (name : String) : String := String.ofList (name.toList.map Char.toLower)

/-- A header as it is spelled, and its value. -/
abbrev Header := String × String

def fieldName (header : Header) : String := lowerCase header.1

abbrev AxiosHeaders := Keyed String Header fieldName

/-- A plain object of headers. -/
abbrev HeaderRecord := Keyed String Header Prod.fst

namespace AxiosHeaders

/-- An entry that is there keeps its spelling. -/
def set (headers : AxiosHeaders) (name value : String) : AxiosHeaders :=
  match headers.get? (lowerCase name) with
  | some header => headers.save (header.1, value)
  | none => headers.save (name, value)

def delete (headers : AxiosHeaders) (names : List String) : AxiosHeaders :=
  headers.discard fun header => decide (fieldName header ∈ names.map lowerCase)

/-- `AxiosHeaders.from` -/
def ofRecord (record : HeaderRecord) : AxiosHeaders :=
  record.rows.foldl (fun headers header => headers.set header.1 header.2) Keyed.empty

def toJSON (headers : AxiosHeaders) : HeaderRecord := headers.rekey lowerCase fun _ => rfl

end AxiosHeaders

/-! ## Configuration -/

def authorizationHeader : String := "authorization"

def internalSecretHeader : String := "x-internal-secret"

/-- `HeadersConfig`: the headers of tenant and user, and those of custom context entries. -/
structure HeadersConfig where
  tenant : Option String
  userId : Option String
  customHeaders : List (String × String)

def defaultHeadersConfig : HeadersConfig := ⟨some "x-tenant", some "x-user-id", []⟩

structure HttpClientConfig where
  baseURL : Option String := none
  trustedOrigins : List String := []
  propagateHeaders : Option (List String) := none

/-- The store of the request context. -/
structure Store where
  tenant : Option String := none
  userId : Option String := none
  custom : List (String × String) := []

/-- `authorization` stays with the caller, and the secret has rules of its own. -/
def isIdentityName (name : String) : Bool :=
  name ≠ authorizationHeader && name ≠ internalSecretHeader

/-- The client: what is propagated are identity headers, and the secret is none. -/
structure HttpService where
  baseURL : Option String
  headers : HeadersConfig
  propagate : List String
  identityHeaderNames : List String
  trustedOrigins : List String
  propagated : ∀ name ∈ propagate, lowerCase name ∈ identityHeaderNames
  lowered : ∀ name ∈ identityHeaderNames, lowerCase name = name
  secret : internalSecretHeader ∉ identityHeaderNames

def configuredIdentityHeaders (map : HeadersConfig) : List String :=
  (map.tenant.getD "x-tenant" :: map.userId.getD "x-user-id" :: map.customHeaders.map Prod.snd).filter
    (· ≠ "")

def propagatedHeaders (cfg : HttpClientConfig) (map : HeadersConfig) : List String :=
  (cfg.propagateHeaders.getD (configuredIdentityHeaders map)).filter fun header =>
    isIdentityName (lowerCase header)

def identityNames (cfg : HttpClientConfig) (map : HeadersConfig) : List String :=
  ((configuredIdentityHeaders map ++ propagatedHeaders cfg map).map lowerCase).filter isIdentityName

theorem lowerCase_lowerCase (name : String) : lowerCase (lowerCase name) = lowerCase name := by
  unfold lowerCase
  rw [String.toList_ofList, List.map_map]
  exact congrArg String.ofList (List.map_congr_left fun c _ => Char.toLower_toLower_eq_toLower c)

theorem mem_identityNames_of_propagated {cfg : HttpClientConfig} {map : HeadersConfig} {name : String}
    (inside : name ∈ propagatedHeaders cfg map) : lowerCase name ∈ identityNames cfg map := by
  refine List.mem_filter.mpr ⟨List.mem_map_of_mem (List.mem_append_right _ inside), ?_⟩
  exact (List.mem_filter.mp inside).2

theorem lowerCase_of_mem_identityNames {cfg : HttpClientConfig} {map : HeadersConfig} {name : String}
    (inside : name ∈ identityNames cfg map) : lowerCase name = name := by
  obtain ⟨header, -, rfl⟩ := List.mem_map.mp (List.mem_filter.mp inside).1
  exact lowerCase_lowerCase header

theorem secret_not_mem_identityNames (cfg : HttpClientConfig) (map : HeadersConfig) :
    internalSecretHeader ∉ identityNames cfg map := by
  intro inside
  have named := (List.mem_filter.mp inside).2
  simp [isIdentityName] at named

section

variable (parseHost : Bool → List Char → Option String)

def normalizeTrustedOrigin (value : String) : Option String :=
  (Url.parse parseHost none value.toList).bind Url.httpOrigin

/-- The constructor; `none` if it throws. -/
def HttpService.create (cfg : HttpClientConfig) (headers : Option HeadersConfig) : Option HttpService :=
  let map := headers.getD defaultHeadersConfig
  (cfg.trustedOrigins.mapM (normalizeTrustedOrigin parseHost)).map fun trustedOrigins =>
    { baseURL := cfg.baseURL
      headers := map
      propagate := propagatedHeaders cfg map
      identityHeaderNames := identityNames cfg map
      trustedOrigins := trustedOrigins
      propagated := fun _ => mem_identityNames_of_propagated
      lowered := fun _ => lowerCase_of_mem_identityNames
      secret := secret_not_mem_identityNames cfg map }

/-! ## Identity headers -/

/-- `out[name] = value` where both are there. -/
def assign (out : HeaderRecord) (name value : Option String) : HeaderRecord :=
  match name, value with
  | some name, some value => out.save (name, value)
  | _, _ => out

def contextHeaderMap (map : HeadersConfig) (ctx : Store) : HeaderRecord :=
  let out := assign Keyed.empty (map.tenant.filter (· ≠ "")) ctx.tenant
  let out := assign out (map.userId.filter (· ≠ "")) ctx.userId
  map.customHeaders.foldl (fun out pair => assign out (some pair.2) (ctx.custom.lookup pair.1)) out

/-- A header that the context has a value for is set. -/
def setFrom {C : Type} (set : C → String → String → C) (contextHeaders : HeaderRecord) (headers : C)
    (name : String) : C :=
  match contextHeaders.get? name with
  | some header => set headers name header.2
  | none => headers

/-- The loop of `populateAxiosIdentityHeaders` and `populateRecordIdentityHeaders`. -/
def populateIdentityHeaders {C : Type} (set : C → String → String → C) (service : HttpService)
    (store : Option Store) (headers : C) : C :=
  match store with
  | none => headers
  | some ctx =>
      service.propagate.foldl (setFrom set (contextHeaderMap service.headers ctx)) headers

def populateAxiosIdentityHeaders (service : HttpService) (store : Option Store)
    (headers : AxiosHeaders) : AxiosHeaders :=
  populateIdentityHeaders AxiosHeaders.set service store headers

def populateRecordIdentityHeaders (service : HttpService) (store : Option Store)
    (headers : HeaderRecord) : HeaderRecord :=
  populateIdentityHeaders (fun record name value => record.save (name, value)) service store headers

def stripRecordHeaders (headers : HeaderRecord) (names : List String) : HeaderRecord :=
  headers.discard fun header => decide (fieldName header ∈ names)

/-! ## Requests -/

/-- A request config; `url` is empty where it is missing. -/
structure Request where
  url : String
  baseURL : Option String := none
  headers : HeaderRecord

/-- The `baseURL` of the request or of the client, empty where there is none. -/
def HttpService.base (service : HttpService) (request : Request) : String :=
  (request.baseURL <|> service.baseURL).getD ""

/-- The origin that the interceptor checks. -/
def requestOrigin (service : HttpService) (request : Request) : Option String :=
  if request.url = "" then none
  else if service.base request = "" then
    (Url.parse parseHost none request.url.toList).bind Url.httpOrigin
  else
    (Url.parse parseHost none (service.base request).toList).bind fun base =>
      (Url.parse parseHost (some base) request.url.toList).bind Url.httpOrigin

/-- An origin that `trustedOrigins` has. -/
def HttpService.trusts (service : HttpService) (origin : Option String) : Bool :=
  origin.any (· ∈ service.trustedOrigins)

/-- The request interceptor. -/
def intercept (service : HttpService) (store : Option Store) (request : Request) : AxiosHeaders :=
  let headers := AxiosHeaders.delete (AxiosHeaders.ofRecord request.headers) service.identityHeaderNames
  if service.trusts (requestOrigin parseHost service request) then
    populateAxiosIdentityHeaders service store headers
  else AxiosHeaders.delete headers [internalSecretHeader]

/-! ## Where axios sends -/

/-- `/^([a-z][a-z\d+\-.]*:)?\/\//i` -/
def isAbsoluteURL (url : List Char) : Bool :=
  match Url.schemeOf url with
  | some (_, rest) => ['/', '/'].isPrefixOf rest
  | none => ['/', '/'].isPrefixOf url

/-- What axios does with the base and the url of a request. -/
structure Axios where
  combineURLs : List Char → List Char → List Char
  /-- The request is given up instead of sent. -/
  refuses : List Char → List Char → Bool

/-- The text of the URL that axios asks for; `none` if it refuses to. -/
def buildFullPath (axios : Axios) (baseURL requestedURL : List Char) : Option (List Char) :=
  if axios.refuses baseURL requestedURL then none
  else if baseURL ≠ [] ∧ ¬isAbsoluteURL requestedURL then some (axios.combineURLs baseURL requestedURL)
  else some requestedURL

/-- The origin a request goes to; `none` if none is sent. -/
def destination (axios : Axios) (service : HttpService) (request : Request) : Option String :=
  (buildFullPath axios (service.base request).toList request.url.toList).bind fun path =>
    (Url.parse parseHost none path).bind Url.httpOrigin

/-! ## Redirects -/

/-- What the options of a redirected request say about its target. -/
structure RedirectOptions where
  href : Option String := none
  protocol : Option String := none
  hostname : Option String := none
  host : Option String := none
  port : Option String := none

/-- The URL of protocol, host name and port; empty texts are as good as none. -/
def RedirectOptions.assembled (options : RedirectOptions) : Option String :=
  match options.protocol.filter (· ≠ ""), options.hostname.filter (· ≠ ""),
      options.host.filter (· ≠ "") with
  | some protocol, some hostname, _ =>
      some (protocol ++ "//" ++ hostname ++
        match options.port.filter (· ≠ "") with
        | some port => ":" ++ port
        | none => "")
  | some protocol, none, some host => some (protocol ++ "//" ++ host)
  | _, _, _ => none

def redirectOrigin (options : RedirectOptions) : Option String :=
  match options.href with
  | some href => (Url.parse parseHost none href.toList).map Url.origin
  | none => options.assembled.bind fun target =>
      (Url.parse parseHost none target.toList).bind Url.httpOrigin

/-- The origin a hop goes to, by the target in its options; `none` if no request is sent. -/
def RedirectOptions.destination (options : RedirectOptions) : Option String :=
  (options.href <|> options.assembled).bind fun target =>
    (Url.parse parseHost none target.toList).bind Url.httpOrigin

/-- A hop: its target, what happens to the headers on the way, and the context of that moment. -/
structure Hop where
  options : RedirectOptions
  adjust : HeaderRecord → HeaderRecord
  store : Option Store

/-- The `beforeRedirect` hook. -/
def beforeRedirect (service : HttpService) (hop : Hop) (headers : HeaderRecord) : HeaderRecord :=
  let record := stripRecordHeaders (hop.adjust headers) service.identityHeaderNames
  if service.trusts (redirectOrigin parseHost hop.options) then
    populateRecordIdentityHeaders service hop.store record
  else stripRecordHeaders record [internalSecretHeader]

/-- A request on the wire, and the context it was sent in. -/
structure Sent where
  origin : String
  headers : HeaderRecord
  store : Option Store

/-- The requests of a redirect chain; one that no request can be sent to ends it. -/
def redirected (service : HttpService) (headers : HeaderRecord) : List Hop → List Sent
  | [] => []
  | hop :: hops =>
      match hop.options.destination parseHost with
      | none => []
      | some origin =>
          let record := beforeRedirect parseHost service hop headers
          ⟨origin, record, hop.store⟩ :: redirected service record hops

/-- Everything that goes out for a request. -/
def outgoing (axios : Axios) (service : HttpService) (store : Option Store) (request : Request) (hops : List Hop) :
    List Sent :=
  match destination parseHost axios service request with
  | none => []
  | some origin =>
      let record := AxiosHeaders.toJSON (intercept parseHost service store request)
      ⟨origin, record, store⟩ :: redirected parseHost service record hops

end

end SdcoreNest.Http
