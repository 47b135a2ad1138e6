/-
# Http.TrustedOrigins -- identity headers reach trusted origins only

A request to an untrusted origin carries no identity header and no secret, and one to a trusted
origin carries identity headers of the current context only (`Guarded`).  Redirects keep this at
every hop, whatever the headers were before.  The first request keeps it, too, unless `new URL`
and the joining of axios disagree about where it goes (`Misdirected`).
-/
import SdcoreNest.Http.Service

namespace SdcoreNest.Http

open SdcoreNest.Theory

set_option autoImplicit false

/-! ## Containers -/

/-- There is a header with a field name. -/
def Has {key : Header → String} (headers : Keyed String Header key) (field : String) : Prop :=
  ∃ header ∈ headers, fieldName header = field

namespace AxiosHeaders

variable {headers : AxiosHeaders} {name value : String} {header : Header}

/-- What `set` stores, under the spelling that is there. -/
theorem set_eq (headers : AxiosHeaders) (name value : String) :
    ∃ spelled, lowerCase spelled = lowerCase name ∧ headers.set name value = headers.save (spelled, value) := by
  unfold set
  cases found : headers.get? (lowerCase name) with
  | none => exact ⟨name, rfl, rfl⟩
  | some header => exact ⟨header.1, (Keyed.get?_eq_some.mp found).2, rfl⟩

theorem of_mem_set (inside : header ∈ headers.set name value) :
    header ∈ headers ∨ (fieldName header = lowerCase name ∧ header.2 = value) := by
  obtain ⟨spelled, same, stored⟩ := set_eq headers name value
  rw [stored] at inside
  rcases Keyed.mem_save.mp inside with rfl | ⟨there, -⟩
  · exact .inr ⟨same, rfl⟩
  · exact .inl there

theorem has_set {field : String} :
    Has (headers.set name value) field ↔ Has headers field ∨ field = lowerCase name := by
  obtain ⟨spelled, same, stored⟩ := set_eq headers name value
  rw [stored]
  constructor
  · rintro ⟨header, inside, rfl⟩
    rcases Keyed.mem_save.mp inside with rfl | ⟨there, -⟩
    · exact .inr same
    · exact .inl ⟨header, there, rfl⟩
  · intro either
    by_cases here : field = lowerCase name
    · exact ⟨(spelled, value), Keyed.mem_save.mpr (.inl rfl), same.trans here.symm⟩
    · obtain ⟨header, there, rfl⟩ := either.resolve_right here
      refine ⟨header, Keyed.mem_save.mpr (.inr ⟨there, ?_⟩), rfl⟩
      exact fun clash => here (clash.trans same)

theorem has_ofRecord {record : HeaderRecord} {field : String} :
    Has (ofRecord record) field ↔ Has record field := by
  have fold : ∀ (rows : List Header) (headers : AxiosHeaders),
      Has (rows.foldl (fun headers header => set headers header.1 header.2) headers) field ↔
        Has headers field ∨ ∃ header ∈ rows, fieldName header = field := by
    intro rows
    induction rows with
    | nil => simp
    | cons row rest ih =>
        intro headers
        rw [List.foldl_cons, ih, has_set, or_assoc]
        refine or_congr_right ?_
        simp only [List.mem_cons, exists_eq_or_imp, fieldName]
        exact or_congr_left eq_comm
  refine (fold record.rows Keyed.empty).trans ?_
  constructor
  · rintro (⟨header, none, -⟩ | there)
    · exact absurd none (Keyed.not_mem_empty header)
    · exact there
  · exact .inr

theorem mem_delete {names : List String} :
    header ∈ headers.delete names ↔ header ∈ headers ∧ fieldName header ∉ names.map lowerCase := by
  refine Keyed.mem_discard.trans (and_congr_right fun _ => ?_)
  simp

end AxiosHeaders

theorem mem_stripRecordHeaders {headers : HeaderRecord} {names : List String} {header : Header} :
    header ∈ stripRecordHeaders headers names ↔ header ∈ headers ∧ fieldName header ∉ names := by
  refine Keyed.mem_discard.trans (and_congr_right fun _ => ?_)
  simp

/-! ## Identity headers -/

section

variable {service : HttpService} {store : Option Store} {header : Header}

/-- The header carries a value of the context. -/
def FromContext (service : HttpService) (store : Option Store) (header : Header) : Prop :=
  ∃ ctx, store = some ctx ∧ ∃ name ∈ service.propagate,
    ∃ entry, (contextHeaderMap service.headers ctx).get? name = some entry ∧
      fieldName header = lowerCase name ∧ header.2 = entry.2

/-- The context has a value for a propagated header. -/
def Fills (service : HttpService) (store : Option Store) : Prop :=
  ∃ ctx, store = some ctx ∧ ∃ name ∈ service.propagate,
    ((contextHeaderMap service.headers ctx).get? name).isSome = true

/-- Setting a header adds this one alone. -/
theorem of_mem_populate {key : Header → String}
    {set : Keyed String Header key → String → String → Keyed String Header key}
    (only : ∀ headers name value header, header ∈ set headers name value →
      header ∈ headers ∨ (fieldName header = lowerCase name ∧ header.2 = value))
    {headers : Keyed String Header key}
    (inside : header ∈ populateIdentityHeaders set service store headers) :
    header ∈ headers ∨ FromContext service store header := by
  cases store with
  | none => exact .inl inside
  | some ctx =>
      have fold : ∀ (names : List String) (headers : Keyed String Header key),
          (∀ name ∈ names, name ∈ service.propagate) →
          header ∈ names.foldl (setFrom set (contextHeaderMap service.headers ctx)) headers →
          header ∈ headers ∨ FromContext service (some ctx) header := by
        intro names
        induction names with
        | nil => exact fun _ _ inside => .inl inside
        | cons name rest ih =>
            intro headers among inside
            rcases ih _ (fun other later => among other (.tail _ later)) inside with there | given
            · unfold setFrom at there
              split at there
              next entry found =>
                  rcases only headers name entry.2 header there with old | ⟨same, value⟩
                  · exact .inl old
                  · exact .inr ⟨ctx, rfl, name, among name List.mem_cons_self, entry, found, same, value⟩
              next => exact .inl there
            · exact .inr given
      exact fold service.propagate headers (fun _ inside => inside) inside

/-- Every field name that is there stays, and those of the context come to it. -/
theorem has_populate {headers : AxiosHeaders} {field : String} :
    Has (populateAxiosIdentityHeaders service store headers) field ↔ Has headers field ∨
      ∃ ctx, store = some ctx ∧ ∃ name ∈ service.propagate,
        ((contextHeaderMap service.headers ctx).get? name).isSome = true ∧ field = lowerCase name := by
  cases store with
  | none => simp [populateAxiosIdentityHeaders, populateIdentityHeaders]
  | some ctx =>
      have fold : ∀ (names : List String) (headers : AxiosHeaders),
          Has (names.foldl (setFrom AxiosHeaders.set (contextHeaderMap service.headers ctx)) headers)
            field ↔ Has headers field ∨ ∃ name ∈ names,
              ((contextHeaderMap service.headers ctx).get? name).isSome = true ∧
                field = lowerCase name := by
        intro names
        induction names with
        | nil => simp
        | cons name rest ih =>
            intro headers
            rw [List.foldl_cons, ih]
            unfold setFrom
            cases found : (contextHeaderMap service.headers ctx).get? name with
            | none => simp [found]
            | some entry => simp [found, AxiosHeaders.has_set, or_assoc]
      refine (fold service.propagate headers).trans (or_congr_right ?_)
      simp

end

/-! ## What a request may carry -/

structure Guarded (service : HttpService) (sent : Sent) : Prop where
  untrusted : sent.origin ∉ service.trustedOrigins → ∀ header ∈ sent.headers,
    fieldName header ∉ service.identityHeaderNames ∧ fieldName header ≠ internalSecretHeader
  trusted : sent.origin ∈ service.trustedOrigins → ∀ header ∈ sent.headers,
    fieldName header ∈ service.identityHeaderNames → FromContext service sent.store header

section

variable {parseHost : Bool → List Char → Option String} {service : HttpService}

/-- The hook sees the origin that the hop goes to. -/
theorem redirectOrigin_of_destination {options : RedirectOptions} {origin : String}
    (goes : options.destination parseHost = some origin) :
    redirectOrigin parseHost options = some origin := by
  unfold RedirectOptions.destination at goes
  unfold redirectOrigin
  cases given : options.href with
  | none =>
      rw [given] at goes
      exact goes
  | some href =>
      rw [given] at goes
      have goes : (Url.parse parseHost none href.toList).bind Url.httpOrigin = some origin := goes
      obtain ⟨url, read, http⟩ := Option.bind_eq_some_iff.mp goes
      simp only [read, Option.map_some]
      unfold Url.httpOrigin at http
      split at http
      · exact http
      · cases http

theorem beforeRedirect_guarded {hop : Hop} {origin : String}
    (goes : hop.options.destination parseHost = some origin) (headers : HeaderRecord) :
    Guarded service ⟨origin, beforeRedirect parseHost service hop headers, hop.store⟩ := by
  have seen := redirectOrigin_of_destination goes
  unfold beforeRedirect
  rw [seen]
  by_cases known : origin ∈ service.trustedOrigins
  · refine ⟨fun wrong => absurd known wrong, fun _ header inside named => ?_⟩
    simp only [HttpService.trusts, Option.any_some, known, decide_true, if_true] at inside
    have origin := of_mem_populate (fun headers name value header inside => by
      rcases Keyed.mem_save.mp inside with rfl | ⟨there, -⟩
      · exact .inr ⟨rfl, rfl⟩
      · exact .inl there) inside
    exact origin.resolve_left fun there => (mem_stripRecordHeaders.mp there).2 named
  · refine ⟨fun _ header inside => ?_, fun wrong => absurd wrong known⟩
    simp only [HttpService.trusts, Option.any_some, known, decide_false, Bool.false_eq_true,
      if_false] at inside
    obtain ⟨there, notSecret⟩ := mem_stripRecordHeaders.mp inside
    exact ⟨(mem_stripRecordHeaders.mp there).2, fun same => notSecret (by simp [same])⟩

/-- Every hop of a redirect chain, whatever the headers were before. -/
theorem redirected_guarded (hops : List Hop) (headers : HeaderRecord) :
    ∀ sent ∈ redirected parseHost service headers hops, Guarded service sent := by
  induction hops generalizing headers with
  | nil => exact fun _ inside => absurd inside List.not_mem_nil
  | cons hop rest ih =>
      intro sent inside
      unfold redirected at inside
      split at inside
      · cases inside
      next origin goes =>
        rcases List.mem_cons.mp inside with rfl | later
        · exact beforeRedirect_guarded goes headers
        · exact ih _ sent later

/-! ## The first request -/

variable {axios : Axios} {store : Option Store} {request : Request}

theorem mem_intercept_untrusted (unknown : service.trusts (requestOrigin parseHost service request) = false)
    {header : Header} (inside : header ∈ intercept parseHost service store request) :
    fieldName header ∉ service.identityHeaderNames ∧ fieldName header ≠ internalSecretHeader := by
  unfold intercept at inside
  simp only [unknown, Bool.false_eq_true, if_false] at inside
  obtain ⟨there, notSecret⟩ := AxiosHeaders.mem_delete.mp inside
  refine ⟨fun named => (AxiosHeaders.mem_delete.mp there).2 ?_, fun same => notSecret ?_⟩
  · exact List.mem_map.mpr ⟨_, named, service.lowered _ named⟩
  · rw [same]
    decide +kernel

theorem mem_intercept_trusted (known : service.trusts (requestOrigin parseHost service request) = true)
    {header : Header} (inside : header ∈ intercept parseHost service store request)
    (named : fieldName header ∈ service.identityHeaderNames) : FromContext service store header := by
  unfold intercept at inside
  simp only [known, if_true] at inside
  have origin := of_mem_populate (fun _ _ _ _ => AxiosHeaders.of_mem_set) inside
  refine origin.resolve_left fun there => (AxiosHeaders.mem_delete.mp there).2 ?_
  exact List.mem_map.mpr ⟨_, named, service.lowered _ named⟩

/-- Something that only a trusted origin may see. -/
def Carries (service : HttpService) (store : Option Store) (request : Request) : Prop :=
  Fills service store ∨ Has request.headers internalSecretHeader

theorem carries_iff (known : service.trusts (requestOrigin parseHost service request) = true) :
    (∃ header ∈ intercept parseHost service store request,
      fieldName header ∈ service.identityHeaderNames ∨ fieldName header = internalSecretHeader) ↔
      Carries service store request := by
  have kept : Has (AxiosHeaders.delete (AxiosHeaders.ofRecord request.headers)
      service.identityHeaderNames) internalSecretHeader ↔ Has request.headers internalSecretHeader := by
    rw [← AxiosHeaders.has_ofRecord]
    constructor
    · rintro ⟨header, inside, same⟩
      exact ⟨header, (AxiosHeaders.mem_delete.mp inside).1, same⟩
    · rintro ⟨header, inside, same⟩
      refine ⟨header, AxiosHeaders.mem_delete.mpr ⟨inside, ?_⟩, same⟩
      rintro named
      obtain ⟨name, among, lower⟩ := List.mem_map.mp named
      rw [service.lowered name among, same] at lower
      exact service.secret (lower ▸ among)
  have unfolded : intercept parseHost service store request = populateAxiosIdentityHeaders service store
      (AxiosHeaders.delete (AxiosHeaders.ofRecord request.headers) service.identityHeaderNames) := by
    unfold intercept
    simp only [known, if_true]
  constructor
  · rintro ⟨header, inside, named | same⟩
    · obtain ⟨ctx, current, name, among, entry, found, -⟩ := mem_intercept_trusted known inside named
      exact .inl ⟨ctx, current, name, among, by rw [found]; rfl⟩
    · rw [unfolded] at inside
      rcases has_populate.mp ⟨header, inside, same⟩ with there | ⟨ctx, -, name, among, -, clash⟩
      · exact .inr (kept.mp there)
      · exact absurd (clash ▸ service.propagated name among) service.secret
  · rw [unfolded]
    rintro (⟨ctx, current, name, among, filled⟩ | there)
    · obtain ⟨header, inside, same⟩ := has_populate.mpr (.inr ⟨ctx, current, name, among, filled, rfl⟩)
      exact ⟨header, inside, .inl (same ▸ service.propagated name among)⟩
    · obtain ⟨header, inside, same⟩ := has_populate.mpr (.inl (kept.mpr there))
      exact ⟨header, inside, .inr same⟩

/-- The check resolves a relative `url` to a trusted origin, and axios joins it to another one and
sends the request. -/
structure Misdirected (parseHost : Bool → List Char → Option String) (axios : Axios)
    (service : HttpService) (request : Request) : Prop where
  based : service.base request ≠ ""
  relative : isAbsoluteURL request.url.toList = false
  sent : axios.refuses (service.base request).toList request.url.toList = false
  checked : service.trusts (requestOrigin parseHost service request) = true
  joined : ∃ origin, (Url.parse parseHost none
    (axios.combineURLs (service.base request).toList request.url.toList)).bind Url.httpOrigin =
      some origin ∧ origin ∉ service.trustedOrigins

theorem destination_of_relative (based : service.base request ≠ "")
    (relative : isAbsoluteURL request.url.toList = false)
    (sent : axios.refuses (service.base request).toList request.url.toList = false) :
    destination parseHost axios service request = (Url.parse parseHost none
      (axios.combineURLs (service.base request).toList request.url.toList)).bind Url.httpOrigin := by
  unfold destination buildFullPath
  rw [sent, if_neg Bool.false_ne_true, if_pos ⟨by simpa using based, by simp [relative]⟩]
  rfl

theorem not_refused {origin : String} (goes : destination parseHost axios service request = some origin) :
    axios.refuses (service.base request).toList request.url.toList = false := by
  cases refused : axios.refuses (service.base request).toList request.url.toList with
  | false => rfl
  | true =>
      unfold destination buildFullPath at goes
      rw [refused, if_pos rfl] at goes
      cases goes

/-- Where the url is absolute or there is no base, the origin that is checked is that of the request. -/
theorem destination_eq_checked {checked origin : String}
    (direct : service.base request = "" ∨ isAbsoluteURL request.url.toList = true)
    (seen : requestOrigin parseHost service request = some checked)
    (goes : destination parseHost axios service request = some origin) : origin = checked := by
  have whole : destination parseHost axios service request =
      (Url.parse parseHost none request.url.toList).bind Url.httpOrigin := by
    have own : ¬((service.base request).toList ≠ [] ∧ ¬isAbsoluteURL request.url.toList = true) := by
      rintro ⟨based, relative⟩
      rcases direct with unbased | absolute
      · rw [unbased] at based
        exact based rfl
      · exact relative absolute
    unfold destination buildFullPath
    rw [not_refused goes, if_neg Bool.false_ne_true, if_neg own]
    rfl
  rw [whole] at goes
  unfold requestOrigin at seen
  split at seen
  · cases seen
  split at seen
  · rw [goes] at seen
    exact Option.some.inj seen
  next based =>
    have absolute := direct.resolve_left based
    obtain ⟨base, -, seen⟩ := Option.bind_eq_some_iff.mp seen
    have same : Url.parse parseHost (some base) request.url.toList =
        Url.parse parseHost none request.url.toList := by
      unfold isAbsoluteURL at absolute
      cases read : Url.schemeOf request.url.toList with
      | none =>
          rw [read] at absolute
          obtain ⟨rest, shape⟩ := List.isPrefixOf_iff_prefix.mp absolute
          rw [← shape] at goes
          have unread := @Url.parse_slashes parseHost rest
          rw [List.cons_append, List.cons_append, List.nil_append, unread] at goes
          cases goes
      | some pair =>
          obtain ⟨scheme, after⟩ := pair
          rw [read] at absolute
          obtain ⟨rest, rfl⟩ := List.isPrefixOf_iff_prefix.mp absolute
          exact Url.parse_absolute read (some base)
    rw [same, goes] at seen
    exact Option.some.inj seen

theorem misdirected_iff (known : service.trusts (requestOrigin parseHost service request) = true)
    {origin : String} (goes : destination parseHost axios service request = some origin) :
    origin ∉ service.trustedOrigins ↔ Misdirected parseHost axios service request := by
  obtain ⟨checked, seen, among⟩ : ∃ checked, requestOrigin parseHost service request = some checked ∧
      checked ∈ service.trustedOrigins := by
    cases seen : requestOrigin parseHost service request with
    | none => simp [seen, HttpService.trusts] at known
    | some checked =>
        refine ⟨checked, rfl, ?_⟩
        simpa [seen, HttpService.trusts] using known
  constructor
  · intro unknown
    have apart : ¬(service.base request = "" ∨ isAbsoluteURL request.url.toList = true) := by
      intro direct
      exact unknown (destination_eq_checked direct seen goes ▸ among)
    obtain ⟨based, relative⟩ := not_or.mp apart
    have relative : isAbsoluteURL request.url.toList = false := by simpa using relative
    have sent := not_refused goes
    refine ⟨based, relative, sent, known, origin, ?_, unknown⟩
    rw [← destination_of_relative based relative sent, goes]
  · rintro ⟨based, relative, sent, -, other, joined, unknown⟩
    rw [← destination_of_relative based relative sent, goes] at joined
    exact Option.some.inj joined ▸ unknown

/-- Everything that goes out for a request, redirects included. -/
theorem outgoing_guarded_iff (parseHost : Bool → List Char → Option String) (axios : Axios)
    (service : HttpService) (store : Option Store) (request : Request) (hops : List Hop) :
    (∀ sent ∈ outgoing parseHost axios service store request hops, Guarded service sent) ↔
      ¬(Misdirected parseHost axios service request ∧ Carries service store request) := by
  unfold outgoing
  cases goes : destination parseHost axios service request with
  | none =>
      refine iff_of_true (fun _ inside => absurd inside List.not_mem_nil) ?_
      rintro ⟨⟨based, relative, sent, -, origin, joined, -⟩, -⟩
      rw [← destination_of_relative based relative sent, goes] at joined
      cases joined
  | some origin =>
      have first : (∀ sent ∈ ⟨origin, AxiosHeaders.toJSON (intercept parseHost service store request), store⟩ ::
          redirected parseHost service (AxiosHeaders.toJSON (intercept parseHost service store request)) hops,
          Guarded service sent) ↔
          Guarded service ⟨origin, AxiosHeaders.toJSON (intercept parseHost service store request), store⟩ := by
        rw [List.forall_mem_cons]
        exact and_iff_left (redirected_guarded hops _)
      refine first.trans ?_
      cases known : service.trusts (requestOrigin parseHost service request) with
      | false =>
          refine iff_of_true ⟨fun _ _ => mem_intercept_untrusted known, ?_⟩ ?_
          · exact fun _ _ inside named => absurd named (mem_intercept_untrusted known inside).1
          · rintro ⟨misdirected, -⟩
            exact Bool.false_ne_true (known.symm.trans misdirected.checked)
      | true =>
          by_cases among : origin ∈ service.trustedOrigins
          · refine iff_of_true ⟨fun wrong => absurd among wrong, fun _ _ => mem_intercept_trusted known⟩ ?_
            rintro ⟨misdirected, -⟩
            exact (misdirected_iff known goes).mpr misdirected among
          · have misdirected := (misdirected_iff known goes).mp among
            rw [← carries_iff known]
            constructor
            · rintro guarded ⟨-, header, inside, named | secret⟩
              · exact (guarded.untrusted among header inside).1 named
              · exact (guarded.untrusted among header inside).2 secret
            · intro clean
              refine ⟨fun _ header inside => not_or.mp fun named => ?_, fun wrong => absurd wrong among⟩
              exact clean ⟨misdirected, header, inside, named⟩

end

/-- Host names in ASCII, without percent signs and numbers. -/
def plainHost (_ : Bool) (host : List Char) : Option String := some (String.ofList (host.map Char.toLower))

/-- `replace(/\/?\/$/, '')` -/
def dropTrailingSlashes (text : List Char) : List Char :=
  match text.reverse with
  | '/' :: '/' :: rest => rest.reverse
  | '/' :: rest => rest.reverse
  | _ => text

/-- axios 1.20: one slash between base and url, and no `http:` or `https:` without two slashes. -/
def plainAxios : Axios where
  combineURLs baseURL relativeURL :=
    if relativeURL = [] then baseURL
    else dropTrailingSlashes baseURL ++ '/' :: relativeURL.dropWhile (· = '/')
  refuses _ url :=
    (Url.schemeOf url).any fun parsed =>
      (parsed.1 = "http" || parsed.1 = "https") && !(['/', '/'].isPrefixOf parsed.2)

/-- A client that trusts one origin. -/
def smallClient : Option HttpService :=
  HttpService.create plainHost { trustedOrigins := ["https://api.internal"] } none

/-- A request to another service, with a space in front of a URL that has nothing to do with it. -/
def spacedRequest : Request where
  url := " https://api.internal/orders"
  baseURL := some "https://third-party.example"
  headers := Keyed.empty

theorem spacedRequest_leaks : ∃ service, smallClient = some service ∧
    ¬∀ sent ∈ outgoing plainHost plainAxios service (some { tenant := some "t1" }) spacedRequest [],
      Guarded service sent := by
  have leaks : smallClient.any (fun service =>
      (outgoing plainHost plainAxios service (some { tenant := some "t1" }) spacedRequest []).any fun sent =>
        decide (sent.origin ∉ service.trustedOrigins) &&
          sent.headers.rows.any fun header => decide (fieldName header ∈ service.identityHeaderNames)) =
      true := by
    decide +kernel
  cases built : smallClient with
  | none => simp [built] at leaks
  | some service =>
      refine ⟨service, rfl, fun guarded => ?_⟩
      rw [built, Option.any_some, List.any_eq_true] at leaks
      obtain ⟨sent, inside, leaking⟩ := leaks
      obtain ⟨unknown, named⟩ := Bool.and_eq_true_iff.mp leaking
      obtain ⟨header, there, named⟩ := List.any_eq_true.mp named
      exact ((guarded sent inside).untrusted (of_decide_eq_true unknown) header there).1
        (of_decide_eq_true named)

end SdcoreNest.Http
