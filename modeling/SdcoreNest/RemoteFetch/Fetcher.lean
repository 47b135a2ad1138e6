/-
# RemoteFetch.Fetcher -- `secureFetchRemote` and what it asks of its dependencies

The fetcher is a program over two calls, `lookup` and `request`.  Their answers are
whatever an attacker that controls names and servers gives, differently at each hop, so a
law about the fetcher is a law about its conduct: which request may follow which steps of
its own.  The status of a response is any number, and NaN is neither below 200 nor at least
300.  The URL parser and the case mapping of the platform are parameters.

* `secureFetchRemote_follows` -- the conduct of the fetcher, by induction on its redirects;
* `secure_fetch_stays_public_iff` -- what is claimed of a fetch holds just in the runs in which
  every response with a NaN status is too large.
-/
import SdcoreNest.RemoteFetch.Address
import SdcoreNest.Theory.Rules

namespace SdcoreNest.RemoteFetch

open SdcoreNest.Theory SdcoreNest.Theory.JsString

set_option autoImplicit false

/-- The components of a parsed URL that the fetcher reads, and its text. -/
structure Url where
  protocol : JsString
  username : JsString
  password : JsString
  hostname : JsString
  href : JsString
deriving DecidableEq

/-- The WHATWG URL parser, with and without a base, and `toLowerCase`. -/
structure Platform where
  parse : JsString → Option Url
  parseRelative : JsString → Url → Option Url
  toLowerCase : JsString → JsString

structure RemoteCloneOptions where
  enabled : Bool
  timeoutMs : Option JsNumber := none
  maxBytes : Option JsNumber := none
  maxRedirects : Option JsNumber := none
  allowedHosts : Option (List JsString) := none

structure ResolvedRemoteAddress where
  address : JsString
  family : Nat
deriving DecidableEq

structure RemoteTransportRequest where
  url : Url
  address : ResolvedRemoteAddress
  timeoutMs : Nat
  maxBytes : Nat
  accept : JsString
deriving DecidableEq

/-- A response: a status, three headers, the body. -/
structure RemoteTransportResponse where
  status : JsNumber
  location : Option JsString
  contentType : Option JsString
  contentLength : Option JsString
  data : List UInt8
deriving DecidableEq

structure RemoteFetchResult where
  buffer : List UInt8
  contentType : Option JsString
  finalUrl : Url
deriving DecidableEq

inductive RemoteFileFetchError where
  | fetchFailed
deriving DecidableEq

/-- The dependencies. -/
inductive Call where
  | lookup (hostname : JsString)
  | request (input : RemoteTransportRequest)

@[reducible] def Call.Answer : Call → Type
  | .lookup _ => List ResolvedRemoteAddress
  | .request _ => RemoteTransportResponse

abbrev sig : Signature := ⟨Call, Call.Answer⟩

abbrev Fetch := ExceptT RemoteFileFetchError (Program sig)

def ask (call : Call) : Fetch call.Answer := Program.perform (S := sig) .fetchFailed call

/-- A value that may be missing; every exception ends as the one error. -/
def orFail {α : Type} : Option α → Except RemoteFileFetchError α
  | some value => .ok value
  | none => .error .fetchFailed

def check {α : Type} (result : Except RemoteFileFetchError α) : Fetch α :=
  ExceptT.mk (.done result)

/-! ## Settings -/

def boundedInteger (value : Option JsNumber) (fallback minimum maximum : Nat) : Nat :=
  let candidate : Int :=
    match value with
    | some (.finite value) => value.floor
    | _ => fallback
  (max (minimum : Int) (min candidate maximum)).toNat

def absoluteRemoteFetchLimitBytes : Nat := 25 * 1024 * 1024

/-- The limits of one fetch. -/
structure Settings where
  timeoutMs : Nat
  maxBytes : Nat
  maxRedirects : Nat
  allowedHosts : Option (List JsString)

/-- Drop one dot at the end. -/
def dropTrailingDot (s : JsString) : JsString := if s.getLast? = some dot then s.dropLast else s

def Platform.host (platform : Platform) (text : JsString) : JsString :=
  dropTrailingDot (platform.toLowerCase text)

def settings (platform : Platform) (options : RemoteCloneOptions) : Settings where
  timeoutMs := boundedInteger options.timeoutMs 5000 1 30000
  maxBytes := boundedInteger options.maxBytes (10 * 1024 * 1024) 1 absoluteRemoteFetchLimitBytes
  maxRedirects := boundedInteger options.maxRedirects 3 0 5
  allowedHosts := options.allowedHosts.map (List.map platform.host)

/-! ## One hop -/

/-- An HTTP or HTTPS URL without credentials. -/
def Url.plain (url : Url) : Bool :=
  (url.protocol = js "http:" || url.protocol = js "https:") && url.username = [] &&
    url.password = []

/-- `allowedHosts?.length && !allowedHosts.includes(hostname)` is false. -/
def Settings.allowsHost (limits : Settings) (hostname : JsString) : Bool :=
  match limits.allowedHosts with
  | some (host :: hosts) => (host :: hosts).contains hostname
  | _ => true

/-- The address to contact: the first one, if all are public. -/
def publicAddress (addresses : List ResolvedRemoteAddress) : Option ResolvedRemoteAddress :=
  if addresses.all fun resolved => isPublicNetworkAddress resolved.address then addresses.head?
  else none

/-- The declared or the real length is above the limit. -/
def oversized (maxBytes : Nat) (response : RemoteTransportResponse) : Bool :=
  (match response.contentLength.map JsNumber.ofText with
    | some (.finite declared) => decide ((maxBytes : ℚ) < declared)
    | _ => false) || maxBytes < response.data.length

/-- The checks, the lookup and the request of one hop. -/
def visit (platform : Platform) (limits : Settings) (current : Url) :
    Fetch RemoteTransportResponse := do
  check (orFail (if current.plain then some () else none))
  let hostname := platform.host current.hostname
  check (orFail (if limits.allowsHost hostname then some () else none))
  let addresses ← ask (.lookup hostname)
  let address ← check (orFail (publicAddress addresses))
  let response ← ask (.request
    ⟨current, address, limits.timeoutMs, limits.maxBytes, js "application/octet-stream"⟩)
  check (orFail (if oversized limits.maxBytes response then none else some response))

def redirectStatuses : List JsNumber :=
  [.finite 301, .finite 302, .finite 303, .finite 307, .finite 308]

def conclude (platform : Platform) (current : Url) (response : RemoteTransportResponse) :
    Except RemoteFileFetchError RemoteFetchResult :=
  if response.status.lt (.finite 200) || JsNumber.le (.finite 300) response.status then
    .error .fetchFailed
  else .ok
    { buffer := response.data
      contentType := response.contentType.map fun text =>
        platform.toLowerCase (trim (before 0x3B text))
      finalUrl := current }

/-- The target of a redirect, if it names one. -/
def redirectTarget (platform : Platform) (current : Url) (response : RemoteTransportResponse) :
    Option Url :=
  match response.location with
  | some (u :: location) => platform.parseRelative (u :: location) current
  | _ => none

/-- The loop; the number counts the redirects that may still be followed. -/
def fetchFrom (platform : Platform) (limits : Settings) : Nat → Url → Fetch RemoteFetchResult
  | 0, current => do
      let response ← visit platform limits current
      if response.status ∈ redirectStatuses then throw .fetchFailed
      check (conclude platform current response)
  | remaining + 1, current => do
      let response ← visit platform limits current
      if response.status ∈ redirectStatuses then
        let next ← check (orFail (redirectTarget platform current response))
        fetchFrom platform limits remaining next
      else check (conclude platform current response)

def secureFetchRemote (platform : Platform) (input : JsString) (options : RemoteCloneOptions) :
    Fetch RemoteFetchResult := do
  check (orFail (if options.enabled then some () else none))
  let limits := settings platform options
  let current ← check (orFail (platform.parse input))
  fetchFrom platform limits limits.maxRedirects current

/-! ## Conduct -/

abbrev Past := List (Step sig)

def isRequest (step : Step sig) : Bool :=
  match step.call with
  | .request _ => true
  | .lookup _ => false

/-- How many requests were issued. -/
def requests (past : Past) : Nat := past.countP isRequest

/-- The request is for a plain URL of an allowed host, and its address is the first of the
public ones that the lookup just before returned for that host. -/
def Vetted (platform : Platform) (limits : Settings) (past : Past)
    (input : RemoteTransportRequest) : Prop :=
  input.url.plain = true ∧ limits.allowsHost (platform.host input.url.hostname) = true ∧
    ∃ addresses earlier,
      past = ⟨.lookup (platform.host input.url.hostname), some addresses⟩ :: earlier ∧
      addresses.head? = some input.address ∧
      ∀ resolved ∈ addresses, isPublicNetworkAddress resolved.address = true

/-- The last step is a request whose response is within the limits and has no number for a
status. -/
def Numberless (limits : Settings) (past : Past) : Prop :=
  ∃ input response earlier, past = ⟨.request input, some response⟩ :: earlier ∧
    response.status = .nan ∧ oversized limits.maxBytes response = false

/-- A response without a number for a status ends the fetch. -/
def vetting (platform : Platform) (limits : Settings) : Conduct sig where
  allows past := fun
    | .lookup _ => requests past ≤ limits.maxRedirects ∧ ¬Numberless limits past
    | .request input => Vetted platform limits past input
  credible _ := True

/-- A status from 200 and below 300. -/
def IsSuccess (status : JsNumber) : Prop :=
  JsNumber.le (.finite 200) status = true ∧ status.lt (.finite 300) = true

/-- The result is the body of the response to the last request, which succeeded. -/
def Fetched (limits : Settings) (result : RemoteFetchResult) (past : Past) : Prop :=
  ∃ input response earlier, past = ⟨.request input, some response⟩ :: earlier ∧
    IsSuccess response.status ∧ response.data.length ≤ limits.maxBytes ∧
    result.buffer = response.data ∧ result.finalUrl = input.url

/-- A status that the comparisons of the code let through. -/
def IsLetThrough (status : JsNumber) : Prop :=
  status.lt (.finite 200) = false ∧ JsNumber.le (.finite 300) status = false

/-- What the two comparisons let through is a success or no number. -/
theorem isLetThrough_iff {status : JsNumber} :
    IsLetThrough status ↔ IsSuccess status ∨ status = .nan := by
  cases status with
  | finite value =>
      simp only [IsLetThrough, IsSuccess, JsNumber.lt, JsNumber.le, Bool.or_eq_true,
        Bool.or_eq_false_iff, decide_eq_true_eq, decide_eq_false_iff_not, JsNumber.finite.injEq,
        reduceCtorEq, or_false, not_lt]
      constructor
      · rintro ⟨low, different, high⟩
        exact ⟨eq_or_lt_of_le low, lt_of_le_of_ne high (Ne.symm different)⟩
      · rintro ⟨low, high⟩
        exact ⟨low.elim Eq.le LT.lt.le, high.ne', high.le⟩
  | infinity negative => cases negative <;> simp [IsLetThrough, IsSuccess, JsNumber.lt, JsNumber.le]
  | nan => simp [IsLetThrough, JsNumber.lt, JsNumber.le]

/-- A fetch ends with the body of a response within the limits whose status was let through, or by a
failure that did not come after a response without a number for a status. -/
def Concluded (limits : Settings) : Except RemoteFileFetchError RemoteFetchResult → Past → Prop
  | .ok result, past =>
      ∃ input response earlier, past = ⟨.request input, some response⟩ :: earlier ∧
        IsLetThrough response.status ∧ oversized limits.maxBytes response = false ∧
        result.buffer = response.data ∧ result.finalUrl = input.url
  | .error _, past => ¬Numberless limits past

@[simp] theorem orFail_eq_ok {α : Type} {value? : Option α} {value : α} :
    orFail value? = .ok value ↔ value? = some value := by
  cases value? <;> simp [orFail]

theorem publicAddress_eq_some {addresses : List ResolvedRemoteAddress}
    {address : ResolvedRemoteAddress} :
    publicAddress addresses = some address ↔ addresses.head? = some address ∧
      ∀ resolved ∈ addresses, isPublicNetworkAddress resolved.address = true := by
  unfold publicAddress
  split
  · rename_i all
    simpa using fun _ => all
  · rename_i some
    simp only [List.all_eq_true] at some
    constructor
    · intro impossible
      cases impossible
    · rintro ⟨-, all⟩
      exact absurd all some

section Conduct

variable {platform : Platform} {limits : Settings} {past : Past}

@[simp] theorem requests_lookup (hostname : JsString)
    (reply : Option (List ResolvedRemoteAddress)) :
    requests (⟨.lookup hostname, reply⟩ :: past) = requests past :=
  List.countP_cons_of_neg Bool.false_ne_true

@[simp] theorem requests_request (input : RemoteTransportRequest)
    (reply : Option RemoteTransportResponse) :
    requests (⟨.request input, reply⟩ :: past) = requests past + 1 :=
  List.countP_cons_of_pos rfl

/-- What one hop leaves behind. -/
def Visited (limits : Settings) (current : Url) (past : Past) (response : RemoteTransportResponse)
    (past' : Past) : Prop :=
  requests past' = requests past + 1 ∧ oversized limits.maxBytes response = false ∧
    ∃ input earlier, past' = ⟨.request input, some response⟩ :: earlier ∧ input.url = current

theorem not_numberless_lookup {hostname : JsString} {reply : Option (List ResolvedRemoteAddress)} :
    ¬Numberless limits (⟨.lookup hostname, reply⟩ :: past) := by
  rintro ⟨input, response, earlier, same, -, -⟩
  cases same

theorem visit_follows {current : Url} (few : requests past ≤ limits.maxRedirects)
    (before : ¬Numberless limits past) :
    Follows (vetting platform limits) (visit platform limits current) past
      (Program.handling (fun response past' => Visited limits current past response past')
        fun _ past' => ¬Numberless limits past') := by
  refine Follows.check_bind (fun _ plain => ?_) fun _ => before
  refine Follows.check_bind (fun _ allowed => ?_) fun _ => before
  refine Follows.ask_bind ⟨few, before⟩ (fun addresses _ => ?_) fun _ => not_numberless_lookup
  refine Follows.check_bind (fun address found => ?_) fun _ => not_numberless_lookup
  simp only [orFail_eq_ok, Option.ite_none_right_eq_some] at plain allowed found
  obtain ⟨head, all⟩ := publicAddress_eq_some.mp found
  refine Follows.ask_bind ⟨plain.1, allowed.1, addresses, past, rfl, head, all⟩
    (fun response _ => ?_) fun _ => ?_
  · show Program.handling _ _ (orFail _) _
    split
    · rename_i large
      rintro ⟨input, other, earlier, same, -, within⟩
      cases same
      rw [large] at within
      cases within
    · rename_i within
      exact ⟨by simp, Bool.eq_false_iff.mpr within, _, _, rfl, rfl⟩
  · rintro ⟨input, other, earlier, same, -, -⟩
    cases same

/-- A response with a number for a status is not what a failure must not come after. -/
theorem Visited.not_numberless {current : Url} {past' : Past} {response : RemoteTransportResponse}
    (visited : Visited limits current past response past') (number : response.status ≠ .nan) :
    ¬Numberless limits past' := by
  obtain ⟨-, -, input, earlier, rfl, -⟩ := visited
  rintro ⟨input', other, earlier', same, nan, -⟩
  cases same
  exact number nan

theorem status_ne_nan_of_redirect {status : JsNumber} (redirects : status ∈ redirectStatuses) :
    status ≠ .nan := by
  rintro rfl
  exact absurd redirects (by decide)

theorem conclude_concluded {current : Url} {past' : Past} {response : RemoteTransportResponse}
    (visited : Visited limits current past response past') :
    Concluded limits (conclude platform current response) past' := by
  unfold conclude
  split
  next refused =>
    apply visited.not_numberless
    intro nan
    rw [nan] at refused
    exact absurd refused (by decide)
  next success =>
    rw [Bool.or_eq_true, not_or, Bool.not_eq_true, Bool.not_eq_true] at success
    obtain ⟨-, within, input, earlier, rfl, rfl⟩ := visited
    exact ⟨input, response, earlier, rfl, success, within, rfl, rfl⟩

/-- The loop: each hop leaves one redirect fewer. -/
theorem fetchFrom_follows {remaining : Nat} {current : Url}
    (few : requests past + remaining ≤ limits.maxRedirects) (before : ¬Numberless limits past) :
    Follows (vetting platform limits) (fetchFrom platform limits remaining current) past
      (Concluded limits) := by
  induction remaining generalizing past current with
  | zero =>
      rw [fetchFrom, follows_bind]
      refine (visit_follows (by omega) before).mono fun result past' _ ends => ?_
      cases result with
      | error error => exact ends
      | ok response =>
          have visited : Visited limits current past response past' := ends
          show Follows _ (if response.status ∈ redirectStatuses then _ else _) _ _
          split
          next redirects => exact visited.not_numberless (status_ne_nan_of_redirect redirects)
          next => exact conclude_concluded visited
  | succ remaining ih =>
      rw [fetchFrom, follows_bind]
      refine (visit_follows (by omega) before).mono fun result past' _ ends => ?_
      cases result with
      | error error => exact ends
      | ok response =>
          have visited : Visited limits current past response past' := ends
          show Follows _ (if response.status ∈ redirectStatuses then _ else _) _ _
          split
          next redirects =>
            have number := visited.not_numberless (status_ne_nan_of_redirect redirects)
            refine Follows.check_bind (fun next _ => ih ?_ number) fun _ => number
            rw [visited.1]
            omega
          next => exact conclude_concluded visited

theorem secureFetchRemote_follows (platform : Platform) (input : JsString)
    (options : RemoteCloneOptions) :
    Follows (vetting platform (settings platform options))
      (secureFetchRemote platform input options) [] (Concluded (settings platform options)) := by
  have nothing : ¬Numberless (settings platform options) [] := by
    rintro ⟨_, _, _, same, -⟩
    cases same
  refine Follows.check_bind (fun _ _ => ?_) fun _ => nothing
  refine Follows.check_bind (fun current _ => ?_) fun _ => nothing
  exact fetchFrom_follows (Nat.le_of_eq (Nat.zero_add _)) nothing

end Conduct

/-! ## The law -/

theorem boundedInteger_le (value : Option JsNumber) {fallback minimum maximum : Nat}
    (ordered : minimum ≤ maximum) : boundedInteger value fallback minimum maximum ≤ maximum := by
  simp only [boundedInteger]
  omega

/-- Requests cannot be more than the lookups before them allowed. -/
theorem requests_le {platform : Platform} {limits : Settings} {past : Past}
    (allowed : ∀ step earlier, step :: earlier <:+ past →
      (vetting platform limits).allows earlier step.call) :
    requests past ≤ limits.maxRedirects + 1 := by
  induction past with
  | nil => exact Nat.zero_le _
  | cons step past ih =>
      have older := ih fun step' earlier suffix =>
        allowed step' earlier (suffix.trans (List.suffix_cons _ _))
      have here := allowed step past (List.suffix_refl _)
      obtain ⟨call, reply⟩ := step
      cases call with
      | lookup hostname => exact older
      | request input =>
          obtain ⟨-, -, addresses, earlier, rfl, -, -⟩ := here
          have looked : requests earlier ≤ limits.maxRedirects :=
            (allowed _ earlier (List.suffix_cons _ _)).1
          simpa using looked

/-- What is left of a fetch **stays public**: every request was vetted, there are at most
`maxRedirects + 1` of them, and a result is the bounded body of a response with a success status. -/
def StaysPublic (platform : Platform) (options : RemoteCloneOptions) (past : Past)
    (rest : Program sig (Except RemoteFileFetchError RemoteFetchResult)) : Prop :=
  (∀ request reply earlier, ⟨.request request, reply⟩ :: earlier <:+ past →
    Vetted platform (settings platform options) earlier request) ∧
  requests past ≤ (settings platform options).maxRedirects + 1 ∧
  (settings platform options).maxRedirects ≤ 5 ∧
  (settings platform options).maxBytes ≤ 25 * 1024 * 1024 ∧
  ∀ outcome, rest = .done outcome → outcome = .error .fetchFailed ∨
    ∃ result, outcome = .ok result ∧ Fetched (settings platform options) result past

/-- Nothing is asked after a response without a number for a status, and no failure comes of it. -/
theorem numberless_ends {platform : Platform} {input : JsString} {options : RemoteCloneOptions}
    {past : Past} {rest : Program sig (Except RemoteFileFetchError RemoteFetchResult)}
    (after : Program.After (secureFetchRemote platform input options).run past rest)
    {request : RemoteTransportRequest} {response : RemoteTransportResponse}
    (answered : ⟨.request request, some response⟩ ∈ past) (nan : response.status = .nan)
    (within : oversized (settings platform options).maxBytes response = false) :
    Numberless (settings platform options) past ∧ ∃ result, rest = .done (.ok result) := by
  have follows := secureFetchRemote_follows platform input options
  obtain ⟨newer, older, split⟩ := List.append_of_mem answered
  rcases List.eq_nil_or_concat newer with rfl | ⟨newest, step, rfl⟩
  · have last : Numberless (settings platform options) past :=
      ⟨request, response, older, split, nan, within⟩
    refine ⟨last, ?_⟩
    have obeys := Program.obeys_after follows after fun _ _ => trivial
    cases rest with
    | ask call next =>
        cases call with
        | lookup hostname => exact absurd last obeys.1.2
        | request input =>
            obtain ⟨-, -, addresses, earlier, same, -, -⟩ := obeys.1
            rw [split] at same
            cases same
    | done outcome =>
        cases outcome with
        | error error => exact absurd last obeys
        | ok result => exact ⟨result, rfl⟩
  · -- a step was taken after the response
    exfalso
    have suffix : step :: ⟨.request request, some response⟩ :: older <:+ past := by
      rw [split, List.concat_eq_append, List.append_assoc]
      exact List.suffix_append _ _
    have allowed := Program.allowed_after follows after (fun _ _ => trivial) suffix
    obtain ⟨call, reply⟩ := step
    cases call with
    | lookup hostname => exact allowed.2 ⟨request, response, older, rfl, nan, within⟩
    | request input =>
        obtain ⟨-, -, addresses, earlier, same, -, -⟩ := allowed
        cases same

/-- A remote fetch stays public, whatever the dependencies answered so far, **just in** the runs in
which every response without a number for a status is too large. -/
theorem secure_fetch_stays_public_iff (platform : Platform) (input : JsString)
    (options : RemoteCloneOptions) {past : Past}
    {rest : Program sig (Except RemoteFileFetchError RemoteFetchResult)}
    (after : Program.After (secureFetchRemote platform input options).run past rest) :
    StaysPublic platform options past rest ↔
      ∀ request response, ⟨.request request, some response⟩ ∈ past → response.status = .nan →
        oversized (settings platform options).maxBytes response = true := by
  constructor
  · rintro ⟨-, -, -, -, ends⟩ request response answered nan
    by_contra within
    rw [Bool.not_eq_true] at within
    obtain ⟨⟨input', other, earlier, rfl, nan', -⟩, result, rfl⟩ :=
      numberless_ends after answered nan within
    rcases ends _ rfl with failed | ⟨result', same, input'', last, earlier', here, success, -⟩
    · cases failed
    · cases here
      rw [nan'] at success
      exact absurd success.1 (by decide)
  · intro large
    have follows := secureFetchRemote_follows platform input options
    have allowed : ∀ step earlier, step :: earlier <:+ past →
        (vetting platform (settings platform options)).allows earlier step.call :=
      fun _ _ suffix => Program.allowed_after follows after (fun _ _ => trivial) suffix
    refine ⟨fun request reply earlier suffix => allowed _ earlier suffix, requests_le allowed,
      boundedInteger_le _ (by decide), boundedInteger_le _ (by decide), ?_⟩
    rintro outcome rfl
    have ends := Program.obeys_after follows after fun _ _ => trivial
    cases outcome with
    | error error =>
        cases error
        exact .inl rfl
    | ok result =>
        refine .inr ⟨result, rfl, ?_⟩
        obtain ⟨input', response, earlier, rfl, through, within, body, url⟩ := ends
        have short : response.data.length ≤ (settings platform options).maxBytes := by
          simp only [oversized, Bool.or_eq_false_iff, decide_eq_false_iff_not, Nat.not_lt] at within
          exact within.2
        refine ⟨input', response, earlier, rfl, ?_, short, body, url⟩
        rcases isLetThrough_iff.mp through with success | nan
        · exact success
        · rw [large input' response List.mem_cons_self nan] at within
          cases within

/-- A platform that parses one URL. -/
def smallPlatform : Platform where
  parse text :=
    if text = js "https://public.test/file" then
      some ⟨js "https:", [], [], js "public.test", text⟩
    else none
  parseRelative _ _ := none
  toLowerCase := List.map lowerAscii

def smallOptions : RemoteCloneOptions := ⟨true, none, none, none, none⟩

/-- Dependencies that resolve every name to one public address and answer one status. -/
def smallDependencies (status : JsNumber) : Unit → (call : Call) → Option call.Answer × Unit
  | (), .lookup _ => (some [⟨js "93.184.216.34", 4⟩], ())
  | (), .request _ => (some ⟨status, none, none, none, [0x6F, 0x6B]⟩, ())

/-- The fetch of the one URL returns the body, whether the status is 200 or no number. -/
theorem smallFetch_returns {status : JsNumber} (known : status = .finite 200 ∨ status = .nan) :
    ∃ past result,
      Program.After (secureFetchRemote smallPlatform (js "https://public.test/file") smallOptions).run past
        (.done (.ok result)) ∧
      result.buffer = [0x6F, 0x6B] ∧
      ∀ request response, ⟨.request request, some response⟩ ∈ past → response.status = status := by
  have observed : (Program.run (smallDependencies status)
      (secureFetchRemote smallPlatform (js "https://public.test/file") smallOptions).run
        ()).1.toOption.map RemoteFetchResult.buffer = some [0x6F, 0x6B] := by
    rcases known with rfl | rfl <;> decide +kernel
  obtain ⟨result, returned, body⟩ := Option.map_eq_some_iff.mp observed
  obtain ⟨past, after, replies⟩ := Program.after_run (smallDependencies status)
    (secureFetchRemote smallPlatform (js "https://public.test/file") smallOptions).run ()
  refine ⟨past, result, ?_, body, ?_⟩
  · cases outcome : (Program.run (smallDependencies status)
        (secureFetchRemote smallPlatform (js "https://public.test/file") smallOptions).run ()).1 with
    | error error =>
        rw [outcome] at returned
        cases returned
    | ok value =>
        rw [outcome] at returned after
        cases returned
        exact after
  · intro request response inside
    obtain ⟨_, reply⟩ := replies _ inside
    cases reply
    rfl

theorem secure_fetch_stays_public_fetched :
    ∃ past result,
      Program.After (secureFetchRemote smallPlatform (js "https://public.test/file") smallOptions).run past
        (.done (.ok result)) ∧
      StaysPublic smallPlatform smallOptions past (.done (.ok result)) ∧ result.buffer = [0x6F, 0x6B] := by
  obtain ⟨past, result, after, body, statuses⟩ := smallFetch_returns (.inl rfl)
  refine ⟨past, result, after, ?_, body⟩
  rw [secure_fetch_stays_public_iff smallPlatform _ smallOptions after]
  intro request response inside nan
  rw [statuses request response inside] at nan
  cases nan

/-- A status that is no number passes for a success. -/
theorem numberless_returned :
    ∃ past result,
      Program.After (secureFetchRemote smallPlatform (js "https://public.test/file") smallOptions).run past
        (.done (.ok result)) ∧
      ¬StaysPublic smallPlatform smallOptions past (.done (.ok result)) := by
  obtain ⟨past, result, after, body, statuses⟩ := smallFetch_returns (.inr rfl)
  refine ⟨past, result, after, ?_⟩
  rintro ⟨-, -, -, -, ends⟩
  rcases ends _ rfl with failed | ⟨result', -, request, response, earlier, rfl, success, -⟩
  · cases failed
  · rw [statuses request response List.mem_cons_self] at success
    exact absurd success.1 (by decide)

end SdcoreNest.RemoteFetch
