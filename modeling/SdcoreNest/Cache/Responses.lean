/-
# Cache.Responses -- the responses that `CacheInterceptor` serves

The interceptor answers a call from `CacheService.load` under the key of the call, with the handler of
the call as factory; a call without a key goes to its own handler.  On top of `Traced` this says whose
handler a response comes from: a call that agrees with the one that is answered.
-/
import SdcoreNest.Cache.Interceptor
import SdcoreNest.Cache.Service

namespace SdcoreNest.Cache

open SdcoreNest.Theory SdcoreNest.Utils

set_option autoImplicit false

/-! ## Interceptors over one store -/

/-- The service, and for each ask the call that made it. -/
structure Serving (V E : Type) where
  world : World Text V E
  calls : List Call

inductive Event (V E : Type) where
  /-- A node receives a call of a cached handler. -/
  | request (node : Nat) (call : Call)
  | inner (step : Step Text V E)

section

variable {V E : Type}

/-- The application may invalidate entries, but leaves asking and writing to the interceptors. -/
def Step.inner : Step Text V E → Bool
  | .ask _ => false
  | .issue (.set _ _) => false
  | _ => true

namespace Serving

def start : Serving V E := ⟨World.start, []⟩

variable (digest : List UInt8 → Text) (string : JsNumber → Text) (carry : V → Option V) (timed : Bool)

/-- `intercept`, and the steps of the service. -/
def serve (serving : Serving V E) : Event V E → Option (Serving V E)
  | .request node call =>
      match buildKey digest string call with
      | none => some serving
      | some key => do
          let world ← serving.world.step carry timed (.ask ⟨node, key, true⟩)
          return ⟨world, serving.calls ++ [call]⟩
  | .inner step => do
      if step.inner then
        let world ← serving.world.step carry timed step
        return { serving with world }
      else none

def serveAll : Serving V E → List (Event V E) → Option (Serving V E)
  | serving, [] => some serving
  | serving, event :: rest =>
      (serving.serve digest string carry timed event).bind fun next => next.serveAll rest

end Serving

/-! ## The calls behind the asks -/

variable {digest : List UInt8 → Text} {string : JsNumber → Text} {carry : V → Option V} {timed : Bool}

theorem conclude_log {world next : World Text V E} {i : Nat} {request : Request Text V} {found : Option V}
    (concluded : world.conclude i request found = some next) : next.log = world.log := by
  obtain ⟨operation, awaiter, found', ended'⟩ := request
  cases awaiter with
  | application =>
      cases concluded
      rfl
  | lookup n flight =>
      obtain ⟨flights, -, same⟩ := Option.bind_eq_some_iff.mp concluded
      cases same
      rfl
  | storing n flight value =>
      obtain ⟨flights, -, same⟩ := Option.bind_eq_some_iff.mp concluded
      cases same
      rfl

/-- An inner step leaves what was asked and what the application wrote. -/
theorem log_of_inner {world next : World Text V E} {step : Step Text V E} (inner : step.inner = true)
    (stepped : world.step carry timed step = some next) :
    next.log.asks = world.log.asks ∧ next.log.written = world.log.written := by
  cases step with
  | ask ask => cases inner
  | issue operation =>
      cases operation with
      | set key value => cases inner
      | get key =>
          cases stepped
          exact ⟨rfl, List.append_nil _⟩
      | del key =>
          cases stepped
          exact ⟨rfl, List.append_nil _⟩
      | clear =>
          cases stepped
          exact ⟨rfl, List.append_nil _⟩
  | takes i =>
      obtain ⟨request, -, rest⟩ := Option.bind_eq_some_iff.mp stepped
      split at rest
      · cases rest
      · cases rest
        exact ⟨rfl, rfl⟩
  | evict key =>
      cases stepped
      exact ⟨rfl, rfl⟩
  | answers i =>
      obtain ⟨request, -, rest⟩ := Option.bind_eq_some_iff.mp stepped
      obtain ⟨found, -, rest⟩ := Option.bind_eq_some_iff.mp rest
      split at rest
      · cases rest
      · rw [conclude_log rest]
        exact ⟨rfl, rfl⟩
  | fails i =>
      obtain ⟨request, -, rest⟩ := Option.bind_eq_some_iff.mp stepped
      split at rest
      · cases rest
      · rw [conclude_log rest]
        exact ⟨rfl, rfl⟩
  | expires i =>
      obtain ⟨request, -, rest⟩ := Option.bind_eq_some_iff.mp stepped
      split at rest
      · cases rest
      · rw [conclude_log rest]
        exact ⟨rfl, rfl⟩
  | getFlight n reaction flight =>
      obtain ⟨flights, -, same⟩ := Option.bind_eq_some_iff.mp stepped
      cases same
      exact ⟨rfl, rfl⟩
  | loadFlight n reaction flight =>
      obtain ⟨flights, -, same⟩ := Option.bind_eq_some_iff.mp stepped
      cases same
      exact ⟨rfl, rfl⟩
  | resume i =>
      obtain ⟨ask, -, rest⟩ := Option.bind_eq_some_iff.mp stepped
      obtain ⟨stage, -, rest⟩ := Option.bind_eq_some_iff.mp rest
      cases stage with
      | looking flight =>
          obtain ⟨entry, -, rest⟩ := Option.bind_eq_some_iff.mp rest
          obtain ⟨outcome, -, same⟩ := Option.bind_eq_some_iff.mp rest
          cases same
          unfold World.continueAsk
          split
          · split <;> exact ⟨rfl, rfl⟩
          · exact ⟨rfl, rfl⟩
      | sharing flight => cases rest
      | done outcome => cases rest
  | returns n =>
      obtain ⟨flights, -, same⟩ := Option.bind_eq_some_iff.mp stepped
      cases same
      exact ⟨rfl, rfl⟩
  | factory n flight outcome =>
      obtain ⟨entry, -, rest⟩ := Option.bind_eq_some_iff.mp stepped
      obtain ⟨launcher, -, rest⟩ := Option.bind_eq_some_iff.mp rest
      split at rest
      · split at rest
        · cases rest
        · unfold World.settleFactory at rest
          split at rest
          · cases rest
            exact ⟨rfl, rfl⟩
          · obtain ⟨flights, -, same⟩ := Option.bind_eq_some_iff.mp rest
            cases same
            exact ⟨rfl, rfl⟩
      · cases rest
  | finish i =>
      obtain ⟨ask, -, rest⟩ := Option.bind_eq_some_iff.mp stepped
      obtain ⟨stage, -, rest⟩ := Option.bind_eq_some_iff.mp rest
      cases stage with
      | sharing flight =>
          obtain ⟨entry, -, rest⟩ := Option.bind_eq_some_iff.mp rest
          obtain ⟨outcome, -, same⟩ := Option.bind_eq_some_iff.mp rest
          cases same
          exact ⟨rfl, rfl⟩
      | looking flight => cases rest
      | done outcome => cases rest

/-- Every ask is that of a call with a key, and asks under it. -/
structure Serving.Keyed (digest : List UInt8 → Text) (string : JsNumber → Text) (carry : V → Option V)
    (serving : Serving V E) : Prop where
  traced : serving.world.Traced carry
  written : serving.world.log.written = []
  length : serving.calls.length = serving.world.log.asks.length
  keys : ∀ (i : Nat) (call : Call) (ask : Ask Text), serving.calls[i]? = some call →
    serving.world.log.asks[i]? = some ask → buildKey digest string call = some ask.key ∧ ask.loads = true
  dotless : ∀ call ∈ serving.calls, '.' ∉ call.className

theorem Serving.Keyed.serve {serving next : Serving V E} (keyed : serving.Keyed digest string carry)
    {event : Event V E} (dotless : ∀ node call, event = .request node call → '.' ∉ call.className)
    (served : serving.serve digest string carry timed event = some next) :
    next.Keyed digest string carry := by
  cases event with
  | inner step =>
      simp only [Serving.serve] at served
      split at served
      next inner =>
        obtain ⟨world, stepped, same⟩ := Option.bind_eq_some_iff.mp served
        cases same
        obtain ⟨asks, written⟩ := log_of_inner inner stepped
        exact ⟨keyed.traced.step stepped, written.trans keyed.written, keyed.length.trans (by rw [asks]),
          fun i call ask called asked => keyed.keys i call ask called (asks ▸ asked), keyed.dotless⟩
      next => cases served
  | request node call =>
      simp only [Serving.serve] at served
      split at served
      next =>
        cases served
        exact keyed
      next key built =>
        obtain ⟨world, stepped, same⟩ := Option.bind_eq_some_iff.mp served
        cases same
        have traced := keyed.traced.step stepped
        obtain ⟨⟨joined, node'⟩, -, same⟩ := Option.bind_eq_some_iff.mp stepped
        cases same
        refine ⟨traced, keyed.written, ?_, fun i call' ask called asked => ?_, fun call' member => ?_⟩
        · rw [List.length_append, List.length_append, keyed.length]
          rfl
        · rw [List.getElem?_append] at called asked
          rw [← keyed.length] at asked
          split at called
          next old =>
            rw [if_pos old] at asked
            exact keyed.keys i call' ask called asked
          next new =>
            rw [if_neg new] at asked
            rw [List.getElem?_singleton] at called asked
            split at called
            next last =>
              rw [if_pos last] at asked
              cases called
              cases asked
              exact ⟨built, rfl⟩
            next => cases called
        · rcases List.mem_append.mp member with old | new
          · exact keyed.dotless call' old
          · obtain rfl := List.mem_singleton.mp new
            exact dotless node _ rfl

theorem keyed_start : (Serving.start : Serving V E).Keyed digest string carry where
  traced := World.traced_start
  written := rfl
  length := rfl
  keys _ _ _ called := by cases called
  dotless _ member := by cases member

theorem keyed_of_serveAll {events : List (Event V E)} :
    ∀ {serving final : Serving V E}, serving.Keyed digest string carry →
      (∀ node call, .request node call ∈ events → '.' ∉ call.className) →
      serving.serveAll digest string carry timed events = some final → final.Keyed digest string carry := by
  induction events with
  | nil =>
      intro serving final keyed _ served
      obtain rfl := Option.some.inj served
      exact keyed
  | cons event rest ih =>
      intro serving final keyed dotless served
      obtain ⟨next, first, served⟩ := Option.bind_eq_some_iff.mp served
      refine ih (keyed.serve (fun node call same => dotless node call (same ▸ List.mem_cons_self)) first)
        (fun node call later => dotless node call (.tail _ later)) served

/-- The response of a call is what the handler of the other one came to, or what the store gave back
for it. -/
def Serving.Answers (carry : V → Option V) (serving : Serving V E) (j : Nat)
    (outcome : Outcome (Option V) E) : Prop :=
  (j, outcome) ∈ serving.world.log.outcomes ∨ ∃ given value,
    (j, .resolved (some given)) ∈ serving.world.log.outcomes ∧ carry given = some value ∧
      outcome = .resolved (some value)

/-- **Cached responses do not cross**: whatever nodes, timers, handlers and the store do, a call that was
served through the cache has the identity that its scope asks for, and its response comes from the
handler of a call that agrees with it. -/
theorem responses_isolated (hashing : Hashing digest) (prints : PrintsApart string)
    {events : List (Event V E)} {serving : Serving V E}
    (dotless : ∀ node call, .request node call ∈ events → '.' ∉ call.className)
    (served : Serving.start.serveAll digest string carry timed events = some serving) {i : Nat} {call : Call}
    {outcome : Outcome (Option V) E} (called : serving.calls[i]? = some call)
    (done : serving.world.stages[i]? = some (.done outcome)) :
    call.Identified ∧ ∃ (j : Nat) (other : Call), serving.calls[j]? = some other ∧ other.Agrees call ∧
      serving.Answers carry j outcome := by
  have keyed := keyed_of_serveAll keyed_start dotless served
  have inside : i < serving.world.log.asks.length := keyed.length ▸ (List.getElem?_eq_some_iff.mp called).1
  have asked := List.getElem?_eq_getElem inside
  obtain ⟨built, loads⟩ := keyed.keys i call _ called asked
  refine ⟨identified_of_built built, ?_⟩
  -- the call behind a factory for the key agrees with this one
  have agrees {j n : Nat} (asks : serving.world.log.Asks j n (serving.world.log.asks[i]).key) :
      ∃ other, serving.calls[j]? = some other ∧ other.Agrees call := by
    obtain ⟨ask, asked', -, named, -⟩ := asks
    have inside' : j < serving.calls.length := keyed.length ▸ (List.getElem?_eq_some_iff.mp asked').1
    have called' := List.getElem?_eq_getElem inside'
    have built' := (keyed.keys j _ ask called' asked').1
    exact ⟨_, called', (keys_eq_iff hashing prints (keyed.dotless _ (List.mem_of_getElem? called'))
      (keyed.dotless call (List.mem_of_getElem? called)) built' built).mp named⟩
  rcases keyed.traced.staged i _ _ asked done with ⟨found, rfl, miss, hands⟩ | ⟨-, j, asks, logged⟩
  · cases found with
    | none =>
        rw [miss rfl] at loads
        cases loads
    | some value =>
        obtain ⟨given, gives, carried⟩ := hands value rfl
        rcases gives with ⟨n, j, asks, logged⟩ | written
        · obtain ⟨other, called', agreed⟩ := agrees asks
          exact ⟨j, other, called', agreed, .inr ⟨given, value, logged, carried, rfl⟩⟩
        · rw [keyed.written] at written
          cases written
  · obtain ⟨other, called', agreed⟩ := agrees asks
    exact ⟨j, other, called', agreed, .inl logged⟩

end

/-- Two callers with the same roles, on two nodes. -/
def sharedRun : List (Event Nat Nat) :=
  [.request 0 (smallCall ["viewer", "editor"]), .inner (.expires 0), .inner (.getFlight 0 .cleanup 0),
    .inner (.getFlight 0 .delivers 0), .inner (.resume 0), .inner (.returns 0),
    .inner (.factory 0 0 (.resolved (some 5))), .inner (.takes 1),
    .request 1 (smallCall ["editor", "viewer"]), .inner (.takes 2), .inner (.answers 2),
    .inner (.getFlight 1 .cleanup 0), .inner (.getFlight 1 .delivers 0), .inner (.resume 1)]

theorem second_caller_served : ∃ (serving : Serving Nat Nat) (call other : Call) (j : Nat),
    serving.calls[1]? = some call ∧ serving.world.stages[1]? = some (.done (.resolved (some 5))) ∧
      serving.calls[j]? = some other ∧ other.Agrees call ∧ serving.Answers some j (.resolved (some 5)) := by
  have observed : ((Serving.start.serveAll smallDigest smallString some true sharedRun).any fun serving =>
      serving.world.stages[1]? = some (.done (.resolved (some 5))) && serving.calls.length = 2) = true := by
    decide +kernel
  have dotless : ∀ node call, .request node call ∈ sharedRun → '.' ∉ call.className := by
    intro node call member
    simp only [sharedRun, List.mem_cons, Event.request.injEq, reduceCtorEq, List.not_mem_nil, or_false,
      false_or] at member
    rcases member with ⟨-, rfl⟩ | ⟨-, rfl⟩ <;> decide
  obtain ⟨serving, served, seen⟩ := (Option.any_eq_true _ _).mp observed
  rw [Bool.and_eq_true, decide_eq_true_eq, decide_eq_true_eq] at seen
  have called : serving.calls[1]? = some serving.calls[1] :=
    List.getElem?_eq_getElem (Nat.lt_of_lt_of_eq (by decide) seen.2.symm)
  obtain ⟨-, j, other, called', agrees, answers⟩ :=
    responses_isolated smallDigest_hashing smallString_apart dotless served called seen.1
  exact ⟨serving, _, other, j, called, seen.1, called', agrees, answers⟩

end SdcoreNest.Cache
