/-
# Cache.Service -- `CacheService` on any number of nodes that share one store

`get` and `load` of `cache.service.ts` as a machine over the single-flight machine.  A node has one
map of flights for lookups and one for factories; its backend calls are requests that take effect in
the shared store at any time, or never, and whose promise `guarded` ends by an answer, an exception or
the timer, whichever is first.  The store may lose any entry at any moment.

* `Traced` -- what is stored, looked up, shared or answered under a key was given under this key;
* `traced_of_follow` -- every step keeps it, so every schedule does;
* `cache_answers_traced` -- what callers get.
-/
import SdcoreNest.Utils.SingleFlight

namespace SdcoreNest.Cache

open SdcoreNest.Utils SdcoreNest.Utils.Service

set_option autoImplicit false

/-! ## The machine -/

/-- A call of the backend. -/
inductive Operation (K V : Type) where
  | get (key : K)
  | set (key : K) (value : V)
  | del (key : K)
  | clear

/-- Who waits for the end of a backend call. -/
inductive Awaiter (V : Type) where
  /-- The lookup that is a flight of the node. -/
  | lookup (node flight : Nat)
  /-- The factory that is a flight of the node, to store its value. -/
  | storing (node flight : Nat) (value : V)
  | application

/-- A backend call that was started. -/
structure Request (K V : Type) where
  operation : Operation K V
  awaiter : Awaiter V
  /-- What the backend found, once the call took effect. -/
  found : Option (Option V) := none
  /-- `guarded` has ended. -/
  ended : Bool := false

/-- A call of `get` or of `load`. -/
structure Ask (K : Type) where
  node : Nat
  key : K
  loads : Bool

inductive Stage (V E : Type) where
  | looking (flight : Nat)
  | sharing (flight : Nat)
  | done (outcome : Outcome (Option V) E)
deriving DecidableEq

/-- `CacheService` of one process. -/
structure Node (K V E : Type) where
  getFlights : Service K (Option V) E
  loadFlights : Service K (Option V) E
  /-- For each flight of a factory the ask whose factory it is. -/
  launchers : List Nat
  /-- The flights whose factory's promise is settled. -/
  answered : List Nat

/-- What was asked, what factories came to, and what the application wrote. -/
structure Log (K V E : Type) where
  asks : List (Ask K)
  outcomes : List (Nat × Outcome (Option V) E)
  written : List (K × V)

structure World (K V E : Type) where
  nodes : Nat → Node K V E
  store : K → Option V
  requests : List (Request K V)
  stages : List (Stage V E)
  log : Log K V E

/-- The two reactions of a settled flight. -/
inductive Reaction where
  | cleanup
  | delivers

inductive Step (K V E : Type) where
  | ask (ask : Ask K)
  /-- The application calls `set`, `del` or `clear`. -/
  | issue (operation : Operation K V)
  | takes (request : Nat)
  /-- The store drops an entry: it expired, or made room, or somebody else removed it. -/
  | evict (key : K)
  | answers (request : Nat)
  | fails (request : Nat)
  | expires (request : Nat)
  | getFlight (node : Nat) (reaction : Reaction) (flight : Nat)
  | loadFlight (node : Nat) (reaction : Reaction) (flight : Nat)
  /-- A caller goes on after its lookup. -/
  | resume (ask : Nat)
  /-- The innermost factory returns its promise. -/
  | returns (node : Nat)
  /-- The promise of a factory settles. -/
  | factory (node flight : Nat) (outcome : Outcome (Option V) E)
  /-- A caller goes on after the flight that it shares. -/
  | finish (ask : Nat)

section

variable {K V E : Type}

def Reaction.action : Reaction → Nat → Action K (Option V) E
  | .cleanup, flight => .cleanup flight
  | .delivers, flight => .delivers flight

/-- What an operation of the application writes. -/
def Operation.written : Operation K V → List (K × V)
  | .set key value => [(key, value)]
  | _ => []

namespace World

def withNode (world : World K V E) (n : Nat) (node : Node K V E) : World K V E :=
  { world with nodes := Function.update world.nodes n node }

variable [DecidableEq K]

def start : World K V E where
  nodes _ := ⟨Service.start, Service.start, [], []⟩
  store _ := none
  requests := []
  stages := []
  log := ⟨[], [], []⟩

end World

variable [DecidableEq K]

/-- `getFlights.run(key, …)`: the factory starts the backend call and returns a promise. -/
def Node.lookUp (node : Node K V E) (key : K) : Option (Joined × Node K V E) := do
  let (joined, called) := node.getFlights.run key
  let getFlights ← if joined.invoked then called.step .adopts else some called
  return (joined, { node with getFlights })

/-- `loadFlights.run(key, …)`: the factory of the ask begins to run. -/
def Node.share (node : Node K V E) (ask : Nat) (key : K) : Nat × Node K V E :=
  let (joined, loadFlights) := node.loadFlights.run key
  (joined.flight, { node with
    loadFlights := loadFlights
    launchers := if joined.invoked then node.launchers ++ [ask] else node.launchers })

/-- What an operation finds and leaves; `carry` is what the backend gives back for a value. -/
def Operation.act (carry : V → Option V) (store : K → Option V) :
    Operation K V → Option V × (K → Option V)
  | .get key => (store key, store)
  | .set key value => (none, Function.update store key (carry value))
  | .del key => (none, Function.update store key none)
  | .clear => (none, fun _ => none)

namespace World

/-- `guarded` ends, and with it the flight that waits. -/
def conclude (world : World K V E) (i : Nat) (request : Request K V) (found : Option V) :
    Option (World K V E) := do
  let world := { world with requests := world.requests.set i { request with ended := true } }
  match request.awaiter with
  | .lookup n flight =>
      let getFlights ← (world.nodes n).getFlights.step (.settles flight (.resolved found))
      return world.withNode n { world.nodes n with getFlights }
  | .storing n flight value =>
      let loadFlights ← (world.nodes n).loadFlights.step (.settles flight (.resolved (some value)))
      return world.withNode n { world.nodes n with loadFlights }
  | .application => return world

/-- The promise of the factory of a flight settles. -/
def settleFactory (world : World K V E) (n flight launcher : Nat) (key : K)
    (outcome : Outcome (Option V) E) : Option (World K V E) := do
  let node := world.nodes n
  let log := { world.log with outcomes := world.log.outcomes ++ [(launcher, outcome)] }
  let answered := node.answered ++ [flight]
  match outcome with
  | .resolved (some value) =>
      return { world.withNode n { node with answered } with
        requests := world.requests ++ [{ operation := .set key value, awaiter := .storing n flight value }]
        log := log }
  | outcome =>
      let loadFlights ← node.loadFlights.step (.settles flight outcome)
      return { world.withNode n { node with loadFlights, answered } with log := log }

/-- A caller goes on after its lookup. -/
def continueAsk (world : World K V E) (i : Nat) (ask : Ask K) : Outcome (Option V) E → World K V E
  | .resolved none =>
      if ask.loads then
        let (flight, node) := (world.nodes ask.node).share i ask.key
        { world.withNode ask.node node with stages := world.stages.set i (.sharing flight) }
      else { world with stages := world.stages.set i (.done (.resolved none)) }
  | outcome => { world with stages := world.stages.set i (.done outcome) }

variable (carry : V → Option V) (timed : Bool)

def step (world : World K V E) : Step K V E → Option (World K V E)
  | .ask ask => do
      let (joined, node) ← (world.nodes ask.node).lookUp ask.key
      return { world.withNode ask.node node with
        requests := if joined.invoked then
            world.requests ++ [{ operation := .get ask.key, awaiter := .lookup ask.node joined.flight }]
          else world.requests
        stages := world.stages ++ [.looking joined.flight]
        log := { world.log with asks := world.log.asks ++ [ask] } }
  | .issue operation => some { world with
      requests := world.requests ++ [{ operation := operation, awaiter := .application }]
      log := { world.log with written := world.log.written ++ operation.written } }
  | .takes i => do
      let request ← world.requests[i]?
      if request.found.isSome then none
      else
        let (found, store) := request.operation.act carry world.store
        return { world with
          store := store
          requests := world.requests.set i { request with found := some found } }
  | .evict key => some { world with store := Function.update world.store key none }
  | .answers i => do
      let request ← world.requests[i]?
      let found ← request.found
      if request.ended then none else world.conclude i request found
  | .fails i => do
      let request ← world.requests[i]?
      if request.ended then none else world.conclude i request none
  | .expires i => do
      let request ← world.requests[i]?
      if !timed || request.ended then none else world.conclude i request none
  | .getFlight n reaction flight => do
      let getFlights ← (world.nodes n).getFlights.step (reaction.action flight)
      return world.withNode n { world.nodes n with getFlights }
  | .loadFlight n reaction flight => do
      let loadFlights ← (world.nodes n).loadFlights.step (reaction.action flight)
      return world.withNode n { world.nodes n with loadFlights }
  | .resume i => do
      let ask ← world.log.asks[i]?
      let .looking flight ← world.stages[i]? | none
      let entry ← (world.nodes ask.node).getFlights.flightAt flight
      let outcome ← entry.outcome
      return world.continueAsk i ask outcome
  | .returns n => do
      let loadFlights ← (world.nodes n).loadFlights.step .adopts
      return world.withNode n { world.nodes n with loadFlights }
  | .factory n flight outcome => do
      let node := world.nodes n
      let entry ← node.loadFlights.flightAt flight
      let launcher ← node.launchers[flight]?
      match entry.pending with
      | .adopting =>
          if flight ∈ node.answered then none
          else world.settleFactory n flight launcher entry.key outcome
      | _ => none
  | .finish i => do
      let ask ← world.log.asks[i]?
      let .sharing flight ← world.stages[i]? | none
      let entry ← (world.nodes ask.node).loadFlights.flightAt flight
      let outcome ← entry.outcome
      return { world with stages := world.stages.set i (.done outcome) }

/-- The world a schedule leads to. -/
def follow : World K V E → List (Step K V E) → Option (World K V E)
  | world, [] => some world
  | world, step :: rest => (world.step carry timed step).bind fun next => next.follow rest

end World

end

/-! ## Steps of the flights -/

section

variable {K V E : Type}

/-- A step that begins no flight: flights stay under their keys, and one that is settled was so
before or is settled as allowed. -/
structure Inherits (allowed : Nat → Outcome V E → Prop) (service next : Service K V E) : Prop where
  sound : next.Sound
  onward : ∀ flight entry, service.flightAt flight = some entry →
    ∃ later, next.flightAt flight = some later ∧ later.key = entry.key
  origin : ∀ flight later, next.flightAt flight = some later → ∃ entry,
    service.flightAt flight = some entry ∧ entry.key = later.key ∧
      ∀ outcome, later.pending = .settled outcome → entry.pending = .settled outcome ∨ allowed flight outcome
  length : next.begun.length = service.begun.length

/-- Where the flights of a patched service come from. -/
theorem Inherits.of_patch {service next : Service K V E} {flight : Nat}
    {change : Flight K V E → Flight K V E} {allowed : Nat → Outcome V E → Prop} (sound : next.Sound)
    (patched : next.begun = (service.patch flight change).begun)
    (sameKey : ∀ entry, (change entry).key = entry.key)
    (settles : ∀ entry outcome, service.flightAt flight = some entry →
      (change entry).pending = .settled outcome → entry.pending = .settled outcome ∨ allowed flight outcome) :
    Inherits allowed service next where
  sound := sound
  onward other entry found := by
    have there : next.flightAt other = (service.patch flight change).flightAt other :=
      congrArg (·[other]?) patched
    by_cases same : other = flight
    · exact ⟨change entry, there.trans (flightAt_patch.mpr (.inl ⟨same, entry, same ▸ found, rfl⟩)),
        sameKey entry⟩
    · exact ⟨entry, there.trans (flightAt_patch.mpr (.inr ⟨same, found⟩)), rfl⟩
  origin other later found := by
    have there : (service.patch flight change).flightAt other = some later :=
      (congrArg (·[other]?) patched).symm.trans found
    rcases flightAt_patch.mp there with ⟨rfl, entry, known, rfl⟩ | ⟨-, known⟩
    · exact ⟨entry, known, (sameKey entry).symm, fun outcome settled => settles entry outcome known settled⟩
    · exact ⟨later, known, rfl, fun outcome settled => .inl settled⟩
  length := by rw [patched, Service.patch, List.length_modify]

variable [DecidableEq K] {service next : Service K V E} {flight : Nat}

theorem run_of_some {key : K} (found : service.flights key = some flight) :
    service.run key = (⟨flight, false⟩, service) := by
  rw [Service.run, found]

theorem run_of_none {key : K} (absent : service.flights key = none) :
    service.run key = (⟨service.begun.length, true⟩, service.launch key) := by
  rw [Service.run, absent]

theorem inherits_reaction {service next : Service K (Option V) E} (sound : service.Sound)
    {reaction : Reaction} (stepped : service.step (reaction.action flight) = some next) :
    Inherits (fun _ _ => False) service next := by
  have later := sound.step stepped
  cases reaction with
  | cleanup =>
      cases effect_of_step stepped with
      | cleaned found settled first => exact .of_patch later rfl (fun _ => rfl) fun _ _ _ => .inl
      | left ends _ => cases ends
  | delivers =>
      cases effect_of_step stepped with
      | delivered found settled cleaned => exact .of_patch later rfl (fun _ => rfl) fun _ _ _ => .inl
      | left ends _ => cases ends

theorem inherits_settles (sound : service.Sound) {outcome : Outcome V E}
    (stepped : service.step (.settles flight outcome) = some next) :
    Inherits (fun other settled => other = flight ∧ settled = outcome) service next := by
  have later := sound.step stepped
  cases effect_of_step stepped with
  | settled found adopting =>
      refine .of_patch later rfl (fun _ => rfl) fun entry settled known same => ?_
      cases same
      exact .inr ⟨rfl, rfl⟩
  | left ends _ => cases ends

theorem inherits_adopts (sound : service.Sound) (stepped : service.step .adopts = some next) :
    Inherits (fun _ _ => False) service next := by
  have later := sound.step stepped
  rw [Service.step, leave] at stepped
  split at stepped
  · cases stepped
  next flight stack running =>
    obtain rfl := Option.some.inj stepped
    refine @Inherits.of_patch _ _ _ service _ flight (fun entry => { entry with pending := .adopting }) _
      later rfl (fun _ => rfl) fun entry outcome known same => ?_
    cases same

end

/-! ## What a log accounts for -/

section

variable {K V E : Type}

namespace Log

/-- An ask for the key on the node runs its factory. -/
def Asks (log : Log K V E) (i n : Nat) (key : K) : Prop :=
  ∃ ask, log.asks[i]? = some ask ∧ ask.node = n ∧ ask.key = key ∧ ask.loads = true

/-- A factory of an ask for the key on the node came to the outcome. -/
def Ended (log : Log K V E) (n : Nat) (key : K) (outcome : Outcome (Option V) E) : Prop :=
  ∃ i, log.Asks i n key ∧ (i, outcome) ∈ log.outcomes

/-- A factory for the key came to the value, or the application wrote it under the key. -/
def Gives (log : Log K V E) (key : K) (value : V) : Prop :=
  (∃ n, log.Ended n key (.resolved (some value))) ∨ (key, value) ∈ log.written

/-- The store may hand the value out under the key. -/
def Hands (carry : V → Option V) (log : Log K V E) (key : K) (value : V) : Prop :=
  ∃ given, log.Gives key given ∧ carry given = some value

/-- The outcome comes from the store, or from a factory for the key on the same node. -/
def Accounts (carry : V → Option V) (log : Log K V E) (ask : Ask K) (outcome : Outcome (Option V) E) : Prop :=
  (∃ found, outcome = .resolved found ∧ (found = none → ask.loads = false) ∧
      ∀ value, found = some value → log.Hands carry ask.key value) ∨
    ask.loads = true ∧ log.Ended ask.node ask.key outcome

/-- The log later on. -/
structure Later (log log' : Log K V E) : Prop where
  asks : ∀ (i : Nat) (ask : Ask K), log.asks[i]? = some ask → log'.asks[i]? = some ask
  outcomes : log.outcomes ⊆ log'.outcomes
  written : log.written ⊆ log'.written

variable {carry : V → Option V} {log log' : Log K V E}

theorem Later.refl (log : Log K V E) : log.Later log :=
  ⟨fun _ _ => id, List.Subset.refl _, List.Subset.refl _⟩

theorem Asks.later {i n : Nat} {key : K} (asks : log.Asks i n key) (onward : log.Later log') :
    log'.Asks i n key := by
  obtain ⟨ask, there, named⟩ := asks
  exact ⟨ask, onward.asks i ask there, named⟩

theorem Ended.later {n : Nat} {key : K} {outcome : Outcome (Option V) E} (ended : log.Ended n key outcome)
    (onward : log.Later log') : log'.Ended n key outcome := by
  obtain ⟨i, asks, logged⟩ := ended
  exact ⟨i, asks.later onward, onward.outcomes logged⟩

theorem Gives.later {key : K} {value : V} (gives : log.Gives key value) (onward : log.Later log') :
    log'.Gives key value := by
  rcases gives with ⟨n, ended⟩ | written
  · exact .inl ⟨n, ended.later onward⟩
  · exact .inr (onward.written written)

theorem Hands.later {key : K} {value : V} (hands : log.Hands carry key value) (onward : log.Later log') :
    log'.Hands carry key value := by
  obtain ⟨given, gives, carried⟩ := hands
  exact ⟨given, gives.later onward, carried⟩

theorem Accounts.later {ask : Ask K} {outcome : Outcome (Option V) E}
    (accounts : log.Accounts carry ask outcome) (onward : log.Later log') :
    log'.Accounts carry ask outcome := by
  rcases accounts with ⟨found, same, miss, hands⟩ | ⟨loads, ended⟩
  · exact .inl ⟨found, same, miss, fun value is => (hands value is).later onward⟩
  · exact .inr ⟨loads, ended.later onward⟩

end Log

/-! ## The invariant -/

/-- What the flights of a node are settled with is accounted for. -/
structure Node.Traced (carry : V → Option V) (log : Log K V E) (n : Nat) (node : Node K V E) : Prop where
  getSound : node.getFlights.Sound
  loadSound : node.loadFlights.Sound
  got : ∀ flight entry outcome, node.getFlights.flightAt flight = some entry →
    entry.pending = .settled outcome → ∃ found, outcome = .resolved found ∧
      ∀ value, found = some value → log.Hands carry entry.key value
  loaded : ∀ flight entry outcome, node.loadFlights.flightAt flight = some entry →
    entry.pending = .settled outcome → log.Ended n entry.key outcome
  launchers : node.launchers.length = node.loadFlights.begun.length
  launched : ∀ flight entry i, node.loadFlights.flightAt flight = some entry →
    node.launchers[flight]? = some i → log.Asks i n entry.key

/-- Who waits for a backend call waits for its own key. -/
def Awaiter.Fits (nodes : Nat → Node K V E) (log : Log K V E) (operation : Operation K V) : Awaiter V → Prop
  | .lookup n flight =>
      ∃ entry, (nodes n).getFlights.flightAt flight = some entry ∧ operation = .get entry.key
  | .storing n flight value => ∃ entry, (nodes n).loadFlights.flightAt flight = some entry ∧
      log.Ended n entry.key (.resolved (some value))
  | .application => True

structure Request.Traced (carry : V → Option V) (nodes : Nat → Node K V E) (log : Log K V E)
    (request : Request K V) : Prop where
  sets : ∀ key value, request.operation = .set key value → log.Gives key value
  found : ∀ key value, request.operation = .get key → request.found = some (some value) →
    log.Hands carry key value
  fits : request.awaiter.Fits nodes log request.operation

def Stage.Traced (carry : V → Option V) (nodes : Nat → Node K V E) (log : Log K V E) (ask : Ask K) :
    Stage V E → Prop
  | .looking flight => ∃ entry, (nodes ask.node).getFlights.flightAt flight = some entry ∧ entry.key = ask.key
  | .sharing flight => ask.loads = true ∧
      ∃ entry, (nodes ask.node).loadFlights.flightAt flight = some entry ∧ entry.key = ask.key
  | .done outcome => log.Accounts carry ask outcome

structure World.Traced (carry : V → Option V) (world : World K V E) : Prop where
  nodes : ∀ n, (world.nodes n).Traced carry world.log n
  store : ∀ key value, world.store key = some value → world.log.Hands carry key value
  requests : ∀ request ∈ world.requests, request.Traced carry world.nodes world.log
  stages : world.stages.length = world.log.asks.length
  staged : ∀ (i : Nat) (ask : Ask K) (stage : Stage V E), world.log.asks[i]? = some ask →
    world.stages[i]? = some stage → stage.Traced carry world.nodes world.log ask

/-- Flights of a node later on: they are still there, under their keys. -/
structure Node.Later (node later : Node K V E) : Prop where
  gets : ∀ flight entry, node.getFlights.flightAt flight = some entry →
    ∃ entry', later.getFlights.flightAt flight = some entry' ∧ entry'.key = entry.key
  loads : ∀ flight entry, node.loadFlights.flightAt flight = some entry →
    ∃ entry', later.loadFlights.flightAt flight = some entry' ∧ entry'.key = entry.key

theorem Node.Later.refl (node : Node K V E) : node.Later node :=
  ⟨fun _ entry found => ⟨entry, found, rfl⟩, fun _ entry found => ⟨entry, found, rfl⟩⟩

section

variable {carry : V → Option V} {nodes nodes' : Nat → Node K V E} {log log' : Log K V E}

theorem Node.Traced.later {n : Nat} {node : Node K V E} (traced : node.Traced carry log n)
    (onward : log.Later log') : node.Traced carry log' n where
  getSound := traced.getSound
  loadSound := traced.loadSound
  got flight entry outcome found settled := by
    obtain ⟨value?, same, hands⟩ := traced.got flight entry outcome found settled
    exact ⟨value?, same, fun value is => (hands value is).later onward⟩
  loaded flight entry outcome found settled := (traced.loaded flight entry outcome found settled).later onward
  launchers := traced.launchers
  launched flight entry i found launched := (traced.launched flight entry i found launched).later onward

theorem Awaiter.Fits.later {operation : Operation K V} {awaiter : Awaiter V}
    (fits : awaiter.Fits nodes log operation) (flights : ∀ n, (nodes n).Later (nodes' n))
    (onward : log.Later log') : awaiter.Fits nodes' log' operation := by
  cases awaiter with
  | lookup n flight =>
      obtain ⟨entry, found, rfl⟩ := fits
      obtain ⟨entry', found', named⟩ := (flights n).gets flight entry found
      exact ⟨entry', found', by rw [named]⟩
  | storing n flight value =>
      obtain ⟨entry, found, ended⟩ := fits
      obtain ⟨entry', found', named⟩ := (flights n).loads flight entry found
      exact ⟨entry', found', named ▸ ended.later onward⟩
  | application => trivial

theorem Request.Traced.later {request : Request K V} (traced : request.Traced carry nodes log)
    (flights : ∀ n, (nodes n).Later (nodes' n)) (onward : log.Later log') :
    request.Traced carry nodes' log' where
  sets key value is := (traced.sets key value is).later onward
  found key value is there := (traced.found key value is there).later onward
  fits := traced.fits.later flights onward

theorem Stage.Traced.later {ask : Ask K} {stage : Stage V E} (traced : stage.Traced carry nodes log ask)
    (flights : ∀ n, (nodes n).Later (nodes' n)) (onward : log.Later log') :
    stage.Traced carry nodes' log' ask := by
  cases stage with
  | looking flight =>
      obtain ⟨entry, found, named⟩ := traced
      obtain ⟨entry', found', same⟩ := (flights ask.node).gets flight entry found
      exact ⟨entry', found', same.trans named⟩
  | sharing flight =>
      obtain ⟨loads, entry, found, named⟩ := traced
      obtain ⟨entry', found', same⟩ := (flights ask.node).loads flight entry found
      exact ⟨loads, entry', found', same.trans named⟩
  | done outcome => exact Log.Accounts.later traced onward

end

section

variable {carry : V → Option V} {log : Log K V E} {n : Nat} {node : Node K V E}

theorem Node.Traced.setGets (traced : node.Traced carry log n) {next : Service K (Option V) E}
    {allowed : Nat → Outcome (Option V) E → Prop} (inherits : Inherits allowed node.getFlights next)
    (good : ∀ flight entry outcome, node.getFlights.flightAt flight = some entry → allowed flight outcome →
      ∃ found, outcome = .resolved found ∧ ∀ value, found = some value → log.Hands carry entry.key value) :
    ({ node with getFlights := next } : Node K V E).Traced carry log n ∧
      node.Later { node with getFlights := next } := by
  refine ⟨{ traced with getSound := inherits.sound, got := fun flight later outcome found settled => ?_ },
    inherits.onward, fun _ entry found => ⟨entry, found, rfl⟩⟩
  obtain ⟨entry, known, named, origin⟩ := inherits.origin flight later found
  rcases origin outcome settled with before | now
  · exact named ▸ traced.got flight entry outcome known before
  · exact named ▸ good flight entry outcome known now

theorem Node.Traced.setLoads (traced : node.Traced carry log n) {next : Service K (Option V) E}
    {allowed : Nat → Outcome (Option V) E → Prop} (inherits : Inherits allowed node.loadFlights next)
    (good : ∀ flight entry outcome, node.loadFlights.flightAt flight = some entry → allowed flight outcome →
      log.Ended n entry.key outcome) :
    ({ node with loadFlights := next } : Node K V E).Traced carry log n ∧
      node.Later { node with loadFlights := next } := by
  refine ⟨{ traced with
      loadSound := inherits.sound
      loaded := fun flight later outcome found settled => ?_
      launchers := traced.launchers.trans inherits.length.symm
      launched := fun flight later i found launched => ?_ },
    fun _ entry found => ⟨entry, found, rfl⟩, inherits.onward⟩
  · obtain ⟨entry, known, named, origin⟩ := inherits.origin flight later found
    rcases origin outcome settled with before | now
    · exact named ▸ traced.loaded flight entry outcome known before
    · exact named ▸ good flight entry outcome known now
  · obtain ⟨entry, known, named, -⟩ := inherits.origin flight later found
    exact named ▸ traced.launched flight entry i known launched

variable [DecidableEq K]

/-- A lookup joins a flight of the key, or begins one that waits for the backend. -/
theorem Node.Traced.lookUp (traced : node.Traced carry log n) {key : K} {joined : Joined}
    {next : Node K V E} (looked : node.lookUp key = some (joined, next)) :
    next.Traced carry log n ∧ node.Later next ∧
      ∃ entry, next.getFlights.flightAt joined.flight = some entry ∧ entry.key = key := by
  rw [Node.lookUp] at looked
  cases found : node.getFlights.flights key with
  | some existing =>
      rw [run_of_some found] at looked
      cases looked
      obtain ⟨entry, there, named, -⟩ := (traced.getSound.registered key existing).mp found
      exact ⟨traced, .refl node, entry, there, named⟩
  | none =>
      rw [run_of_none found] at looked
      change (((node.getFlights.launch key).step .adopts).bind fun getFlights =>
        some ((⟨node.getFlights.begun.length, true⟩ : Joined), { node with getFlights })) = _ at looked
      obtain ⟨flights, stepped, same⟩ := Option.bind_eq_some_iff.mp looked
      cases same
      have inherits := inherits_adopts (traced.getSound.launch found) stepped
      have begun : (node.getFlights.launch key).flightAt node.getFlights.begun.length = some { key } :=
        flightAt_launch.mpr (.inr ⟨rfl, rfl⟩)
      obtain ⟨entry, there, named⟩ := inherits.onward _ _ begun
      refine ⟨{ traced with getSound := inherits.sound, got := fun flight later outcome known settled => ?_ },
        ⟨fun flight entry known => inherits.onward _ _ (flightAt_launch.mpr (.inl known)),
          fun _ entry known => ⟨entry, known, rfl⟩⟩, entry, there, named⟩
      obtain ⟨entry, known', same, origin⟩ := inherits.origin flight later known
      have before := (origin outcome settled).resolve_right id
      rcases flightAt_launch.mp known' with old | ⟨-, rfl⟩
      · exact same ▸ traced.got flight entry outcome old before
      · cases before

/-- A caller joins a factory of the key, or its own begins. -/
theorem Node.Traced.share (traced : node.Traced carry log n) {key : K} {i : Nat}
    (asks : log.Asks i n key) :
    (node.share i key).2.Traced carry log n ∧ node.Later (node.share i key).2 ∧
      ∃ entry, (node.share i key).2.loadFlights.flightAt (node.share i key).1 = some entry ∧
        entry.key = key := by
  rw [Node.share]
  cases found : node.loadFlights.flights key with
  | some existing =>
      rw [run_of_some found]
      obtain ⟨entry, there, named, -⟩ := (traced.loadSound.registered key existing).mp found
      exact ⟨traced, .refl node, entry, there, named⟩
  | none =>
      rw [run_of_none found]
      refine ⟨{ traced with
          loadSound := traced.loadSound.launch found
          loaded := fun flight later outcome known settled => ?_
          launchers := ?_
          launched := fun flight later j known launched => ?_ },
        ⟨fun _ entry known => ⟨entry, known, rfl⟩,
          fun flight entry known => ⟨entry, flightAt_launch.mpr (.inl known), rfl⟩⟩,
        _, flightAt_launch.mpr (.inr ⟨rfl, rfl⟩), rfl⟩
      · rcases flightAt_launch.mp known with old | ⟨-, rfl⟩
        · exact traced.loaded flight later outcome old settled
        · cases settled
      · simp only [if_true, List.length_append, List.length_singleton, launch, traced.launchers]
      · simp only [if_true] at launched
        rcases flightAt_launch.mp known with old | ⟨rfl, rfl⟩
        · have short : flight < node.launchers.length := by
            rw [traced.launchers]
            exact (List.getElem?_eq_some_iff.mp old).1
          rw [List.getElem?_append_left short] at launched
          exact traced.launched flight later j old launched
        · rw [← traced.launchers, List.getElem?_concat_length] at launched
          cases launched
          exact asks

end

/-! ## Every step keeps it -/

namespace World

section

variable {carry : V → Option V} {world : World K V E} {n : Nat} {node : Node K V E}

theorem nodes_withNode (world : World K V E) (n : Nat) (node : Node K V E) (m : Nat) :
    (world.withNode n node).nodes m = if m = n then node else world.nodes m :=
  Function.update_apply ..

theorem later_withNode (later : (world.nodes n).Later node) (m : Nat) :
    (world.nodes m).Later ((world.withNode n node).nodes m) := by
  rw [nodes_withNode]
  split
  next same => exact same ▸ later
  next => exact .refl _

theorem traced_withNode {log : Log K V E} (nodes : ∀ m, (world.nodes m).Traced carry log m)
    (here : node.Traced carry log n) (m : Nat) : ((world.withNode n node).nodes m).Traced carry log m := by
  rw [nodes_withNode]
  split
  next same => exact same ▸ here
  next => exact nodes m

/-- A world whose requests and stages are old, or traced. -/
theorem Traced.onward {next : World K V E} (traced : world.Traced carry)
    (flights : ∀ n, (world.nodes n).Later (next.nodes n)) (log : world.log.Later next.log)
    (nodes : ∀ n, (next.nodes n).Traced carry next.log n)
    (store : ∀ key value, next.store key = some value →
      world.store key = some value ∨ next.log.Hands carry key value)
    (requests : ∀ request ∈ next.requests,
      request ∈ world.requests ∨ request.Traced carry next.nodes next.log)
    (stages : next.stages.length = next.log.asks.length)
    (staged : ∀ (i : Nat) (ask : Ask K) (stage : Stage V E), next.log.asks[i]? = some ask →
      next.stages[i]? = some stage → world.log.asks[i]? = some ask ∧ world.stages[i]? = some stage ∨
        stage.Traced carry next.nodes next.log ask) : next.Traced carry where
  nodes := nodes
  store key value stored := by
    rcases store key value stored with before | hands
    · exact (traced.store key value before).later log
    · exact hands
  requests request member := by
    rcases requests request member with before | here
    · exact (traced.requests request before).later flights log
    · exact here
  stages := stages
  staged i ask stage asked is := by
    rcases staged i ask stage asked is with ⟨before, was⟩ | here
    · exact (traced.staged i ask stage before was).later flights log
    · exact here

/-- A step that changes one node only. -/
theorem Traced.withNode (traced : world.Traced carry)
    (here : node.Traced carry world.log n ∧ (world.nodes n).Later node) :
    (world.withNode n node).Traced carry :=
  traced.onward (later_withNode here.2) (.refl _) (traced_withNode traced.nodes here.1) (fun _ _ => .inl)
    (fun _ => .inl) traced.stages fun _ _ _ asked is => .inl ⟨asked, is⟩

/-- A request goes on. -/
theorem Traced.setRequest (traced : world.Traced carry) {i : Nat} {request : Request K V}
    (here : request.Traced carry world.nodes world.log) :
    ({ world with requests := world.requests.set i request } : World K V E).Traced carry :=
  traced.onward (fun _ => .refl _) (.refl _) traced.nodes (fun _ _ => .inl)
    (fun other member => (List.mem_or_eq_of_mem_set member).imp_right fun (same : other = request) =>
      same ▸ here) traced.stages
    fun _ _ _ asked is => .inl ⟨asked, is⟩

/-- An ask goes on. -/
theorem Traced.setStage (traced : world.Traced carry) {i : Nat} {ask : Ask K} {stage : Stage V E}
    (asked : world.log.asks[i]? = some ask) (here : stage.Traced carry world.nodes world.log ask) :
    ({ world with stages := world.stages.set i stage } : World K V E).Traced carry := by
  refine traced.onward (fun _ => .refl _) (.refl _) traced.nodes (fun _ _ => .inl) (fun _ => .inl)
    (List.length_set.trans traced.stages) fun j ask' stage' asked' is => ?_
  rw [List.getElem?_set] at is
  split at is
  next same =>
    subst same
    obtain rfl := Option.some.inj (asked.symm.trans asked')
    split at is
    · exact .inr (Option.some.inj is ▸ here)
    · cases is
  next => exact .inl ⟨asked', is⟩

end

variable {carry : V → Option V} [DecidableEq K] {world next : World K V E}

theorem Traced.conclude (traced : world.Traced carry) {i : Nat} {request : Request K V} {found : Option V}
    (listed : world.requests[i]? = some request)
    (right : ∀ key value, request.operation = .get key → found = some value → world.log.Hands carry key value)
    (concluded : world.conclude i request found = some next) : next.Traced carry := by
  have known := traced.requests request (List.mem_of_getElem? listed)
  have ended : ({ request with ended := true } : Request K V).Traced carry world.nodes world.log :=
    ⟨known.sets, known.found, known.fits⟩
  have marked := traced.setRequest (i := i) ended
  obtain ⟨operation, awaiter, found', ended'⟩ := request
  cases awaiter with
  | application =>
      cases concluded
      exact marked
  | lookup n flight =>
      obtain ⟨flights, stepped, same⟩ := Option.bind_eq_some_iff.mp concluded
      cases same
      obtain ⟨entry, there, isGet⟩ := known.fits
      refine marked.withNode ((marked.nodes n).setGets
        (inherits_settles (marked.nodes n).getSound stepped) fun other entry' outcome there' is => ?_)
      obtain ⟨rfl, rfl⟩ := is
      obtain rfl := Option.some.inj (there.symm.trans there')
      exact ⟨found, rfl, fun value is => right _ value isGet is⟩
  | storing n flight value =>
      obtain ⟨flights, stepped, same⟩ := Option.bind_eq_some_iff.mp concluded
      cases same
      obtain ⟨entry, there, logged⟩ := known.fits
      refine marked.withNode ((marked.nodes n).setLoads
        (inherits_settles (marked.nodes n).loadSound stepped) fun other entry' outcome there' is => ?_)
      obtain ⟨rfl, rfl⟩ := is
      obtain rfl := Option.some.inj (there.symm.trans there')
      exact logged

theorem Traced.continueAsk (traced : world.Traced carry) {i : Nat} {ask : Ask K}
    (asked : world.log.asks[i]? = some ask) {flight : Nat} {entry : Flight K (Option V) E}
    (there : (world.nodes ask.node).getFlights.flightAt flight = some entry) (named : entry.key = ask.key)
    {outcome : Outcome (Option V) E} (settled : entry.pending = .settled outcome) :
    (world.continueAsk i ask outcome).Traced carry := by
  obtain ⟨found, rfl, hands⟩ := (traced.nodes ask.node).got flight entry outcome there settled
  rw [named] at hands
  cases found with
  | some value => exact traced.setStage asked (.inl ⟨_, rfl, fun miss => (by cases miss), hands⟩)
  | none =>
      rw [World.continueAsk]
      split
      next loads =>
        have asks : world.log.Asks i ask.node ask.key := ⟨ask, asked, rfl, rfl, loads⟩
        obtain ⟨here, later, entry', there', named'⟩ := (traced.nodes ask.node).share asks
        refine (traced.withNode ⟨here, later⟩).setStage asked ⟨loads, entry', ?_, named'⟩
        rw [nodes_withNode, if_pos rfl]
        exact there'
      next misses =>
        exact traced.setStage asked
          (.inl ⟨none, rfl, fun _ => by simpa using misses, fun _ is => by cases is⟩)

/-- A factory's outcome is logged, then its flight is settled or its value is stored. -/
theorem Traced.settleFactory (traced : world.Traced carry) {n flight launcher : Nat}
    {entry : Flight K (Option V) E} (there : (world.nodes n).loadFlights.flightAt flight = some entry)
    (launched : (world.nodes n).launchers[flight]? = some launcher) {outcome : Outcome (Option V) E}
    (settled : world.settleFactory n flight launcher entry.key outcome = some next) : next.Traced carry := by
  let log : Log K V E := { world.log with outcomes := world.log.outcomes ++ [(launcher, outcome)] }
  have onward : world.log.Later log := ⟨fun _ _ => id, List.subset_append_left .., List.Subset.refl _⟩
  have ended : log.Ended n entry.key outcome :=
    ⟨launcher, ((traced.nodes n).launched flight entry launcher there launched).later onward,
      List.mem_append_right _ List.mem_cons_self⟩
  have noted (m : Nat) : (world.nodes m).Traced carry log m := (traced.nodes m).later onward
  have answered : ({ world.nodes n with answered := (world.nodes n).answered ++ [flight] } :
      Node K V E).Traced carry log n := { noted n with }
  have stays : (world.nodes n).Later
      { world.nodes n with answered := (world.nodes n).answered ++ [flight] } :=
    ⟨(Node.Later.refl _).gets, (Node.Later.refl _).loads⟩
  have settles (concluded : ((world.nodes n).loadFlights.step (.settles flight outcome)).bind
      (fun loadFlights => some ({ world.withNode n { world.nodes n with
            loadFlights, answered := (world.nodes n).answered ++ [flight] } with
              log := log } : World K V E)) = some next) : next.Traced carry := by
    obtain ⟨flights, stepped, same⟩ := Option.bind_eq_some_iff.mp concluded
    obtain rfl := Option.some.inj same
    obtain ⟨here, later⟩ := answered.setLoads (inherits_settles answered.loadSound stepped)
      fun other entry' settled' there' is => by
        obtain ⟨rfl, rfl⟩ := is
        obtain rfl := Option.some.inj (there.symm.trans there')
        exact ended
    exact traced.onward (later_withNode ⟨later.gets, later.loads⟩) onward
      (traced_withNode noted here) (fun _ _ => .inl) (fun _ => .inl) traced.stages
      fun _ _ _ asked is => .inl ⟨asked, is⟩
  cases outcome with
  | rejected error => exact settles settled
  | resolved found =>
      cases found with
      | none => exact settles settled
      | some value =>
          obtain rfl := Option.some.inj settled
          refine traced.onward (later_withNode stays) onward (traced_withNode noted answered)
            (fun _ _ => .inl) (fun request member => ?_) traced.stages fun _ _ _ asked is => .inl ⟨asked, is⟩
          rcases List.mem_append.mp member with old | new
          · exact .inl old
          · obtain rfl := List.mem_singleton.mp new
            refine .inr ⟨fun key value' is => ?_, fun _ _ is => (by cases is), ?_⟩
            · cases is
              exact .inl ⟨n, ended⟩
            · obtain ⟨entry', found', named⟩ := (later_withNode stays n).loads flight entry there
              exact ⟨entry', found', named ▸ ended⟩

theorem Traced.ask (traced : world.Traced carry) {ask : Ask K} {joined : Joined} {node : Node K V E}
    (looked : (world.nodes ask.node).lookUp ask.key = some (joined, node)) :
    ({ world.withNode ask.node node with
      requests := if joined.invoked then
          world.requests ++ [{ operation := .get ask.key, awaiter := .lookup ask.node joined.flight }]
        else world.requests
      stages := world.stages ++ [.looking joined.flight]
      log := { world.log with asks := world.log.asks ++ [ask] } } : World K V E).Traced carry := by
  obtain ⟨here, later, entry, there, named⟩ := (traced.nodes ask.node).lookUp looked
  have onward : world.log.Later { world.log with asks := world.log.asks ++ [ask] } :=
    ⟨fun i ask' asked => List.getElem?_append_left (List.getElem?_eq_some_iff.mp asked).1 ▸ asked,
      List.Subset.refl _, List.Subset.refl _⟩
  have own : ((world.withNode ask.node node).nodes ask.node).getFlights.flightAt joined.flight =
      some entry := by
    rw [nodes_withNode, if_pos rfl]
    exact there
  refine traced.onward (later_withNode later) onward
    (traced_withNode (fun m => (traced.nodes m).later onward) (here.later onward)) (fun _ _ => .inl)
    (fun request member => ?_) ?_ fun i ask' stage asked is => ?_
  · simp only at member
    split at member
    next =>
      rcases List.mem_append.mp member with old | new
      · exact .inl old
      · obtain rfl := List.mem_singleton.mp new
        exact .inr ⟨fun _ _ is => (by cases is), fun _ _ _ is => (by cases is), entry, own, by rw [named]⟩
    next => exact .inl member
  · rw [List.length_append, List.length_append, traced.stages]
    rfl
  · simp only at asked is
    rw [List.getElem?_append] at asked is
    rw [traced.stages] at is
    split at asked
    next old =>
      rw [if_pos old] at is
      exact .inl ⟨asked, is⟩
    next new =>
      rw [if_neg new] at is
      rw [List.getElem?_singleton] at asked is
      split at asked
      next last =>
        rw [if_pos last] at is
        cases asked
        cases is
        exact .inr ⟨entry, own, named⟩
      next => cases asked

/-- What an operation finds in the store, and what it leaves there. -/
theorem Traced.act (traced : world.Traced carry) {request : Request K V}
    (known : request.Traced carry world.nodes world.log) :
    (∀ key value, request.operation = .get key →
      (request.operation.act carry world.store).1 = some value → world.log.Hands carry key value) ∧
    ∀ key value, (request.operation.act carry world.store).2 key = some value →
      world.store key = some value ∨ world.log.Hands carry key value := by
  cases is : request.operation with
  | get key =>
      refine ⟨fun key' value same found => ?_, fun key' value stored => .inl stored⟩
      cases same
      exact traced.store key value found
  | set key value =>
      refine ⟨fun _ _ same => (by cases same), fun key' value' stored => ?_⟩
      change Function.update world.store key (carry value) key' = some value' at stored
      rw [Function.update_apply] at stored
      split at stored
      next same => exact .inr ⟨value, same ▸ known.sets key value is, stored⟩
      next => exact .inl stored
  | del key =>
      refine ⟨fun _ _ same => (by cases same), fun key' value' stored => ?_⟩
      change Function.update world.store key none key' = some value' at stored
      rw [Function.update_apply] at stored
      split at stored
      · cases stored
      · exact .inl stored
  | clear => exact ⟨fun _ _ same => (by cases same), fun _ _ stored => by cases stored⟩

/-- **The step lemma.** -/
theorem Traced.step (traced : world.Traced carry) {timed : Bool} {step : Step K V E}
    (stepped : world.step carry timed step = some next) : next.Traced carry := by
  cases step with
  | ask ask =>
      obtain ⟨⟨joined, node⟩, looked, same⟩ := Option.bind_eq_some_iff.mp stepped
      obtain rfl := Option.some.inj same
      exact traced.ask looked
  | issue operation =>
      obtain rfl := Option.some.inj stepped
      have onward : world.log.Later { world.log with written := world.log.written ++ operation.written } :=
        ⟨fun _ _ => id, List.Subset.refl _, List.subset_append_left ..⟩
      refine traced.onward (fun _ => .refl _) onward (fun m => (traced.nodes m).later onward)
        (fun _ _ => .inl) (fun request member => ?_) traced.stages fun _ _ _ asked is => .inl ⟨asked, is⟩
      rcases List.mem_append.mp member with old | new
      · exact .inl old
      · obtain rfl := List.mem_singleton.mp new
        refine .inr ⟨fun key value is => .inr (List.mem_append_right _ ?_),
          fun _ _ _ is => (by cases is), trivial⟩
        obtain rfl : operation = .set key value := is
        exact List.mem_cons_self
  | takes i =>
      obtain ⟨request, listed, taken⟩ := Option.bind_eq_some_iff.mp stepped
      split at taken
      · cases taken
      · obtain rfl := Option.some.inj taken
        have known := traced.requests request (List.mem_of_getElem? listed)
        obtain ⟨found, left⟩ := traced.act known
        have took : ({ request with found := some (request.operation.act carry world.store).1 } :
            Request K V).Traced carry world.nodes world.log :=
          ⟨known.sets, fun key value is same => found key value is (Option.some.inj same), known.fits⟩
        exact (traced.setRequest (i := i) took).onward (fun _ => .refl _) (.refl _) traced.nodes left
          (fun _ => .inl) traced.stages fun _ _ _ asked is => .inl ⟨asked, is⟩
  | evict key =>
      obtain rfl := Option.some.inj stepped
      refine traced.onward (fun _ => .refl _) (.refl _) traced.nodes (fun key' value stored => ?_)
        (fun _ => .inl) traced.stages fun _ _ _ asked is => .inl ⟨asked, is⟩
      simp only [Function.update_apply] at stored
      split at stored
      · cases stored
      · exact .inl stored
  | answers i =>
      obtain ⟨request, listed, rest⟩ := Option.bind_eq_some_iff.mp stepped
      obtain ⟨found, took, rest⟩ := Option.bind_eq_some_iff.mp rest
      split at rest
      · cases rest
      · refine traced.conclude listed (fun key value is same => ?_) rest
        exact (traced.requests request (List.mem_of_getElem? listed)).found key value is
          (took.trans (congrArg _ same))
  | fails i =>
      obtain ⟨request, listed, rest⟩ := Option.bind_eq_some_iff.mp stepped
      split at rest
      · cases rest
      · exact traced.conclude listed (fun _ _ _ same => by cases same) rest
  | expires i =>
      obtain ⟨request, listed, rest⟩ := Option.bind_eq_some_iff.mp stepped
      split at rest
      · cases rest
      · exact traced.conclude listed (fun _ _ _ same => by cases same) rest
  | getFlight n reaction flight =>
      obtain ⟨flights, reacted, same⟩ := Option.bind_eq_some_iff.mp stepped
      obtain rfl := Option.some.inj same
      exact traced.withNode ((traced.nodes n).setGets (inherits_reaction (traced.nodes n).getSound reacted)
        fun _ _ _ _ => False.elim)
  | loadFlight n reaction flight =>
      obtain ⟨flights, reacted, same⟩ := Option.bind_eq_some_iff.mp stepped
      obtain rfl := Option.some.inj same
      exact traced.withNode ((traced.nodes n).setLoads (inherits_reaction (traced.nodes n).loadSound reacted)
        fun _ _ _ _ => False.elim)
  | resume i =>
      obtain ⟨ask, asked, rest⟩ := Option.bind_eq_some_iff.mp stepped
      obtain ⟨stage, is, rest⟩ := Option.bind_eq_some_iff.mp rest
      cases stage with
      | looking flight =>
          obtain ⟨entry, there, rest⟩ := Option.bind_eq_some_iff.mp rest
          obtain ⟨outcome, delivered, same⟩ := Option.bind_eq_some_iff.mp rest
          obtain rfl := Option.some.inj same
          obtain ⟨entry', there', named⟩ := traced.staged i ask _ asked is
          obtain rfl := Option.some.inj (there.symm.trans there')
          exact traced.continueAsk asked there named
            ((traced.nodes ask.node).getSound.delivered flight entry outcome there delivered)
      | sharing flight => cases rest
      | done outcome => cases rest
  | returns n =>
      obtain ⟨flights, adopted, same⟩ := Option.bind_eq_some_iff.mp stepped
      obtain rfl := Option.some.inj same
      exact traced.withNode ((traced.nodes n).setLoads (inherits_adopts (traced.nodes n).loadSound adopted)
        fun _ _ _ _ => False.elim)
  | factory n flight outcome =>
      obtain ⟨entry, there, rest⟩ := Option.bind_eq_some_iff.mp stepped
      obtain ⟨launcher, launched, rest⟩ := Option.bind_eq_some_iff.mp rest
      split at rest
      · split at rest
        · cases rest
        · exact traced.settleFactory there launched rest
      · cases rest
  | finish i =>
      obtain ⟨ask, asked, rest⟩ := Option.bind_eq_some_iff.mp stepped
      obtain ⟨stage, is, rest⟩ := Option.bind_eq_some_iff.mp rest
      cases stage with
      | sharing flight =>
          obtain ⟨entry, there, rest⟩ := Option.bind_eq_some_iff.mp rest
          obtain ⟨outcome, delivered, same⟩ := Option.bind_eq_some_iff.mp rest
          obtain rfl := Option.some.inj same
          obtain ⟨loads, entry', there', named⟩ := traced.staged i ask _ asked is
          obtain rfl := Option.some.inj (there.symm.trans there')
          refine traced.setStage asked (.inr ⟨loads, named ▸ ?_⟩)
          exact (traced.nodes ask.node).loaded flight entry outcome there
            ((traced.nodes ask.node).loadSound.delivered flight entry outcome there delivered)
      | looking flight => cases rest
      | done outcome => cases rest

omit [DecidableEq K] in
theorem traced_start : (start : World K V E).Traced carry where
  nodes n := ⟨sound_start, sound_start, fun _ _ _ found => (by cases found),
    fun _ _ _ found => (by cases found), rfl, fun _ _ _ found => by cases found⟩
  store _ _ stored := by cases stored
  requests _ member := by cases member
  stages := rfl
  staged _ _ _ asked := by cases asked

theorem traced_of_follow {timed : Bool} {schedule : List (Step K V E)} :
    ∀ {world final : World K V E}, world.Traced carry → world.follow carry timed schedule = some final →
      final.Traced carry := by
  induction schedule with
  | nil =>
      intro world final traced followed
      obtain rfl := Option.some.inj followed
      exact traced
  | cons step rest ih =>
      intro world final traced followed
      obtain ⟨next, stepped, followed⟩ := Option.bind_eq_some_iff.mp followed
      exact ih (traced.step stepped) followed

/-! ## What callers get -/

/-- **Answers are traced to their key**, after every schedule: a caller gets what was given under its
key, on whichever node, or the outcome of a factory for it; only values given under a key are stored
under it; and a key has one pending factory on a node. -/
theorem cache_answers_traced {timed : Bool} {schedule : List (Step K V E)} {world : World K V E}
    (followed : start.follow carry timed schedule = some world) :
    (∀ (i : Nat) (ask : Ask K) (outcome : Outcome (Option V) E), world.log.asks[i]? = some ask →
      world.stages[i]? = some (.done outcome) → world.log.Accounts carry ask outcome) ∧
    (∀ key value, world.store key = some value → world.log.Hands carry key value) ∧
    (∀ request ∈ world.requests, ∀ key value, request.operation = .set key value →
      world.log.Gives key value) ∧
    ∀ n key flight other, (world.nodes n).loadFlights.PendingFor key flight →
      (world.nodes n).loadFlights.PendingFor key other → flight = other := by
  have traced := traced_of_follow traced_start followed
  refine ⟨fun i ask outcome asked done => traced.staged i ask _ asked done, traced.store,
    fun request member => (traced.requests request member).sets,
    fun n key flight other pending pending' => ?_⟩
  have sound := (traced.nodes n).loadSound
  exact Option.some.inj ((sound.flights_of_pending pending).symm.trans (sound.flights_of_pending pending'))

/-- A load on one node stores what its factory came to; a load on another finds it. -/
def twoNodes : List (Step Nat Nat Nat) :=
  [.ask ⟨0, 7, true⟩, .expires 0, .getFlight 0 .cleanup 0, .getFlight 0 .delivers 0, .resume 0, .returns 0,
    .factory 0 0 (.resolved (some 5)), .takes 1, .ask ⟨1, 7, true⟩, .takes 2, .answers 2,
    .getFlight 1 .cleanup 0, .getFlight 1 .delivers 0, .resume 1]

theorem second_node_finds : ∃ world, start.follow some true twoNodes = some world ∧
    world.stages[1]? = some (.done (.resolved (some 5))) ∧
      world.log.Accounts some ⟨1, 7, true⟩ (.resolved (some 5)) := by
  obtain ⟨world, followed, asked, done⟩ : ∃ world, start.follow some true twoNodes = some world ∧
    world.log.asks[1]? = some ⟨1, 7, true⟩ ∧ world.stages[1]? = some (.done (.resolved (some 5))) :=
      ⟨_, rfl, rfl, rfl⟩
  exact ⟨world, followed, done, (cache_answers_traced followed).1 1 _ _ asked done⟩

end World

end

end SdcoreNest.Cache
