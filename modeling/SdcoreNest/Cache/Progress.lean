/-
# Cache.Progress -- a dead cache does not hold up its callers

The promise of `operationTimeoutMs`: when the timer of `guarded` is on, a caller of `get` or `load`
waits for the factory of its key and for nothing else.  `Live` says what every wait is for; from it
every unfinished ask has a way to its end on which the backend neither answers nor does anything.
-/
import SdcoreNest.Cache.Service

namespace SdcoreNest.Cache

open SdcoreNest.Utils SdcoreNest.Utils.Service

set_option autoImplicit false

variable {K V E : Type}

/-! ## What is waited for -/

/-- A backend call is under way for the awaiter. -/
def World.Opened (world : World K V E) (awaiter : Awaiter V) : Prop :=
  ∃ (i : Nat) (request : Request K V), world.requests[i]? = some request ∧ request.ended = false ∧
    request.awaiter = awaiter

structure Node.Live (opened : Awaiter V → Prop) (n : Nat) (node : Node K V E) : Prop where
  /-- Lookups start their backend call at once. -/
  idle : node.getFlights.stack = []
  begun : ∀ flight entry, node.getFlights.flightAt flight = some entry → entry.pending ≠ .running
  looked : ∀ flight entry, node.getFlights.flightAt flight = some entry → entry.pending = .adopting →
    opened (.lookup n flight)
  running : ∀ flight entry, node.loadFlights.flightAt flight = some entry → entry.pending = .running →
    flight ∈ node.loadFlights.stack
  stored : ∀ flight entry, node.loadFlights.flightAt flight = some entry → entry.pending = .adopting →
    flight ∈ node.answered → ∃ value, opened (.storing n flight value)
  answered : ∀ flight ∈ node.answered, ∃ entry, node.loadFlights.flightAt flight = some entry ∧
    entry.pending ≠ .running

def World.Live (world : World K V E) : Prop := ∀ n, (world.nodes n).Live world.Opened n

theorem Node.Live.mono {opened opened' : Awaiter V → Prop} {n : Nat} {node : Node K V E}
    (live : node.Live opened n) (looked : ∀ flight, opened (.lookup n flight) → opened' (.lookup n flight))
    (stored : ∀ flight value, opened (.storing n flight value) → opened' (.storing n flight value)) :
    node.Live opened' n where
  idle := live.idle
  begun := live.begun
  looked flight entry found adopting := looked flight (live.looked flight entry found adopting)
  running := live.running
  stored flight entry found adopting inside := by
    obtain ⟨value, open'⟩ := live.stored flight entry found adopting inside
    exact ⟨value, stored flight value open'⟩
  answered := live.answered

/-! ## Steps of the flights -/

section

variable {service next : Service K V E} {flight : Nat}

/-- Flights stay as far as they are, or are settled; those that are meant to end are settled. -/
structure Calms (ends : Nat → Prop) (service next : Service K V E) : Prop where
  stack : next.stack = service.stack
  origin : ∀ flight later, next.flightAt flight = some later → ∃ entry,
    service.flightAt flight = some entry ∧
      (¬ ends flight ∧ later.pending = entry.pending ∨ ∃ outcome, later.pending = .settled outcome)
  onward : ∀ flight entry, service.flightAt flight = some entry → ∃ later,
    next.flightAt flight = some later ∧
      (later.pending = entry.pending ∨ ∃ outcome, later.pending = .settled outcome)

theorem flightAt_patch_self {change : Flight K V E → Flight K V E} {entry : Flight K V E}
    (found : service.flightAt flight = some entry) :
    (service.patch flight change).flightAt flight = some (change entry) :=
  flightAt_patch.mpr (.inl ⟨rfl, entry, found, rfl⟩)

/-- A patch that keeps what is pending. -/
theorem Calms.of_patch {change : Flight K V E → Flight K V E} (stack : next.stack = service.stack)
    (patched : next.begun = (service.patch flight change).begun)
    (same : ∀ entry, (change entry).pending = entry.pending) : Calms (fun _ => False) service next where
  stack := stack
  origin other later found := by
    have there : (service.patch flight change).flightAt other = some later :=
      (congrArg (·[other]?) patched).symm.trans found
    rcases flightAt_patch.mp there with ⟨rfl, entry, known, rfl⟩ | ⟨-, known⟩
    · exact ⟨entry, known, .inl ⟨id, same entry⟩⟩
    · exact ⟨later, known, .inl ⟨id, rfl⟩⟩
  onward other entry found := by
    have there : next.flightAt other = (service.patch flight change).flightAt other :=
      congrArg (·[other]?) patched
    by_cases this : other = flight
    · subst this
      exact ⟨_, there.trans (flightAt_patch_self found), .inl (same entry)⟩
    · exact ⟨entry, there.trans (flightAt_patch.mpr (.inr ⟨this, found⟩)), .inl rfl⟩

theorem calms_settled (service : Service K V E) (flight : Nat) (outcome : Outcome V E) :
    Calms (· = flight) service
      (service.patch flight fun entry => { entry with pending := .settled outcome }) where
  stack := rfl
  origin other later found := by
    rcases flightAt_patch.mp found with ⟨rfl, entry, known, rfl⟩ | ⟨different, known⟩
    · exact ⟨entry, known, .inr ⟨outcome, rfl⟩⟩
    · exact ⟨later, known, .inl ⟨different, rfl⟩⟩
  onward other entry found := by
    by_cases this : other = flight
    · subst this
      exact ⟨_, flightAt_patch_self found, .inr ⟨outcome, rfl⟩⟩
    · exact ⟨entry, flightAt_patch.mpr (.inr ⟨this, found⟩), .inl rfl⟩

variable [DecidableEq K]

theorem calms_reaction {service next : Service K (Option V) E} {reaction : Reaction}
    (stepped : service.step (reaction.action flight) = some next) : Calms (fun _ => False) service next := by
  cases reaction with
  | cleanup =>
      cases effect_of_step stepped with
      | cleaned found settled first => exact .of_patch rfl rfl fun _ => rfl
      | left ends _ => cases ends
  | delivers =>
      cases effect_of_step stepped with
      | delivered found settled cleaned => exact .of_patch rfl rfl fun _ => rfl
      | left ends _ => cases ends

theorem calms_settles {outcome : Outcome V E} (stepped : service.step (.settles flight outcome) = some next) :
    Calms (· = flight) service next := by
  cases effect_of_step stepped with
  | settled found adopting => exact calms_settled service flight outcome
  | left ends _ => cases ends

theorem settles_of_adopting {entry : Flight K V E} (found : service.flightAt flight = some entry)
    (adopting : entry.pending = .adopting) (outcome : Outcome V E) :
    service.step (.settles flight outcome) =
      some (service.patch flight fun entry => { entry with pending := .settled outcome }) := by
  obtain ⟨key, pending, cleaned, outcome'⟩ := entry
  obtain rfl : pending = .adopting := adopting
  rw [Service.step, show service.begun[flight]? = _ from found]
  rfl

theorem cleanup_of_settled {entry : Flight K V E} {outcome : Outcome V E}
    (found : service.flightAt flight = some entry) (settled : entry.pending = .settled outcome)
    (first : entry.cleaned = false) (idle : service.stack = []) :
    service.step (.cleanup flight) = some (service.cleanup flight entry.key) := by
  obtain ⟨key, pending, cleaned, outcome'⟩ := entry
  obtain rfl : pending = .settled outcome := settled
  obtain rfl : cleaned = false := first
  rw [Service.step, show service.begun[flight]? = _ from found, idle]

theorem delivers_of_cleaned {entry : Flight K V E} {outcome : Outcome V E}
    (found : service.flightAt flight = some entry) (settled : entry.pending = .settled outcome)
    (cleaned : entry.cleaned = true) (waiting : entry.outcome = none) (idle : service.stack = []) :
    service.step (.delivers flight) =
      some (service.patch flight fun entry => { entry with outcome := some outcome }) := by
  obtain ⟨key, pending, cleaned', outcome'⟩ := entry
  obtain rfl : pending = .settled outcome := settled
  obtain rfl : cleaned' = true := cleaned
  obtain rfl : outcome' = none := waiting
  rw [Service.step, show service.begun[flight]? = _ from found, idle, Service.patch, idle]

/-- The innermost factory returns its promise. -/
theorem of_adopts (stepped : service.step .adopts = some next) : ∃ flight stack,
    service.stack = flight :: stack ∧
      next = ({ service with stack } : Service K V E).patch flight fun entry =>
        { entry with pending := .adopting } := by
  rw [Service.step, leave] at stepped
  split at stepped
  · cases stepped
  next flight stack running => exact ⟨flight, stack, running, (Option.some.inj stepped).symm⟩

end

section

variable {opened opened' : Awaiter V → Prop} {n : Nat} {node : Node K V E}

theorem Node.Live.setGets (live : node.Live opened n) {ends : Nat → Prop} {next : Service K (Option V) E}
    (calms : Calms ends node.getFlights next)
    (looked : ∀ flight, ¬ ends flight → opened (.lookup n flight) → opened' (.lookup n flight))
    (stored : ∀ flight value, opened (.storing n flight value) → opened' (.storing n flight value)) :
    ({ node with getFlights := next } : Node K V E).Live opened' n where
  idle := calms.stack.trans live.idle
  begun flight later found runs := by
    obtain ⟨entry, known, ⟨-, same⟩ | ⟨outcome, settled⟩⟩ := calms.origin flight later found
    · exact live.begun flight entry known (same.symm.trans runs)
    · cases settled.symm.trans runs
  looked flight later found adopting := by
    obtain ⟨entry, known, ⟨goes, same⟩ | ⟨outcome, settled⟩⟩ := calms.origin flight later found
    · exact looked flight goes (live.looked flight entry known (same.symm.trans adopting))
    · cases settled.symm.trans adopting
  running := live.running
  stored flight entry found adopting inside := by
    obtain ⟨value, open'⟩ := live.stored flight entry found adopting inside
    exact ⟨value, stored flight value open'⟩
  answered := live.answered

theorem Node.Live.setLoads (live : node.Live opened n) {ends : Nat → Prop} {next : Service K (Option V) E}
    (calms : Calms ends node.loadFlights next)
    (looked : ∀ flight, opened (.lookup n flight) → opened' (.lookup n flight))
    (stored : ∀ flight value, ¬ ends flight → opened (.storing n flight value) →
      opened' (.storing n flight value)) :
    ({ node with loadFlights := next } : Node K V E).Live opened' n where
  idle := live.idle
  begun := live.begun
  looked flight entry found adopting := looked flight (live.looked flight entry found adopting)
  running flight later found runs := by
    obtain ⟨entry, known, ⟨-, same⟩ | ⟨outcome, settled⟩⟩ := calms.origin flight later found
    · have inside := live.running flight entry known (same.symm.trans runs)
      rwa [← calms.stack] at inside
    · cases settled.symm.trans runs
  stored flight later found adopting inside := by
    obtain ⟨entry, known, ⟨goes, same⟩ | ⟨outcome, settled⟩⟩ := calms.origin flight later found
    · obtain ⟨value, open'⟩ := live.stored flight entry known (same.symm.trans adopting) inside
      exact ⟨value, stored flight value goes open'⟩
    · cases settled.symm.trans adopting
  answered flight inside := by
    obtain ⟨entry, known, still⟩ := live.answered flight inside
    obtain ⟨later, found, same | ⟨outcome, settled⟩⟩ := calms.onward flight entry known
    · exact ⟨later, found, same ▸ still⟩
    · exact ⟨later, found, by rw [settled]; exact fun same => by cases same⟩

variable [DecidableEq K]

/-- The flight of the innermost factory waits for a promise now. -/
theorem Node.Live.returns (live : node.Live opened n) (sound : node.loadFlights.Sound)
    {next : Service K (Option V) E} (stepped : node.loadFlights.step .adopts = some next) :
    ({ node with loadFlights := next } : Node K V E).Live opened n := by
  obtain ⟨innermost, stack, running, rfl⟩ := of_adopts stepped
  obtain ⟨first, there, runs⟩ := sound.running innermost (running ▸ List.mem_cons_self)
  refine { live with
    running := fun flight later found runs' => ?_
    stored := fun flight later found adopting inside => ?_
    answered := fun flight inside => ?_ }
  · rcases flightAt_patch.mp found with ⟨-, entry, -, rfl⟩ | ⟨different, known⟩
    · cases runs'
    · have inside := live.running flight later known runs'
      rw [running] at inside
      exact (List.mem_cons.mp inside).resolve_left different
  · rcases flightAt_patch.mp found with ⟨rfl, entry, known, rfl⟩ | ⟨-, known⟩
    · obtain ⟨entry', known', still⟩ := live.answered flight inside
      cases known'.symm.trans there
      exact absurd runs still
    · exact live.stored flight later known adopting inside
  · obtain ⟨entry, known, still⟩ := live.answered flight inside
    by_cases this : flight = innermost
    · subst this
      exact ⟨_, @flightAt_patch_self _ _ _ { node.loadFlights with stack } flight _ entry known,
        fun same => by cases same⟩
    · exact ⟨entry, flightAt_patch.mpr (.inr ⟨this, known⟩), still⟩

theorem Node.Live.lookUp (live : node.Live opened n) {key : K} {joined : Joined} {next : Node K V E}
    (looked : node.lookUp key = some (joined, next))
    (keeps : ∀ awaiter, opened awaiter → opened' awaiter)
    (opens : joined.invoked = true → opened' (.lookup n joined.flight)) : next.Live opened' n := by
  have kept := live.mono (fun _ => keeps _) fun _ _ => keeps _
  rw [Node.lookUp] at looked
  cases found : node.getFlights.flights key with
  | some existing =>
      rw [run_of_some found] at looked
      cases looked
      exact kept
  | none =>
      rw [run_of_none found] at looked
      change (((node.getFlights.launch key).step .adopts).bind fun getFlights =>
        some ((⟨node.getFlights.begun.length, true⟩ : Joined), { node with getFlights })) = _ at looked
      obtain ⟨flights, stepped, same⟩ := Option.bind_eq_some_iff.mp looked
      cases same
      obtain ⟨innermost, stack, running, rfl⟩ := of_adopts stepped
      cases running
      refine { kept with
        idle := live.idle
        begun := fun flight later found runs => ?_
        looked := fun flight later found adopting => ?_ }
      · rcases flightAt_patch.mp found with ⟨-, entry, -, rfl⟩ | ⟨different, known⟩
        · cases runs
        · rcases flightAt_launch.mp known with old | ⟨last, -⟩
          · exact live.begun flight later old runs
          · exact different last
      · rcases flightAt_patch.mp found with ⟨rfl, entry, -, rfl⟩ | ⟨different, known⟩
        · exact opens rfl
        · rcases flightAt_launch.mp known with old | ⟨last, -⟩
          · exact kept.looked flight later old adopting
          · exact absurd last different

theorem Node.Live.share (live : node.Live opened n) (key : K) (i : Nat) :
    (node.share i key).2.Live opened n := by
  rw [Node.share]
  cases found : node.loadFlights.flights key with
  | some existing =>
      rw [run_of_some found]
      exact live
  | none =>
      rw [run_of_none found]
      refine { live with
        running := fun flight later known runs => ?_
        stored := fun flight later known adopting inside => ?_
        answered := fun flight inside => ?_ }
      · rcases flightAt_launch.mp known with old | ⟨rfl, -⟩
        · exact .tail _ (live.running flight later old runs)
        · exact List.mem_cons_self
      · rcases flightAt_launch.mp known with old | ⟨-, rfl⟩
        · exact live.stored flight later old adopting inside
        · cases adopting
      · obtain ⟨entry, known, still⟩ := live.answered flight inside
        exact ⟨entry, flightAt_launch.mpr (.inl known), still⟩

end

/-! ## Steps of the world -/

namespace World

section

variable {world : World K V E}

theorem opened_append {awaiter : Awaiter V} (open' : world.Opened awaiter) (more : List (Request K V)) :
    ∃ (i : Nat) (request : Request K V), (world.requests ++ more)[i]? = some request ∧
      request.ended = false ∧ request.awaiter = awaiter := by
  obtain ⟨i, request, listed, waiting⟩ := open'
  exact ⟨i, request, List.getElem?_append_left (List.getElem?_eq_some_iff.mp listed).1 ▸ listed, waiting⟩

/-- A new request is under way. -/
theorem opened_last (requests : List (Request K V)) (operation : Operation K V) (awaiter : Awaiter V) :
    ∃ (i : Nat) (request : Request K V),
      (requests ++ [{ operation := operation, awaiter := awaiter }])[i]? = some request ∧
        request.ended = false ∧ request.awaiter = awaiter :=
  ⟨_, _, List.getElem?_concat_length, rfl, rfl⟩

/-- A request that goes on leaves the others, and itself if it does not end. -/
theorem opened_set {i : Nat} {request later : Request K V} {awaiter : Awaiter V}
    (listed : world.requests[i]? = some request) (open' : world.Opened awaiter)
    (goes : request.ended = false → request.awaiter = awaiter →
      later.ended = false ∧ later.awaiter = awaiter) :
    ({ world with requests := world.requests.set i later } : World K V E).Opened awaiter := by
  obtain ⟨j, request', listed', running, waiting⟩ := open'
  by_cases same : i = j
  · subst same
    cases listed.symm.trans listed'
    exact ⟨i, later, List.getElem?_set_self (List.getElem?_eq_some_iff.mp listed).1, goes running waiting⟩
  · exact ⟨j, request', (List.getElem?_set_ne same).trans listed', running, waiting⟩

theorem live_withNode {n : Nat} {node : Node K V E} {opened : Awaiter V → Prop}
    (nodes : ∀ m, m ≠ n → (world.nodes m).Live opened m) (here : node.Live opened n) (m : Nat) :
    ((world.withNode n node).nodes m).Live opened m := by
  rw [nodes_withNode]
  split
  next same => exact same ▸ here
  next different => exact nodes m different

/-- More requests. -/
theorem Live.more {nodes : Nat → Node K V E} {requests : List (Request K V)}
    (live : ∀ n, (nodes n).Live world.Opened n) {next : World K V E} (same : next.nodes = nodes)
    (listed : next.requests = world.requests ++ requests) : next.Live := fun n => by
  rw [same]
  have opened (awaiter : Awaiter V) (open' : world.Opened awaiter) : next.Opened awaiter := by
    rw [Opened, listed]
    exact opened_append open' requests
  exact (live n).mono (fun _ => opened _) fun _ _ => opened _

end

variable {carry : V → Option V} {timed : Bool} [DecidableEq K] {world next : World K V E}

theorem Live.conclude (live : world.Live) {i : Nat} {request : Request K V} {found : Option V}
    (listed : world.requests[i]? = some request) (concluded : world.conclude i request found = some next) :
    next.Live := by
  obtain ⟨operation, awaiter, found', ended'⟩ := request
  have others {other : Awaiter V} (different : awaiter ≠ other) (open' : world.Opened other) :
      ({ world with requests := world.requests.set i ⟨operation, awaiter, found', true⟩ } :
        World K V E).Opened other := opened_set listed open' fun _ same => absurd same different
  cases awaiter with
  | application =>
      cases concluded
      exact fun m => (live m).mono (fun _ => others fun same => by cases same)
        fun _ _ => others fun same => by cases same
  | lookup n flight =>
      obtain ⟨flights, stepped, same⟩ := Option.bind_eq_some_iff.mp concluded
      cases same
      have storings (m flight' : Nat) (value : V) :=
        @others (.storing m flight' value) fun same => by cases same
      refine live_withNode (fun m different => (live m).mono (fun flight' => others ?_) (storings m))
        ((live n).setGets (calms_settles stepped) (fun flight' goes => others ?_) (storings n))
      · exact fun same => different (Awaiter.lookup.inj same).1.symm
      · exact fun same => goes (Awaiter.lookup.inj same).2.symm
  | storing n flight value =>
      obtain ⟨flights, stepped, same⟩ := Option.bind_eq_some_iff.mp concluded
      cases same
      have lookups (m flight' : Nat) := @others (.lookup m flight') fun same => by cases same
      refine live_withNode (fun m different => (live m).mono (lookups m) fun flight' _ => others ?_)
        ((live n).setLoads (calms_settles stepped) (lookups n) fun flight' _ goes => others ?_)
      · exact fun same => different (Awaiter.storing.inj same).1.symm
      · exact fun same => goes (Awaiter.storing.inj same).2.1.symm

theorem Live.settleFactory (live : world.Live) {n flight launcher : Nat} {entry : Flight K (Option V) E}
    (there : (world.nodes n).loadFlights.flightAt flight = some entry) (adopting : entry.pending = .adopting)
    {outcome : Outcome (Option V) E}
    (settled : world.settleFactory n flight launcher entry.key outcome = some next) : next.Live := by
  have here := live n
  have mem {other : Nat} (inside : other ∈ (world.nodes n).answered ++ [flight]) :
      other ∈ (world.nodes n).answered ∨ other = flight :=
    (List.mem_append.mp inside).imp_right List.mem_singleton.mp
  unfold World.settleFactory at settled
  split at settled
  next value =>
    obtain rfl := Option.some.inj settled
    have opened (awaiter : Awaiter V) (open' : world.Opened awaiter) :=
      opened_append open' [{ operation := .set entry.key value, awaiter := .storing n flight value }]
    refine live_withNode (fun m _ => (live m).mono (fun _ => opened _) fun _ _ => opened _) ?_
    refine { here.mono (fun _ => opened _) fun _ _ => opened _ with
      stored := fun other later found adopts inside => ?_
      answered := fun other inside => ?_ }
    · rcases mem inside with old | rfl
      · obtain ⟨value', open'⟩ := here.stored other later found adopts old
        exact ⟨value', opened _ open'⟩
      · exact ⟨value, opened_last ..⟩
    · rcases mem inside with old | rfl
      · exact here.answered other old
      · exact ⟨entry, there, adopting ▸ fun same => by cases same⟩
  next =>
    obtain ⟨flights, stepped, same⟩ := Option.bind_eq_some_iff.mp settled
    obtain rfl := Option.some.inj same
    have calms := calms_settles stepped
    have set := here.setLoads calms (fun _ => id) fun _ _ _ => id
    refine live_withNode (fun m _ => live m) ?_
    refine { set with
      stored := fun other later found adopts inside => ?_
      answered := fun other inside => ?_ }
    · rcases mem inside with old | rfl
      · exact set.stored other later found adopts old
      · obtain ⟨entry', -, ⟨goes, -⟩ | ⟨outcome', settled'⟩⟩ := calms.origin other later found
        · exact absurd rfl goes
        · cases settled'.symm.trans adopts
    · rcases mem inside with old | rfl
      · exact set.answered other old
      · obtain ⟨later, found, same | ⟨outcome', settled'⟩⟩ := calms.onward other entry there
        · exact ⟨later, found, by rw [same, adopting]; exact fun same' => by cases same'⟩
        · exact ⟨later, found, by rw [settled']; exact fun same => by cases same⟩

/-- **The step lemma.** -/
theorem Live.step (live : world.Live) (traced : world.Traced carry) {step : Step K V E}
    (stepped : world.step carry timed step = some next) : next.Live := by
  cases step with
  | ask ask =>
      obtain ⟨⟨joined, node⟩, looked, same⟩ := Option.bind_eq_some_iff.mp stepped
      obtain rfl := Option.some.inj same
      by_cases invoked : joined.invoked = true
      · simp only [invoked, if_true]
        have opened (awaiter : Awaiter V) (open' : world.Opened awaiter) :=
          opened_append open' [{ operation := .get ask.key, awaiter := .lookup ask.node joined.flight }]
        refine live_withNode (fun m _ => (live m).mono (fun _ => opened _) fun _ _ => opened _)
          ((live ask.node).lookUp looked opened fun _ => opened_last ..)
      · simp only [invoked]
        exact live_withNode (fun m _ => live m)
          ((live ask.node).lookUp looked (fun _ => id) fun yes => absurd yes invoked)
  | issue operation =>
      obtain rfl := Option.some.inj stepped
      exact Live.more live rfl rfl
  | takes i =>
      obtain ⟨request, listed, taken⟩ := Option.bind_eq_some_iff.mp stepped
      split at taken
      · cases taken
      · obtain rfl := Option.some.inj taken
        have opened (awaiter : Awaiter V) (open' : world.Opened awaiter) :=
          @opened_set _ _ _ world i request
            { request with found := some (request.operation.act carry world.store).1 } awaiter
            listed open' fun running waiting => ⟨running, waiting⟩
        exact fun n => (live n).mono (fun _ => opened _) fun _ _ => opened _
  | evict key =>
      obtain rfl := Option.some.inj stepped
      exact live
  | answers i =>
      obtain ⟨request, listed, rest⟩ := Option.bind_eq_some_iff.mp stepped
      obtain ⟨found, took, rest⟩ := Option.bind_eq_some_iff.mp rest
      split at rest
      · cases rest
      · exact live.conclude listed rest
  | fails i =>
      obtain ⟨request, listed, rest⟩ := Option.bind_eq_some_iff.mp stepped
      split at rest
      · cases rest
      · exact live.conclude listed rest
  | expires i =>
      obtain ⟨request, listed, rest⟩ := Option.bind_eq_some_iff.mp stepped
      split at rest
      · cases rest
      · exact live.conclude listed rest
  | getFlight n reaction flight =>
      obtain ⟨flights, reacted, same⟩ := Option.bind_eq_some_iff.mp stepped
      obtain rfl := Option.some.inj same
      exact live_withNode (fun m _ => live m)
        ((live n).setGets (calms_reaction reacted) (fun _ _ => id) fun _ _ => id)
  | loadFlight n reaction flight =>
      obtain ⟨flights, reacted, same⟩ := Option.bind_eq_some_iff.mp stepped
      obtain rfl := Option.some.inj same
      exact live_withNode (fun m _ => live m)
        ((live n).setLoads (calms_reaction reacted) (fun _ => id) fun _ _ _ => id)
  | resume i =>
      obtain ⟨ask, asked, rest⟩ := Option.bind_eq_some_iff.mp stepped
      obtain ⟨stage, is, rest⟩ := Option.bind_eq_some_iff.mp rest
      cases stage with
      | looking flight =>
          obtain ⟨entry, there, rest⟩ := Option.bind_eq_some_iff.mp rest
          obtain ⟨outcome, delivered, same⟩ := Option.bind_eq_some_iff.mp rest
          obtain rfl := Option.some.inj same
          unfold continueAsk
          split
          · split
            · exact live_withNode (fun m _ => live m) ((live ask.node).share ask.key i)
            · exact live
          · exact live
      | sharing flight => cases rest
      | done outcome => cases rest
  | returns n =>
      obtain ⟨flights, adopted, same⟩ := Option.bind_eq_some_iff.mp stepped
      obtain rfl := Option.some.inj same
      exact live_withNode (fun m _ => live m) ((live n).returns (traced.nodes n).loadSound adopted)
  | factory n flight outcome =>
      obtain ⟨entry, there, rest⟩ := Option.bind_eq_some_iff.mp stepped
      obtain ⟨launcher, launched, rest⟩ := Option.bind_eq_some_iff.mp rest
      split at rest
      next adopting =>
        split at rest
        · cases rest
        · exact live.settleFactory there adopting rest
      · cases rest
  | finish i =>
      obtain ⟨ask, asked, rest⟩ := Option.bind_eq_some_iff.mp stepped
      obtain ⟨stage, is, rest⟩ := Option.bind_eq_some_iff.mp rest
      cases stage with
      | sharing flight =>
          obtain ⟨entry, there, rest⟩ := Option.bind_eq_some_iff.mp rest
          obtain ⟨outcome, delivered, same⟩ := Option.bind_eq_some_iff.mp rest
          obtain rfl := Option.some.inj same
          exact live
      | looking flight => cases rest
      | done outcome => cases rest

omit [DecidableEq K] in
theorem live_start : (start : World K V E).Live := fun _ => {
  idle := rfl
  begun := fun _ _ found => by cases found
  looked := fun _ _ found => by cases found
  running := fun _ _ found => by cases found
  stored := fun _ _ found => by cases found
  answered := fun _ inside => by cases inside }

/-- The two invariants together. -/
structure Steady (carry : V → Option V) (world : World K V E) : Prop where
  traced : world.Traced carry
  live : world.Live

theorem Steady.step (steady : world.Steady carry) {step : Step K V E}
    (stepped : world.step carry timed step = some next) : next.Steady carry :=
  ⟨steady.traced.step stepped, steady.live.step steady.traced stepped⟩

theorem steady_of_follow {schedule : List (Step K V E)} :
    ∀ {world final : World K V E}, world.Steady carry → world.follow carry timed schedule = some final →
      final.Steady carry := by
  induction schedule with
  | nil =>
      intro world final steady followed
      obtain rfl := Option.some.inj followed
      exact steady
  | cons step rest ih =>
      intro world final steady followed
      obtain ⟨next, stepped, followed⟩ := Option.bind_eq_some_iff.mp followed
      exact ih (steady.step stepped) followed

end World

/-! ## Ways to the end -/

/-- Steps that need no backend: timers, reactions, and what factories do, which come to `works`. -/
def Step.Quiet (works : Nat → Nat → Outcome (Option V) E) : Step K V E → Prop
  | .factory n flight outcome => outcome = works n flight
  | .expires _ | .getFlight _ _ _ | .loadFlight _ _ _ | .resume _ | .returns _ | .finish _ => True
  | _ => False

namespace World

variable [DecidableEq K]

/-- Quiet steps lead to the end of the ask. -/
def Finishes (carry : V → Option V) (works : Nat → Nat → Outcome (Option V) E) (world : World K V E)
    (i : Nat) : Prop :=
  ∃ (schedule : List (Step K V E)) (final : World K V E) (outcome : Outcome (Option V) E),
    (∀ step ∈ schedule, step.Quiet works) ∧ world.follow carry true schedule = some final ∧
      final.log.asks = world.log.asks ∧ final.stages[i]? = some (.done outcome)

variable {carry : V → Option V} {works : Nat → Nat → Outcome (Option V) E} {world next : World K V E}
  {i : Nat}

theorem asks_of_conclude {request : Request K V} {found : Option V}
    (concluded : world.conclude i request found = some next) : next.log.asks = world.log.asks := by
  rw [conclude] at concluded
  split at concluded
  · obtain ⟨flights, -, same⟩ := Option.bind_eq_some_iff.mp concluded
    cases same
    rfl
  · obtain ⟨flights, -, same⟩ := Option.bind_eq_some_iff.mp concluded
    cases same
    rfl
  · cases concluded
    rfl

/-- Nobody asks anything new. -/
theorem asks_of_quiet {step : Step K V E} (quiet : step.Quiet works)
    (stepped : world.step carry true step = some next) : next.log.asks = world.log.asks := by
  cases step with
  | ask ask => cases quiet
  | issue operation => cases quiet
  | takes j => cases quiet
  | evict key => cases quiet
  | answers j => cases quiet
  | fails j => cases quiet
  | expires j =>
      obtain ⟨request, -, rest⟩ := Option.bind_eq_some_iff.mp stepped
      split at rest
      · cases rest
      · exact asks_of_conclude rest
  | getFlight n reaction flight =>
      obtain ⟨flights, -, same⟩ := Option.bind_eq_some_iff.mp stepped
      cases same
      rfl
  | loadFlight n reaction flight =>
      obtain ⟨flights, -, same⟩ := Option.bind_eq_some_iff.mp stepped
      cases same
      rfl
  | resume j =>
      obtain ⟨ask, -, rest⟩ := Option.bind_eq_some_iff.mp stepped
      obtain ⟨stage, -, rest⟩ := Option.bind_eq_some_iff.mp rest
      cases stage with
      | looking flight =>
          obtain ⟨entry, -, rest⟩ := Option.bind_eq_some_iff.mp rest
          obtain ⟨outcome, -, same⟩ := Option.bind_eq_some_iff.mp rest
          cases same
          unfold continueAsk
          split
          · split <;> rfl
          · rfl
      | sharing flight => cases rest
      | done outcome => cases rest
  | returns n =>
      obtain ⟨flights, -, same⟩ := Option.bind_eq_some_iff.mp stepped
      cases same
      rfl
  | factory n flight outcome =>
      obtain ⟨entry, -, rest⟩ := Option.bind_eq_some_iff.mp stepped
      obtain ⟨launcher, -, rest⟩ := Option.bind_eq_some_iff.mp rest
      split at rest
      · split at rest
        · cases rest
        · unfold settleFactory at rest
          split at rest
          · cases rest
            rfl
          · obtain ⟨flights, -, same⟩ := Option.bind_eq_some_iff.mp rest
            cases same
            rfl
      · cases rest
  | finish j =>
      obtain ⟨ask, -, rest⟩ := Option.bind_eq_some_iff.mp stepped
      obtain ⟨stage, -, rest⟩ := Option.bind_eq_some_iff.mp rest
      cases stage with
      | sharing flight =>
          obtain ⟨entry, -, rest⟩ := Option.bind_eq_some_iff.mp rest
          obtain ⟨outcome, -, same⟩ := Option.bind_eq_some_iff.mp rest
          cases same
          rfl
      | looking flight => cases rest
      | done outcome => cases rest

theorem Finishes.step (step : Step K V E) (quiet : step.Quiet works)
    (stepped : world.step carry true step = some next) (finishes : next.Finishes carry works i) :
    world.Finishes carry works i := by
  obtain ⟨schedule, final, outcome, quiet', followed, asks, done⟩ := finishes
  refine ⟨step :: schedule, final, outcome, fun step' member => ?_, ?_,
    asks.trans (asks_of_quiet quiet stepped), done⟩
  · rcases List.mem_cons.mp member with rfl | later
    · exact quiet
    · exact quiet' step' later
  · rw [follow, stepped]
    exact followed

theorem finishes_of_done {outcome : Outcome (Option V) E} (done : world.stages[i]? = some (.done outcome)) :
    world.Finishes carry works i :=
  ⟨[], world, outcome, fun _ member => (by cases member), rfl, rfl, done⟩

omit [DecidableEq K] in
theorem stages_set {stage stage' : Stage V E} (is : world.stages[i]? = some stage) :
    (world.stages.set i stage')[i]? = some stage' :=
  List.getElem?_set_self (List.getElem?_eq_some_iff.mp is).1

section

variable {service : Service K (Option V) E} {flight : Nat} {entry : Flight K (Option V) E}

/-- The two reactions of a settled flight run. -/
theorem reaches_delivery (reached : Service K (Option V) E → Prop)
    (reacts : ∀ (service next : Service K (Option V) E) (reaction : Reaction),
      service.step (reaction.action flight) = some next → reached next → reached service)
    (delivered : ∀ (service : Service K (Option V) E) (entry : Flight K (Option V) E)
      (outcome : Outcome (Option V) E), service.flightAt flight = some entry → entry.outcome = some outcome →
        reached service)
    (there : service.flightAt flight = some entry) (idle : service.stack = [])
    {outcome : Outcome (Option V) E} (settled : entry.pending = .settled outcome) : reached service := by
  have deliver {service : Service K (Option V) E} {entry : Flight K (Option V) E}
      (there : service.flightAt flight = some entry) (idle : service.stack = [])
      (settled : entry.pending = .settled outcome) (cleaned : entry.cleaned = true) : reached service := by
    cases waiting : entry.outcome with
    | some outcome' => exact delivered service entry outcome' there waiting
    | none =>
        refine reacts service _ .delivers (delivers_of_cleaned there settled cleaned waiting idle) ?_
        exact delivered _ _ outcome (flightAt_patch_self there) rfl
  cases cleaned : entry.cleaned with
  | true => exact deliver there idle settled cleaned
  | false =>
      refine reacts service _ .cleanup (cleanup_of_settled there settled cleaned idle) ?_
      exact @deliver _ { entry with cleaned := true } (flightAt_patch_self there) idle settled rfl

end

omit [DecidableEq K] in
theorem withNode_self (world : World K V E) (n : Nat) : world.withNode n (world.nodes n) = world := by
  rw [withNode, Function.update_eq_self]

omit [DecidableEq K] in
theorem nodes_withNode_self (world : World K V E) (n : Nat) (node : Node K V E) :
    (world.withNode n node).nodes n = node := Function.update_self ..

omit [DecidableEq K] in
theorem withNode_withNode (world : World K V E) (n : Nat) (node node' : Node K V E) :
    (world.withNode n node).withNode n node' = world.withNode n node' := by
  rw [withNode, withNode, Function.update_idem]
  rfl

theorem finishes_of_withNode (n : Nat)
    (finishes : (world.withNode n (world.nodes n)).Finishes carry works i) :
    world.Finishes carry works i := by
  rwa [withNode_self] at finishes

section Sharing

variable {ask : Ask K} {flight : Nat} {entry : Flight K (Option V) E}

/-- The flight was delivered. -/
theorem finishes_of_delivered (asked : world.log.asks[i]? = some ask)
    (is : world.stages[i]? = some (.sharing flight))
    (there : (world.nodes ask.node).loadFlights.flightAt flight = some entry)
    {outcome : Outcome (Option V) E} (delivered : entry.outcome = some outcome) :
    world.Finishes carry works i := by
  have stepped : world.step carry true (.finish i) =
      some { world with stages := world.stages.set i (.done outcome) } := by
    simp only [World.step, asked, is, there, delivered, bind, Option.bind]
    rfl
  exact .step (.finish i) trivial stepped (finishes_of_done (stages_set is))

/-- The flight is settled: its reactions run, and the caller goes on. -/
theorem finishes_of_settled (asked : world.log.asks[i]? = some ask)
    (is : world.stages[i]? = some (.sharing flight))
    (there : (world.nodes ask.node).loadFlights.flightAt flight = some entry)
    (idle : (world.nodes ask.node).loadFlights.stack = []) {outcome : Outcome (Option V) E}
    (settled : entry.pending = .settled outcome) : world.Finishes carry works i := by
  refine finishes_of_withNode ask.node ?_
  refine reaches_delivery (fun service => (world.withNode ask.node
    { world.nodes ask.node with loadFlights := service }).Finishes carry works i) ?_ ?_ there idle settled
  · intro service next reaction stepped finishes
    refine .step (.loadFlight ask.node reaction flight) trivial ?_ finishes
    simp only [World.step, nodes_withNode_self, stepped, withNode_withNode]
    rfl
  · intro service entry outcome there delivered
    refine finishes_of_delivered asked is ?_ delivered
    rw [nodes_withNode_self]
    exact there

/-- A world later on: the caller is as far as it was, and its flight is settled. -/
theorem finishes_of_next {step : Step K V E} (stepped : world.step carry true step = some next)
    (quiet : step.Quiet works) (asked : world.log.asks[i]? = some ask)
    (is : world.stages[i]? = some (.sharing flight)) (log : next.log.asks = world.log.asks)
    (stages : next.stages = world.stages)
    (there : (world.nodes ask.node).loadFlights.flightAt flight = some entry)
    (idle : (world.nodes ask.node).loadFlights.stack = []) (outcome : Outcome (Option V) E)
    (settles : (next.nodes ask.node).loadFlights = (world.nodes ask.node).loadFlights.patch flight
      fun entry => { entry with pending := .settled outcome }) :
    world.Finishes carry works i := by
  refine .step step quiet stepped ?_
  refine @finishes_of_settled _ _ _ _ _ _ _ i ask flight { entry with pending := .settled outcome }
    (log ▸ asked) (stages ▸ is) ?_ ?_ outcome rfl
  · rw [settles]
    exact flightAt_patch_self there
  · rw [settles]
    exact idle

/-- The factory's value is being stored: the timer of the backend call runs out. -/
theorem finishes_of_storing (asked : world.log.asks[i]? = some ask)
    (is : world.stages[i]? = some (.sharing flight))
    (there : (world.nodes ask.node).loadFlights.flightAt flight = some entry)
    (idle : (world.nodes ask.node).loadFlights.stack = []) (adopting : entry.pending = .adopting) {value : V}
    (storing : world.Opened (.storing ask.node flight value)) : world.Finishes carry works i := by
  obtain ⟨j, request, listed, running, waiting⟩ := storing
  have settles := settles_of_adopting there adopting (.resolved (some value))
  have expires : world.step carry true (.expires j) = some (({ world with
      requests := world.requests.set j { request with ended := true } } : World K V E).withNode ask.node
        { world.nodes ask.node with
          loadFlights := (world.nodes ask.node).loadFlights.patch flight fun entry =>
            { entry with pending := .settled (.resolved (some value)) } }) := by
    simp only [World.step, listed, running, conclude, waiting, settles, bind, Option.bind]
    rfl
  refine finishes_of_next expires trivial asked is rfl rfl there idle (.resolved (some value)) ?_
  rw [nodes_withNode_self]

theorem settleFactory_plain {n launcher : Nat} {key : K} {outcome : Outcome (Option V) E}
    (plain : ∀ value, outcome ≠ .resolved (some value)) :
    world.settleFactory n flight launcher key outcome =
      ((world.nodes n).loadFlights.step (.settles flight outcome)).bind fun loadFlights =>
        some { world.withNode n { world.nodes n with
            loadFlights, answered := (world.nodes n).answered ++ [flight] } with
          log := { world.log with outcomes := world.log.outcomes ++ [(launcher, outcome)] } } := by
  cases outcome with
  | rejected error => rfl
  | resolved found =>
      cases found with
      | none => rfl
      | some value => exact absurd rfl (plain value)

/-- The factory's promise is pending, or its value is being stored. -/
theorem finishes_of_adopting (steady : world.Steady carry) (asked : world.log.asks[i]? = some ask)
    (is : world.stages[i]? = some (.sharing flight))
    (there : (world.nodes ask.node).loadFlights.flightAt flight = some entry)
    (idle : (world.nodes ask.node).loadFlights.stack = []) (adopting : entry.pending = .adopting) :
    world.Finishes carry works i := by
  have live := steady.live ask.node
  by_cases answered : flight ∈ (world.nodes ask.node).answered
  · obtain ⟨value, storing⟩ := live.stored flight entry there adopting answered
    exact finishes_of_storing asked is there idle adopting storing
  have short : flight < (world.nodes ask.node).launchers.length := by
    rw [(steady.traced.nodes ask.node).launchers]
    exact (List.getElem?_eq_some_iff.mp there).1
  have factory : world.step carry true (.factory ask.node flight (works ask.node flight)) =
      world.settleFactory ask.node flight (world.nodes ask.node).launchers[flight] entry.key
        (works ask.node flight) := by
    simp only [World.step, there, List.getElem?_eq_getElem short, adopting, answered, bind, Option.bind]
    rfl
  have settles := settles_of_adopting there adopting (works ask.node flight)
  have settled (plain : ∀ value, works ask.node flight ≠ .resolved (some value)) :
      world.Finishes carry works i := by
    rw [settleFactory_plain plain, settles] at factory
    refine finishes_of_next factory rfl asked is rfl rfl there idle (works ask.node flight) ?_
    rw [nodes_withNode_self]
  cases comes : works ask.node flight with
  | rejected error => exact settled fun value same => by cases comes.symm.trans same
  | resolved found =>
      cases found with
      | none => exact settled fun value same => by cases comes.symm.trans same
      | some value =>
          have stepped := factory
          rw [comes, settleFactory] at stepped
          refine .step (.factory ask.node flight (.resolved (some value))) comes.symm stepped ?_
          refine @finishes_of_storing _ _ _ _ _ _ _ i ask flight entry asked is ?_ ?_ adopting value ?_
          · rw [nodes_withNode_self]
            exact there
          · rw [nodes_withNode_self]
            exact idle
          · exact opened_last ..

/-- No factory of the node runs. -/
theorem finishes_of_idle (steady : world.Steady carry) (asked : world.log.asks[i]? = some ask)
    (is : world.stages[i]? = some (.sharing flight))
    (idle : (world.nodes ask.node).loadFlights.stack = []) : world.Finishes carry works i := by
  obtain ⟨-, entry, there, -⟩ := steady.traced.staged i ask _ asked is
  cases pending : entry.pending with
  | running =>
      have inside := (steady.live ask.node).running flight entry there pending
      rw [idle] at inside
      cases inside
  | adopting => exact finishes_of_adopting steady asked is there idle pending
  | settled outcome => exact finishes_of_settled asked is there idle pending

end Sharing

theorem adopts_of_running {service : Service K (Option V) E} {flight : Nat} {stack : List Nat}
    (running : service.stack = flight :: stack) : service.step .adopts =
      some (({ service with stack } : Service K (Option V) E).setPending flight .adopting) := by
  rw [Service.step, leave, running]

/-- The factories that run return their promises. -/
theorem finishes_of_drained (n : Nat) {asks : List (Ask K)} {stages : List (Stage V E)}
    (rest : ∀ next : World K V E, next.Steady carry → next.log.asks = asks → next.stages = stages →
      (next.nodes n).loadFlights.stack = [] → next.Finishes carry works i) :
    ∀ {stack : List Nat} {world : World K V E}, (world.nodes n).loadFlights.stack = stack →
      world.Steady carry → world.log.asks = asks → world.stages = stages → world.Finishes carry works i := by
  intro stack
  induction stack with
  | nil => exact fun idle steady asked staged => rest _ steady asked staged idle
  | cons flight stack ih =>
      intro world running steady asked staged
      have returns : world.step carry true (.returns n) = some (world.withNode n { world.nodes n with
          loadFlights := ({ (world.nodes n).loadFlights with stack } : Service K (Option V) E).setPending
            flight .adopting }) := by
        rw [World.step, adopts_of_running running]
        rfl
      refine .step (.returns n) trivial returns (ih ?_ (steady.step returns) asked staged)
      rw [nodes_withNode_self]
      rfl

section Looking

variable {ask : Ask K} {flight : Nat} {entry : Flight K (Option V) E}

/-- A caller that joined a flight of a factory. -/
theorem finishes_of_sharing (steady : world.Steady carry) (asked : world.log.asks[i]? = some ask)
    (is : world.stages[i]? = some (.sharing flight)) : world.Finishes carry works i := by
  refine finishes_of_drained ask.node (fun next steady' asks stages idle => ?_) rfl steady rfl rfl
  exact finishes_of_idle steady' (asks ▸ asked) (stages ▸ is) idle

/-- The lookup was delivered. -/
theorem finishes_of_found (steady : world.Steady carry) (asked : world.log.asks[i]? = some ask)
    (is : world.stages[i]? = some (.looking flight))
    (there : (world.nodes ask.node).getFlights.flightAt flight = some entry)
    {outcome : Outcome (Option V) E} (delivered : entry.outcome = some outcome) :
    world.Finishes carry works i := by
  have resumes : world.step carry true (.resume i) = some (world.continueAsk i ask outcome) := by
    simp only [World.step, asked, is, there, delivered, bind, Option.bind]
    rfl
  have steady' := steady.step resumes
  refine .step (.resume i) trivial resumes ?_
  unfold continueAsk at steady' ⊢
  split at steady'
  · split at steady'
    next loads =>
      rw [if_pos loads]
      exact finishes_of_sharing steady' asked (stages_set is)
    next plain =>
      rw [if_neg plain]
      exact finishes_of_done (stages_set is)
  · exact finishes_of_done (stages_set is)

/-- The lookup is settled: its reactions run, and the caller goes on. -/
theorem finishes_of_lookedUp (steady : world.Steady carry) (asked : world.log.asks[i]? = some ask)
    (is : world.stages[i]? = some (.looking flight))
    (there : (world.nodes ask.node).getFlights.flightAt flight = some entry)
    {outcome : Outcome (Option V) E} (settled : entry.pending = .settled outcome) :
    world.Finishes carry works i := by
  -- every world on the way is steady
  let reached (service : Service K (Option V) E) : Prop :=
    (world.withNode ask.node { world.nodes ask.node with getFlights := service }).Steady carry →
      (world.withNode ask.node { world.nodes ask.node with getFlights := service }).Finishes carry works i
  have goal : reached (world.nodes ask.node).getFlights := by
    refine reaches_delivery reached ?_ ?_ there (steady.live ask.node).idle settled
    · intro service next reaction stepped finishes steady'
      have steps : (world.withNode ask.node
          { world.nodes ask.node with getFlights := service }).step carry true
          (.getFlight ask.node reaction flight) =
            some (world.withNode ask.node { world.nodes ask.node with getFlights := next }) := by
        simp only [World.step, nodes_withNode_self, stepped, withNode_withNode]
        rfl
      exact .step (.getFlight ask.node reaction flight) trivial steps (finishes (steady'.step steps))
    · intro service entry outcome there delivered steady'
      refine finishes_of_found steady' asked is ?_ delivered
      rw [nodes_withNode_self]
      exact there
  exact finishes_of_withNode ask.node (goal (by rwa [withNode_self]))

/-- The lookup waits for the backend: the timer runs out. -/
theorem finishes_of_waiting (steady : world.Steady carry) (asked : world.log.asks[i]? = some ask)
    (is : world.stages[i]? = some (.looking flight))
    (there : (world.nodes ask.node).getFlights.flightAt flight = some entry)
    (adopting : entry.pending = .adopting) : world.Finishes carry works i := by
  obtain ⟨j, request, listed, running, waiting⟩ := (steady.live ask.node).looked flight entry there adopting
  have settles := settles_of_adopting there adopting (.resolved none)
  have expires : world.step carry true (.expires j) = some (({ world with
      requests := world.requests.set j { request with ended := true } } : World K V E).withNode ask.node
        { world.nodes ask.node with
          getFlights := (world.nodes ask.node).getFlights.patch flight fun entry =>
            { entry with pending := .settled (.resolved none) } }) := by
    simp only [World.step, listed, running, conclude, waiting, settles, bind, Option.bind]
    rfl
  refine .step (.expires j) trivial expires ?_
  refine @finishes_of_lookedUp _ _ _ _ _ _ _ i ask flight { entry with pending := .settled (.resolved none) }
    (steady.step expires) asked is ?_ _ rfl
  rw [nodes_withNode_self]
  exact flightAt_patch_self there

end Looking

theorem finishes_of_steady (steady : world.Steady carry) {ask : Ask K}
    (asked : world.log.asks[i]? = some ask) : world.Finishes carry works i := by
  have short : i < world.stages.length := steady.traced.stages ▸ (List.getElem?_eq_some_iff.mp asked).1
  have is := List.getElem?_eq_getElem short
  cases stage : world.stages[i] with
  | looking flight =>
      rw [stage] at is
      obtain ⟨entry, there, -⟩ := steady.traced.staged i ask _ asked is
      cases pending : entry.pending with
      | running => exact absurd pending ((steady.live ask.node).begun flight entry there)
      | adopting => exact finishes_of_waiting steady asked is there pending
      | settled outcome => exact finishes_of_lookedUp steady asked is there pending
  | sharing flight =>
      rw [stage] at is
      exact finishes_of_sharing steady asked is
  | done outcome =>
      rw [stage] at is
      exact finishes_of_done is

/-- **A dead cache does not hold up its callers.**  With timers on, every call of `get` and `load` can
be led to its end, from every world, by timers, reactions and the factories that run -- whatever they
come to -- though the backend neither answers nor does anything more. -/
theorem load_never_stalls {schedule : List (Step K V E)} {world : World K V E}
    (followed : start.follow carry true schedule = some world) {i : Nat} {ask : Ask K}
    (asked : world.log.asks[i]? = some ask) (works : Nat → Nat → Outcome (Option V) E) :
    ∃ (rest : List (Step K V E)) (final : World K V E) (outcome : Outcome (Option V) E),
      (∀ step ∈ rest, step.Quiet works) ∧ world.follow carry true rest = some final ∧
        final.stages[i]? = some (.done outcome) ∧ final.log.Accounts carry ask outcome := by
  have steady := steady_of_follow ⟨traced_start, live_start⟩ followed
  obtain ⟨rest, final, outcome, quiet, followed', asks, done⟩ :=
    @finishes_of_steady _ _ _ _ _ works _ _ steady _ asked
  exact ⟨rest, final, outcome, quiet, followed', done,
    (steady_of_follow steady followed').traced.staged i ask _ (asks ▸ asked) done⟩

/-- A load waits for a backend that took its lookup and never answers. -/
def unanswered : List (Step Nat Nat Nat) := [.ask ⟨0, 7, true⟩, .takes 0]

theorem unanswered_load_ends : ∃ world, start.follow some true unanswered = some world ∧
    ∃ (rest : List (Step Nat Nat Nat)) (final : World Nat Nat Nat) (outcome : Outcome (Option Nat) Nat),
      (∀ step ∈ rest, step.Quiet fun _ _ => .rejected 1) ∧ world.follow some true rest = some final ∧
        final.stages[0]? = some (.done outcome) ∧ final.log.Accounts some ⟨0, 7, true⟩ outcome := by
  obtain ⟨world, followed, asked⟩ : ∃ world, start.follow some true unanswered = some world ∧
    world.log.asks[0]? = some ⟨0, 7, true⟩ := ⟨_, rfl, rfl⟩
  exact ⟨world, followed, load_never_stalls followed asked fun _ _ => .rejected 1⟩

end World

end SdcoreNest.Cache
