/-
# Utils.SingleFlight -- pending work shared by key

`SingleFlightService.run` of `single-flight.service.ts`, as a machine whose steps are the points at
which the event loop may run something: a call, the ways in which a factory ends, the settlement of a
promise that it returned, the reaction of `finally`, and the settlement of the flight itself.  A factory
runs synchronously inside its call and may call `run` again, so the running factories form a stack;
reactions run when the stack is empty.

* `Sound` -- a key's entry is the one flight of the key that was not cleaned up;
* `sound_of_follow` -- every step keeps it, so every schedule does;
* `single_flight_exact` -- what callers see.
-/
import Mathlib.Data.List.Induction
import Mathlib.Logic.Function.Basic

namespace SdcoreNest.Utils

set_option autoImplicit false

/-! ## The machine -/

inductive Outcome (V E : Type) where
  | resolved (value : V)
  | rejected (error : E)
deriving DecidableEq

/-- The promise `pending`: its factory runs, it waits for a promise that the factory returned, or it is
settled. -/
inductive Progress (V E : Type) where
  | running
  | adopting
  | settled (outcome : Outcome V E)
deriving DecidableEq

structure Flight (K V E : Type) where
  key : K
  pending : Progress V E := .running
  /-- The reaction of `finally` has run. -/
  cleaned : Bool := false
  /-- How the promise that callers hold is settled. -/
  outcome : Option (Outcome V E) := none
deriving DecidableEq

namespace Flight

variable {K V E : Type}

/-- How a flight may go on: its key stays, what was cleaned up or settled stays so. -/
structure Onward (entry later : Flight K V E) : Prop where
  key : later.key = entry.key
  cleaned : entry.cleaned = true → later.cleaned = true
  settled : ∀ outcome, entry.pending = .settled outcome → later.pending = .settled outcome
  delivered : ∀ outcome, entry.outcome = some outcome → later.outcome = some outcome

theorem Onward.refl (entry : Flight K V E) : entry.Onward entry :=
  ⟨rfl, id, fun _ => id, fun _ => id⟩

theorem Onward.trans {first second third : Flight K V E} (onward : first.Onward second)
    (onward' : second.Onward third) : first.Onward third :=
  ⟨onward'.key.trans onward.key, fun done => onward'.cleaned (onward.cleaned done),
    fun outcome done => onward'.settled outcome (onward.settled outcome done),
    fun outcome done => onward'.delivered outcome (onward.delivered outcome done)⟩

end Flight

structure Service (K V E : Type) where
  flights : K → Option Nat
  /-- Every flight there was; a flight is named by its place. -/
  begun : List (Flight K V E)
  /-- The factories that run, the innermost first. -/
  stack : List Nat

/-- What a call returns, and whether it invokes its own factory. -/
structure Joined where
  flight : Nat
  invoked : Bool
deriving DecidableEq

inductive Action (K V E : Type) where
  | call (key : K)
  /-- The innermost factory returns a plain value. -/
  | returns (value : V)
  /-- The innermost factory returns a promise. -/
  | adopts
  | throws (error : E)
  /-- The promise that a factory returned settles. -/
  | settles (flight : Nat) (outcome : Outcome V E)
  /-- The reaction of `finally`. -/
  | cleanup (flight : Nat)
  /-- The promise that callers hold settles. -/
  | delivers (flight : Nat)

/-- A factory ends. -/
def Action.isEnd {K V E : Type} : Action K V E → Bool
  | .returns _ | .adopts | .throws _ => true
  | _ => false

namespace Service

section

variable {K V E : Type} [DecidableEq K]

def start : Service K V E := ⟨fun _ => none, [], []⟩

/-- Register a flight and invoke its factory. -/
def launch (service : Service K V E) (key : K) : Service K V E where
  flights := Function.update service.flights key (some service.begun.length)
  begun := service.begun ++ [{ key }]
  stack := service.begun.length :: service.stack

def run (service : Service K V E) (key : K) : Joined × Service K V E :=
  match service.flights key with
  | some existing => (⟨existing, false⟩, service)
  | none => (⟨service.begun.length, true⟩, service.launch key)

def setPending (service : Service K V E) (flight : Nat) (pending : Progress V E) : Service K V E :=
  { service with begun := service.begun.modify flight fun entry => { entry with pending } }

/-- The innermost factory ends. -/
def leave (service : Service K V E) (pending : Progress V E) : Option (Service K V E) :=
  match service.stack with
  | [] => none
  | flight :: stack => some (({ service with stack }).setPending flight pending)

/-- `if (this.flights.get(key) === flight) this.flights.delete(key)` -/
def cleanup (service : Service K V E) (flight : Nat) (key : K) : Service K V E :=
  { service with
    flights := if service.flights key = some flight then Function.update service.flights key none
      else service.flights
    begun := service.begun.modify flight fun entry => { entry with cleaned := true } }

def step (service : Service K V E) : Action K V E → Option (Service K V E)
  | .call key => some (service.run key).2
  | .returns value => service.leave (.settled (.resolved value))
  | .adopts => service.leave .adopting
  | .throws error => service.leave (.settled (.rejected error))
  | .settles flight outcome =>
      match service.begun[flight]? with
      | some ⟨_, .adopting, _, _⟩ => some (service.setPending flight (.settled outcome))
      | _ => none
  | .cleanup flight =>
      match service.begun[flight]?, service.stack with
      | some ⟨key, .settled _, false, _⟩, [] => some (service.cleanup flight key)
      | _, _ => none
  | .delivers flight =>
      match service.begun[flight]?, service.stack with
      | some ⟨_, .settled outcome, true, none⟩, [] =>
          some { service with
            begun := service.begun.modify flight fun entry => { entry with outcome := some outcome } }
      | _, _ => none

/-- The state a schedule leads to. -/
def follow : Service K V E → List (Action K V E) → Option (Service K V E)
  | service, [] => some service
  | service, action :: rest => (service.step action).bind fun next => next.follow rest

/-! ## What a step can do -/

/-- The flight of a name. -/
def flightAt (service : Service K V E) (flight : Nat) : Option (Flight K V E) := service.begun[flight]?

/-- Change the entry of a flight. -/
def patch (service : Service K V E) (flight : Nat) (change : Flight K V E → Flight K V E) :
    Service K V E :=
  { service with begun := service.begun.modify flight change }

omit [DecidableEq K] in
@[simp] theorem patch_flights (service : Service K V E) (flight : Nat) (change) :
    (service.patch flight change).flights = service.flights := rfl

omit [DecidableEq K] in
@[simp] theorem patch_stack (service : Service K V E) (flight : Nat) (change) :
    (service.patch flight change).stack = service.stack := rfl

omit [DecidableEq K] in
/-- The flight that is patched, and the others. -/
theorem flightAt_patch {service : Service K V E} {flight other : Nat} {change : Flight K V E → Flight K V E}
    {entry : Flight K V E} : (service.patch flight change).flightAt other = some entry ↔
      (other = flight ∧ ∃ old, service.flightAt flight = some old ∧ entry = change old) ∨
        (other ≠ flight ∧ service.flightAt other = some entry) := by
  simp only [flightAt, patch, List.getElem?_modify, Option.map_eq_map, Option.map_eq_some_iff]
  by_cases same : other = flight
  · subst same
    simp [eq_comm]
  · simp [same, Ne.symm same]

theorem flights_launch (service : Service K V E) (key other : K) : (service.launch key).flights other =
    if other = key then some service.begun.length else service.flights other :=
  Function.update_apply ..

theorem flights_cleanup {service : Service K V E} {flight : Nat} {key : K}
    (own : service.flights key = some flight) (other : K) : (service.cleanup flight key).flights other =
      if other = key then none else service.flights other := by
  rw [cleanup, if_pos own]
  exact Function.update_apply ..

theorem flightAt_launch {service : Service K V E} {key : K} {flight : Nat} {entry : Flight K V E} :
    (service.launch key).flightAt flight = some entry ↔
      service.flightAt flight = some entry ∨ flight = service.begun.length ∧ entry = { key } := by
  rw [flightAt, flightAt, launch, List.getElem?_append]
  split
  next old => simp [Nat.ne_of_lt old]
  next new =>
    rw [List.getElem?_eq_none (Nat.not_lt.mp new), List.getElem?_singleton]
    have last : flight - service.begun.length = 0 ↔ flight = service.begun.length := by omega
    simp only [last]
    split
    next same => simp [same, eq_comm]
    next other => simp [other]

/-- The effects of a step, each with what it found. -/
inductive Effect (service : Service K V E) : Action K V E → Service K V E → Prop
  | joined {key : K} {existing : Nat} (found : service.flights key = some existing) :
      Effect service (.call key) service
  | launched {key : K} (absent : service.flights key = none) :
      Effect service (.call key) (service.launch key)
  /-- The innermost factory ends. -/
  | left {action : Action K V E} {flight : Nat} {stack : List Nat} {pending : Progress V E}
      (ends : action.isEnd = true) (running : service.stack = flight :: stack) :
      Effect service action
        (({ service with stack } : Service K V E).patch flight fun entry => { entry with pending })
  | settled {flight : Nat} {outcome : Outcome V E} {entry : Flight K V E}
      (found : service.flightAt flight = some entry) (adopting : entry.pending = .adopting) :
      Effect service (.settles flight outcome)
        (service.patch flight fun entry => { entry with pending := .settled outcome })
  | cleaned {flight : Nat} {outcome : Outcome V E} {entry : Flight K V E}
      (found : service.flightAt flight = some entry) (settled : entry.pending = .settled outcome)
      (first : entry.cleaned = false) :
      Effect service (.cleanup flight) (service.cleanup flight entry.key)
  | delivered {flight : Nat} {outcome : Outcome V E} {entry : Flight K V E}
      (found : service.flightAt flight = some entry) (settled : entry.pending = .settled outcome)
      (cleaned : entry.cleaned = true) :
      Effect service (.delivers flight)
        (service.patch flight fun entry => { entry with outcome := some outcome })

theorem effect_of_step {service next : Service K V E} {action : Action K V E}
    (stepped : service.step action = some next) : Effect service action next := by
  cases action with
  | call key =>
      obtain rfl := Option.some.inj stepped
      rw [run]
      split
      next existing found => exact .joined found
      next absent => exact .launched absent
  | returns value =>
      rw [step, leave] at stepped
      split at stepped
      · cases stepped
      next flight stack running =>
        obtain rfl := Option.some.inj stepped
        exact .left rfl running
  | adopts =>
      rw [step, leave] at stepped
      split at stepped
      · cases stepped
      next flight stack running =>
        obtain rfl := Option.some.inj stepped
        exact .left rfl running
  | throws error =>
      rw [step, leave] at stepped
      split at stepped
      · cases stepped
      next flight stack running =>
        obtain rfl := Option.some.inj stepped
        exact .left rfl running
  | settles flight outcome =>
      rw [step] at stepped
      split at stepped
      next found =>
        obtain rfl := Option.some.inj stepped
        exact .settled found rfl
      · cases stepped
  | cleanup flight =>
      rw [step] at stepped
      split at stepped
      next found _ =>
        obtain rfl := Option.some.inj stepped
        exact .cleaned found rfl rfl
      · cases stepped
  | delivers flight =>
      rw [step] at stepped
      split at stepped
      next found _ =>
        obtain rfl := Option.some.inj stepped
        exact .delivered found rfl rfl
      · cases stepped

/-! ## The invariant -/

/-- A key's entry is the one flight of the key that was not cleaned up; what was cleaned up is settled,
and what callers got is how it was settled; the factories on the stack run. -/
structure Sound (service : Service K V E) : Prop where
  registered : ∀ key flight, service.flights key = some flight ↔
    ∃ entry, service.flightAt flight = some entry ∧ entry.key = key ∧ entry.cleaned = false
  cleaned : ∀ flight entry, service.flightAt flight = some entry → entry.cleaned = true →
    ∃ outcome, entry.pending = .settled outcome
  delivered : ∀ flight entry outcome, service.flightAt flight = some entry →
    entry.outcome = some outcome → entry.pending = .settled outcome
  running : ∀ flight ∈ service.stack, ∃ entry, service.flightAt flight = some entry ∧
    entry.pending = .running
  stacked : service.stack.Nodup

omit [DecidableEq K] in
theorem sound_start : Sound (start : Service K V E) where
  registered key flight := by simp [start, flightAt]
  cleaned flight entry found := by simp [start, flightAt] at found
  delivered flight entry outcome found := by simp [start, flightAt] at found
  running flight inside := by cases inside
  stacked := List.nodup_nil

omit [DecidableEq K] in
/-- A patch that keeps the key and the cleaning, and leaves the stack what runs. -/
theorem Sound.patch {service : Service K V E} (sound : service.Sound) {flight : Nat}
    {change : Flight K V E → Flight K V E} {stack : List Nat} (fewer : stack.Sublist service.stack)
    (off : flight ∉ stack) (sameKey : ∀ entry, (change entry).key = entry.key)
    (sameCleaned : ∀ entry, (change entry).cleaned = entry.cleaned)
    (cleaned : ∀ entry, service.flightAt flight = some entry → entry.cleaned = true →
      ∃ outcome, (change entry).pending = .settled outcome)
    (delivered : ∀ entry outcome, service.flightAt flight = some entry →
      (change entry).outcome = some outcome → (change entry).pending = .settled outcome) :
    Sound (({ service with stack } : Service K V E).patch flight change) where
  registered key other := by
    rw [patch_flights, sound.registered key other]
    constructor
    · rintro ⟨entry, there, named, first⟩
      by_cases same : other = flight
      · subst same
        exact ⟨change entry, flightAt_patch.mpr (.inl ⟨rfl, entry, there, rfl⟩),
          (sameKey entry).trans named, (sameCleaned entry).trans first⟩
      · exact ⟨entry, flightAt_patch.mpr (.inr ⟨same, there⟩), named, first⟩
    · rintro ⟨entry, there, named, first⟩
      rcases flightAt_patch.mp there with ⟨rfl, old, known, rfl⟩ | ⟨-, there⟩
      · exact ⟨old, known, (sameKey old).symm.trans named, (sameCleaned old).symm.trans first⟩
      · exact ⟨entry, there, named, first⟩
  cleaned other entry there done := by
    rcases flightAt_patch.mp there with ⟨rfl, old, known, rfl⟩ | ⟨-, there⟩
    · exact cleaned old known ((sameCleaned old).symm.trans done)
    · exact sound.cleaned other entry there done
  delivered other entry outcome there done := by
    rcases flightAt_patch.mp there with ⟨rfl, old, known, rfl⟩ | ⟨-, there⟩
    · exact delivered old outcome known done
    · exact sound.delivered other entry outcome there done
  running other inside := by
    obtain ⟨entry, there, runs⟩ := sound.running other (fewer.subset inside)
    exact ⟨entry, flightAt_patch.mpr (.inr ⟨fun same => off (same ▸ inside), there⟩), runs⟩
  stacked := sound.stacked.sublist fewer

omit [DecidableEq K] in
theorem Sound.off_stack {service : Service K V E} (sound : service.Sound) {flight : Nat}
    {entry : Flight K V E} (found : service.flightAt flight = some entry) (still : entry.pending ≠ .running) :
    flight ∉ service.stack := by
  intro inside
  obtain ⟨other, there, runs⟩ := sound.running flight inside
  obtain rfl := Option.some.inj (there.symm.trans found)
  exact still runs

omit [DecidableEq K] in
/-- A flight whose `pending` is not settled gets a new state of it. -/
theorem Sound.setPending {service : Service K V E} (sound : service.Sound) {flight : Nat}
    {stack : List Nat} (fewer : stack.Sublist service.stack) (off : flight ∉ stack)
    {entry : Flight K V E} (found : service.flightAt flight = some entry)
    (unsettled : ∀ outcome, entry.pending ≠ .settled outcome) (pending : Progress V E) :
    Sound (({ service with stack } : Service K V E).patch flight
      fun entry => { entry with pending }) := by
  have only : ∀ other, service.flightAt flight = some other → other = entry := fun other there =>
    Option.some.inj (there.symm.trans found)
  refine sound.patch fewer off (fun _ => rfl) (fun _ => rfl) (fun other there done => ?_)
    fun other outcome there done => ?_
  · obtain ⟨outcome, settled⟩ := sound.cleaned flight other there done
    exact absurd (only other there ▸ settled) (unsettled outcome)
  · have settled := sound.delivered flight other outcome there done
    exact absurd (only other there ▸ settled) (unsettled outcome)

/-- A new flight is the one of its key. -/
theorem Sound.launch {service : Service K V E} (sound : service.Sound) {key : K}
    (absent : service.flights key = none) : Sound (service.launch key) where
  registered other flight := by
    rw [flights_launch]
    by_cases same : other = key
    · subst same
      rw [if_pos rfl, Option.some.injEq]
      constructor
      · rintro rfl
        exact ⟨_, flightAt_launch.mpr (.inr ⟨rfl, rfl⟩), rfl, rfl⟩
      · rintro ⟨entry, there, named, first⟩
        rcases flightAt_launch.mp there with known | ⟨new, -⟩
        · have wrong := (sound.registered other flight).mpr ⟨entry, known, named, first⟩
          rw [absent] at wrong
          cases wrong
        · exact new.symm
    · rw [if_neg same, sound.registered other flight]
      constructor
      · rintro ⟨entry, known, named, first⟩
        exact ⟨entry, flightAt_launch.mpr (.inl known), named, first⟩
      · rintro ⟨entry, there, named, first⟩
        rcases flightAt_launch.mp there with known | ⟨-, rfl⟩
        · exact ⟨entry, known, named, first⟩
        · exact absurd named.symm same
  cleaned flight entry there done := by
    rcases flightAt_launch.mp there with known | ⟨-, rfl⟩
    · exact sound.cleaned flight entry known done
    · cases done
  delivered flight entry outcome there done := by
    rcases flightAt_launch.mp there with known | ⟨-, rfl⟩
    · exact sound.delivered flight entry outcome known done
    · cases done
  running flight inside := by
    rcases List.mem_cons.mp inside with rfl | later
    · exact ⟨_, flightAt_launch.mpr (.inr ⟨rfl, rfl⟩), rfl⟩
    · obtain ⟨entry, known, runs⟩ := sound.running flight later
      exact ⟨entry, flightAt_launch.mpr (.inl known), runs⟩
  stacked := by
    refine List.nodup_cons.mpr ⟨fun inside => ?_, sound.stacked⟩
    obtain ⟨entry, known, -⟩ := sound.running _ inside
    exact absurd known (by simp [flightAt])

/-- The reaction of `finally` finds its own flight and removes it. -/
theorem Sound.cleanup {service : Service K V E} (sound : service.Sound) {flight : Nat}
    {entry : Flight K V E} {outcome : Outcome V E} (found : service.flightAt flight = some entry)
    (settled : entry.pending = .settled outcome) (first : entry.cleaned = false) :
    Sound (service.cleanup flight entry.key) := by
  have own := (sound.registered entry.key flight).mpr ⟨entry, found, rfl, first⟩
  have off := sound.off_stack found (by rw [settled]; intro same; cases same)
  refine ⟨fun key other => ?_, fun other entry' there done => ?_, fun other entry' outcome' there done => ?_,
    fun other inside => ?_, sound.stacked⟩
  · rw [flights_cleanup own]
    by_cases same : key = entry.key
    · rw [if_pos same]
      refine iff_of_false (fun wrong => by cases wrong) ?_
      rintro ⟨entry', there, named, first'⟩
      rcases flightAt_patch.mp there with ⟨-, old, -, rfl⟩ | ⟨different, known⟩
      · cases first'
      · have other' := (sound.registered key other).mpr ⟨entry', known, named, first'⟩
        rw [same, own] at other'
        exact different (Option.some.inj other').symm
    · rw [if_neg same, sound.registered key other]
      constructor
      · rintro ⟨entry', known, named, first'⟩
        refine ⟨entry', flightAt_patch.mpr (.inr ⟨?_, known⟩), named, first'⟩
        rintro rfl
        obtain rfl := Option.some.inj (known.symm.trans found)
        exact same named.symm
      · rintro ⟨entry', there, named, first'⟩
        rcases flightAt_patch.mp there with ⟨-, old, -, rfl⟩ | ⟨-, known⟩
        · cases first'
        · exact ⟨entry', known, named, first'⟩
  · rcases flightAt_patch.mp there with ⟨rfl, old, known, rfl⟩ | ⟨-, known⟩
    · obtain rfl := Option.some.inj (known.symm.trans found)
      exact ⟨outcome, settled⟩
    · exact sound.cleaned other entry' known done
  · rcases flightAt_patch.mp there with ⟨rfl, old, known, rfl⟩ | ⟨-, known⟩
    · exact sound.delivered other old outcome' known done
    · exact sound.delivered other entry' outcome' known done
  · obtain ⟨entry', known, runs⟩ := sound.running other inside
    exact ⟨entry', flightAt_patch.mpr (.inr ⟨fun same => off (same ▸ inside), known⟩), runs⟩

/-- Every step keeps the invariant. -/
theorem Sound.step {service next : Service K V E} {action : Action K V E} (sound : service.Sound)
    (stepped : service.step action = some next) : next.Sound := by
  cases effect_of_step stepped with
  | joined _ => exact sound
  | launched absent => exact sound.launch absent
  | @left _ flight stack pending ends shape =>
      obtain ⟨entry, found, runs⟩ := sound.running flight (shape ▸ List.mem_cons_self)
      have stacked := sound.stacked
      rw [shape] at stacked
      refine sound.setPending (shape ▸ List.sublist_cons_self flight stack) (List.nodup_cons.mp stacked).1
        found (fun outcome => ?_) pending
      rw [runs]
      intro same
      cases same
  | @settled flight outcome entry found adopting =>
      have off := sound.off_stack found (by rw [adopting]; intro same; cases same)
      refine sound.setPending (List.Sublist.refl _) off found (fun outcome => ?_) _
      rw [adopting]
      intro same
      cases same
  | cleaned found settled first => exact sound.cleanup found settled first
  | @delivered flight outcome entry found settled cleaned =>
      have off := sound.off_stack found (by rw [settled]; intro same; cases same)
      have only : ∀ other, service.flightAt flight = some other → other = entry := fun other there =>
        Option.some.inj (there.symm.trans found)
      refine sound.patch (List.Sublist.refl _) off (fun _ => rfl) (fun _ => rfl)
        (fun other there _ => ⟨outcome, ?_⟩) fun other outcome' there same => ?_
      · rw [only other there]
        exact settled
      · obtain rfl := Option.some.inj same
        rw [only other there]
        exact settled

theorem sound_of_follow {schedule : List (Action K V E)} :
    ∀ {service final : Service K V E}, service.Sound → service.follow schedule = some final →
      final.Sound := by
  induction schedule with
  | nil =>
      intro service final sound followed
      obtain rfl := Option.some.inj followed
      exact sound
  | cons action rest ih =>
      intro service final sound followed
      obtain ⟨next, stepped, followed⟩ := Option.bind_eq_some_iff.mp followed
      exact ih (sound.step stepped) followed

/-! ## A flight is removed once -/

/-- The map has the flight under its key. -/
def holds (service : Service K V E) (flight : Nat) : Bool :=
  (service.flightAt flight).any fun entry => service.flights entry.key = some flight

def cleanedUp (service : Service K V E) (flight : Nat) : Bool :=
  (service.flightAt flight).any fun entry => entry.cleaned

/-- How often a schedule takes a flight out of the map. -/
def removals (flight : Nat) : Service K V E → List (Action K V E) → Nat
  | _, [] => 0
  | service, action :: rest =>
      match service.step action with
      | none => 0
      | some next =>
          (if service.holds flight && !next.holds flight then 1 else 0) + removals flight next rest

omit [DecidableEq K] in
theorem Sound.holds {service : Service K V E} (sound : service.Sound) (flight : Nat) :
    service.holds flight = (service.flightAt flight).any fun entry => !entry.cleaned := by
  rw [Service.holds]
  cases found : service.flightAt flight with
  | none => rfl
  | some entry =>
      simp only [Option.any_some]
      rw [Bool.eq_iff_iff, decide_eq_true_eq, sound.registered, Bool.not_eq_true']
      constructor
      · rintro ⟨other, known, -, first⟩
        obtain rfl := Option.some.inj (known.symm.trans found)
        exact first
      · exact fun first => ⟨entry, found, rfl, first⟩

omit [DecidableEq K] in
theorem onward_patch {service : Service K V E} {flight other : Nat}
    {change : Flight K V E → Flight K V E} {entry : Flight K V E}
    (found : service.flightAt other = some entry)
    (goes : other = flight → entry.Onward (change entry)) :
    ∃ later, (service.patch flight change).flightAt other = some later ∧ entry.Onward later := by
  by_cases same : other = flight
  · subst same
    exact ⟨change entry, flightAt_patch.mpr (.inl ⟨rfl, entry, found, rfl⟩), goes rfl⟩
  · exact ⟨entry, flightAt_patch.mpr (.inr ⟨same, found⟩), .refl entry⟩

/-- Every flight goes on in every step. -/
theorem onward_step {service next : Service K V E} {action : Action K V E} (sound : service.Sound)
    (stepped : service.step action = some next) {other : Nat} {entry : Flight K V E}
    (found : service.flightAt other = some entry) :
    ∃ later, next.flightAt other = some later ∧ entry.Onward later := by
  cases effect_of_step stepped with
  | joined _ => exact ⟨entry, found, .refl entry⟩
  | launched absent => exact ⟨entry, flightAt_launch.mpr (.inl found), .refl entry⟩
  | @left _ flight stack pending ends shape =>
      refine @onward_patch _ _ _ { service with stack } flight other _ entry found fun same => ?_
      obtain ⟨entry', known, runs⟩ := sound.running flight (shape ▸ List.mem_cons_self)
      obtain rfl := Option.some.inj (known.symm.trans (same ▸ found))
      refine ⟨rfl, id, fun outcome settled => ?_, fun _ => id⟩
      rw [runs] at settled
      cases settled
  | @settled flight outcome entry' known adopting =>
      refine onward_patch found fun same => ?_
      obtain rfl := Option.some.inj (known.symm.trans (same ▸ found))
      refine ⟨rfl, id, fun outcome settled => ?_, fun _ => id⟩
      rw [adopting] at settled
      cases settled
  | cleaned known settled first =>
      exact onward_patch found fun _ => ⟨rfl, fun _ => rfl, fun _ => id, fun _ => id⟩
  | @delivered flight outcome entry' known settled cleaned =>
      refine onward_patch found fun same => ⟨rfl, id, fun _ => id, fun outcome' before => ?_⟩
      obtain rfl := Option.some.inj (known.symm.trans (same ▸ found))
      have settled' := sound.delivered other entry' outcome' (same ▸ known) before
      rw [settled] at settled'
      cases settled'
      rfl

/-- A flight that a step begins was not cleaned up. -/
theorem fresh_step {service next : Service K V E} {action : Action K V E}
    (stepped : service.step action = some next) {other : Nat} {later : Flight K V E}
    (absent : service.flightAt other = none) (found : next.flightAt other = some later) :
    later.cleaned = false := by
  have patched : ∀ {before : Service K V E} {flight change}, before.flightAt other = none →
      (before.patch flight change).flightAt other ≠ some later := by
    intro before flight change none_ there
    rcases flightAt_patch.mp there with ⟨rfl, old, known, -⟩ | ⟨-, known⟩
    · rw [none_] at known
      cases known
    · rw [none_] at known
      cases known
  cases effect_of_step stepped with
  | joined _ => rw [absent] at found; cases found
  | launched _ =>
      rcases flightAt_launch.mp found with known | ⟨-, rfl⟩
      · rw [absent] at known
        cases known
      · rfl
  | @left _ flight stack pending ends shape => exact absurd found (@patched { service with stack } _ _ absent)
  | settled _ _ => exact absurd found (patched absent)
  | cleaned _ _ _ => exact absurd found (patched absent)
  | delivered _ _ _ => exact absurd found (patched absent)

theorem removal_step {service next : Service K V E} {action : Action K V E} (sound : service.Sound)
    (stepped : service.step action = some next) (flight : Nat) :
    (if service.holds flight && !next.holds flight then 1 else 0) +
      (if service.cleanedUp flight then 1 else 0) = if next.cleanedUp flight then 1 else 0 := by
  rw [sound.holds, (sound.step stepped).holds]
  unfold cleanedUp
  rcases found : service.flightAt flight with _ | entry
  · rcases found' : next.flightAt flight with _ | later
    · rfl
    · simp [fresh_step stepped found found']
  · obtain ⟨later, found', onward⟩ := onward_step sound stepped found
    simp only [found', Option.any_some]
    by_cases done : entry.cleaned = true
    · simp [done, onward.cleaned done]
    · by_cases done' : later.cleaned = true <;> simp [done, done']

theorem removals_eq (flight : Nat) {schedule : List (Action K V E)} :
    ∀ {service final : Service K V E}, service.Sound → service.follow schedule = some final →
      removals flight service schedule + (if service.cleanedUp flight then 1 else 0) =
        if final.cleanedUp flight then 1 else 0 := by
  induction schedule with
  | nil =>
      intro service final _ followed
      obtain rfl := Option.some.inj followed
      rw [removals, Nat.zero_add]
  | cons action rest ih =>
      intro service final sound followed
      obtain ⟨next, stepped, followed⟩ := Option.bind_eq_some_iff.mp followed
      have later := ih (sound.step stepped) followed
      have now := removal_step sound stepped flight
      rw [removals, stepped]
      simp only
      omega

theorem onward_follow {schedule : List (Action K V E)} :
    ∀ {service final : Service K V E} {flight : Nat} {entry : Flight K V E}, service.Sound →
      service.follow schedule = some final → service.flightAt flight = some entry →
      ∃ later, final.flightAt flight = some later ∧ entry.Onward later := by
  induction schedule with
  | nil =>
      intro service final flight entry _ followed found
      obtain rfl := Option.some.inj followed
      exact ⟨entry, found, .refl entry⟩
  | cons action rest ih =>
      intro service final flight entry sound followed found
      obtain ⟨next, stepped, followed⟩ := Option.bind_eq_some_iff.mp followed
      obtain ⟨middle, between, onward⟩ := onward_step sound stepped found
      obtain ⟨later, there, onward'⟩ := ih (sound.step stepped) followed between
      exact ⟨later, there, onward.trans onward'⟩

/-! ## Keys do not meet -/

/-- The key of the flight that an action is about. -/
def keyOf (service : Service K V E) : Action K V E → Option K
  | .call key => some key
  | .returns _ | .adopts | .throws _ =>
      service.stack.head?.bind fun flight => (service.flightAt flight).map Flight.key
  | .settles flight _ | .cleanup flight | .delivers flight => (service.flightAt flight).map Flight.key

/-- What there is of a key: its entry in the map and its flights. -/
def view (service : Service K V E) (key : K) : Option Nat × (Nat → Option (Flight K V E)) :=
  (service.flights key, fun flight => (service.flightAt flight).filter fun entry => entry.key = key)

theorem view_patch {service : Service K V E} {flight : Nat} {change : Flight K V E → Flight K V E}
    {entry : Flight K V E} (found : service.flightAt flight = some entry)
    (sameKey : (change entry).key = entry.key) {key : K} (other : entry.key ≠ key) :
    (service.patch flight change).view key = service.view key := by
  refine Prod.ext rfl (funext fun place => Option.ext fun seen => ?_)
  simp only [view, Option.filter_eq_some_iff, decide_eq_true_eq]
  constructor
  · rintro ⟨there, named⟩
    rcases flightAt_patch.mp there with ⟨rfl, old, known, rfl⟩ | ⟨-, known⟩
    · obtain rfl := Option.some.inj (known.symm.trans found)
      exact absurd (sameKey.symm.trans named) other
    · exact ⟨known, named⟩
  · rintro ⟨known, named⟩
    refine ⟨flightAt_patch.mpr (.inr ⟨?_, known⟩), named⟩
    rintro rfl
    obtain rfl := Option.some.inj (known.symm.trans found)
    exact other named

/-- A step about one key leaves what there is of the others. -/
theorem view_step {service next : Service K V E} {action : Action K V E} (sound : service.Sound)
    (stepped : service.step action = some next) {key : K} (other : service.keyOf action ≠ some key) :
    next.view key = service.view key := by
  cases effect_of_step stepped with
  | joined _ => rfl
  | @launched called absent =>
      have different : key ≠ called := fun same => other (congrArg some same.symm)
      refine Prod.ext ((flights_launch ..).trans (if_neg different))
        (funext fun place => Option.ext fun seen => ?_)
      simp only [view, Option.filter_eq_some_iff, decide_eq_true_eq, flightAt_launch]
      constructor
      · rintro ⟨known | ⟨-, rfl⟩, named⟩
        · exact ⟨known, named⟩
        · exact absurd named.symm different
      · exact fun ⟨known, named⟩ => ⟨.inl known, named⟩
  | @left _ flight stack pending ends shape =>
      obtain ⟨entry, found, -⟩ := sound.running flight (shape ▸ List.mem_cons_self)
      have named : service.keyOf action = some entry.key := by
        cases action <;> simp_all [keyOf, Action.isEnd]
      rw [named] at other
      exact @view_patch _ _ _ _ { service with stack } flight _ entry found rfl key fun same =>
        other (congrArg some same)
  | @settled flight outcome entry found _ =>
      rw [keyOf, found] at other
      exact view_patch found rfl fun same => other (congrArg some same)
  | @cleaned flight outcome entry found settled first =>
      rw [keyOf, found] at other
      have different : key ≠ entry.key := fun same => other (congrArg some same.symm)
      have own := (sound.registered _ flight).mpr ⟨entry, found, rfl, first⟩
      refine Prod.ext ((flights_cleanup own key).trans (if_neg different)) ?_
      have same := @view_patch _ _ _ _ service flight (fun entry => { entry with cleaned := true }) entry
        found rfl key different.symm
      exact (congrArg Prod.snd same :)
  | @delivered flight outcome entry found _ _ =>
      rw [keyOf, found] at other
      exact view_patch found rfl fun same => other (congrArg some same)

/-! ## Exactness -/

/-- A factory of the key was invoked and its outcome is open. -/
def PendingFor (service : Service K V E) (key : K) (flight : Nat) : Prop :=
  ∃ entry, service.flightAt flight = some entry ∧ entry.key = key ∧
    ∀ outcome, entry.pending ≠ .settled outcome

/-- What holds after a schedule. -/
structure Exact (past : List (Action K V E)) (service : Service K V E) : Prop where
  /-- A key has at most one pending invocation. -/
  unique : ∀ key flight other, service.PendingFor key flight → service.PendingFor key other →
    flight = other
  /-- A call made meanwhile gets that flight and changes nothing. -/
  shared : ∀ key flight, service.PendingFor key flight → service.run key = (⟨flight, false⟩, service)
  /-- Callers get the outcome of the invocation, for good. -/
  outcome : ∀ flight entry outcome, service.flightAt flight = some entry →
    entry.outcome = some outcome → entry.pending = .settled outcome
  lasting : ∀ schedule final flight entry, service.follow schedule = some final →
    service.flightAt flight = some entry → ∃ later, final.flightAt flight = some later ∧ entry.Onward later
  /-- A call made when the flights of the key are removed invokes its own factory. -/
  renewed : ∀ key, (∀ flight entry, service.flightAt flight = some entry → entry.key = key →
      entry.cleaned = true) →
    service.run key = (⟨service.begun.length, true⟩, service.launch key) ∧
      (service.launch key).PendingFor key service.begun.length
  /-- A settled flight is removed as soon as its reaction runs, once, and nothing else is. -/
  removable : ∀ flight entry outcome, service.flightAt flight = some entry →
    entry.pending = .settled outcome → entry.cleaned = false → service.stack = [] →
    (service.step (.cleanup flight)).isSome = true
  once : ∀ flight, removals flight start past = if service.cleanedUp flight then 1 else 0
  own : ∀ flight next, service.step (.cleanup flight) = some next → ∃ entry,
    service.flightAt flight = some entry ∧ service.flights entry.key = some flight ∧
      ∀ key, next.flights key = if key = entry.key then none else service.flights key
  /-- Flights of other keys do not notice. -/
  apart : ∀ action next key, service.step action = some next → service.keyOf action ≠ some key →
    next.view key = service.view key

omit [DecidableEq K] in
/-- A pending flight is registered. -/
theorem Sound.flights_of_pending {service : Service K V E} (sound : service.Sound) {key : K}
    {flight : Nat} (pending : service.PendingFor key flight) : service.flights key = some flight := by
  obtain ⟨entry, found, named, unsettled⟩ := pending
  refine (sound.registered key flight).mpr ⟨entry, found, named, ?_⟩
  by_contra done
  obtain ⟨outcome, settled⟩ := sound.cleaned flight entry found (by simpa using done)
  exact unsettled outcome settled

/-- **Single-flight sharing is exact**, after every schedule. -/
theorem single_flight_exact {past : List (Action K V E)} {service : Service K V E}
    (followed : start.follow past = some service) : Exact past service := by
  have sound := sound_of_follow sound_start followed
  refine ⟨fun key flight other pending pending' => ?_, fun key flight pending => ?_, sound.delivered,
    fun schedule final flight entry => onward_follow sound, fun key removed => ?_,
    fun flight entry outcome found settled first idle => ?_, fun flight => ?_,
    fun flight next stepped => ?_, fun action next key stepped other => view_step sound stepped other⟩
  · have same := (sound.flights_of_pending pending).symm.trans (sound.flights_of_pending pending')
    exact Option.some.inj same
  · rw [run, sound.flights_of_pending pending]
  · have absent : service.flights key = none := by
      cases found : service.flights key with
      | none => rfl
      | some flight =>
          obtain ⟨entry, known, named, first⟩ := (sound.registered key flight).mp found
          rw [removed flight entry known named] at first
          cases first
    refine ⟨by rw [run, absent], _, flightAt_launch.mpr (.inr ⟨rfl, rfl⟩), rfl, fun outcome same => ?_⟩
    cases same
  · obtain ⟨key, pending, cleaned, outcome'⟩ := entry
    obtain rfl : pending = .settled outcome := settled
    obtain rfl : cleaned = false := first
    rw [step, show service.begun[flight]? = some _ from found, idle]
    rfl
  · have count := removals_eq flight sound_start followed
    rw [← count]
    rfl
  · cases effect_of_step stepped with
    | cleaned found settled first =>
        have own := (sound.registered _ flight).mpr ⟨_, found, rfl, first⟩
        exact ⟨_, found, own, flights_cleanup own⟩
    | left ends _ => cases ends

/-- A nested call joins, the next one begins a flight of its own. -/
def smallSchedule : List (Action Nat Nat Nat) :=
  [.call 7, .call 7, .returns 3, .cleanup 0, .call 7, .throws 4, .delivers 0, .cleanup 1]

theorem first_flight_removed_once : removals 0 start smallSchedule = 1 := by
  obtain ⟨service, followed, cleaned⟩ : ∃ service, start.follow smallSchedule = some service ∧
    service.cleanedUp 0 = true := ⟨_, rfl, rfl⟩
  rw [(single_flight_exact followed).once 0, if_pos cleaned]

end

end Service

end SdcoreNest.Utils
