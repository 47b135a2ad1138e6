/-
# JobScheduler.LiveLease -- when a live lease cannot be taken over

Whether a running row may be reclaimed is decided by the caller that wants it, with the lease
of its own options; the lease the owner acquired under is not stored.  A run in which every
node that reclaims a key brings a lease at least as long as the owner's never takes over a
live lease; two nodes with different leases can.
-/
import SdcoreNest.JobScheduler.Exclusivity

namespace SdcoreNest.JobScheduler

open SdcoreNest.Theory SdcoreNest.Theory.Machine

set_option autoImplicit false

/-- The event refreshed the lease of the key. -/
def refreshes (lockKey : JsString) (event : JobsEvent) : Bool :=
  match event.act.performed with
  | some (_, .updateOwned lease .modifiedAt) =>
      (World.table event.before).rows.any fun row =>
        decide (row.lockKey = lockKey) && lease.owns row
  | _ => false

/-- The moment at which an event acquired the key or refreshed its lease. -/
def touchOf (lockKey : JsString) (event : JobsEvent) : Option Int :=
  if ((acquisitionOf event).any fun acquisition => decide (acquisition.lockKey = lockKey)) ||
    refreshes lockKey event
  then some (World.clock event.before) else none

/-- When the owner touched the key last. -/
def lastTouch (lockKey : JsString) (history : List JobsEvent) : Option Int :=
  history.findSome? (touchOf lockKey)

/-- The event takes over a running row that its owner, who acquired under the lease
`previous.leaseMs`, touched less than that lease ago. -/
def Steals (event : JobsEvent) (older : List JobsEvent) (previous next : Acquisition) : Prop :=
  acquisitionOf event = some next ∧ lastAcquisition next.lockKey older = some previous ∧
    (∃ row ∈ World.table event.before, row.lockKey = next.lockKey ∧ row.status = .running) ∧
    ∃ touched, lastTouch next.lockKey older = some touched ∧
      World.clock event.before - touched < previous.leaseMs * 1000

/-- If the act reclaims, then under a lease at least as long as the one that the key was
acquired under last. -/
def Heeds (older : List JobsEvent) (act : Act machine) : Prop :=
  ∀ worker lockKey ownerToken leaseMs,
    act.performed = some (worker, .reclaim lockKey ownerToken leaseMs) →
    ∀ previous, lastAcquisition lockKey older = some previous → previous.leaseMs ≤ leaseMs

/-- The run condition. -/
def Considerate (core : JobsCore) (act : Act machine) : Prop := Heeds core.history act

/-! ## Touches -/

/-- A running row shows when it was touched last. -/
def Touched (world : World) (history : List JobsEvent) : Prop :=
  ∀ row ∈ world.table, row.status = .running →
    lastTouch row.lockKey history = some row.modifiedAt

section Touches

variable {lockKey : JsString} {event : JobsEvent} {history : List JobsEvent}

theorem lastTouch_cons_of_some {moment : Int} (touched : touchOf lockKey event = some moment) :
    lastTouch lockKey (event :: history) = some moment := by
  simp [lastTouch, touched]

theorem lastTouch_cons_of_none (untouched : touchOf lockKey event = none) :
    lastTouch lockKey (event :: history) = lastTouch lockKey history := by
  simp [lastTouch, untouched]

theorem touchOf_of_acquires {acquisition : Acquisition}
    (acquired : acquisitionOf event = some acquisition) :
    touchOf acquisition.lockKey event = some (World.clock event.before) := by
  simp [touchOf, acquired]

theorem lastTouch_cons_of_acquires {acquisition : Acquisition}
    (acquired : acquisitionOf event = some acquisition) :
    lastTouch acquisition.lockKey (event :: history) = some (World.clock event.before) :=
  lastTouch_cons_of_some (touchOf_of_acquires acquired)

theorem touchOf_of_refreshes (refreshed : refreshes lockKey event = true) :
    touchOf lockKey event = some (World.clock event.before) := by
  simp [touchOf, refreshed]

theorem touchOf_eq_none
    (other : ∀ acquisition, acquisitionOf event = some acquisition →
      acquisition.lockKey ≠ lockKey)
    (unrefreshed : refreshes lockKey event = false) : touchOf lockKey event = none := by
  unfold touchOf
  rw [unrefreshed, Bool.or_false, if_neg]
  cases acquired : acquisitionOf event with
  | none => simp
  | some acquisition => simp [other acquisition acquired]

theorem refreshes_eq_true :
    refreshes lockKey event = true ↔ ∃ lease, Updates event lockKey lease .modifiedAt := by
  unfold refreshes Updates
  split
  · rename_i worker lease performed
    simp only [List.any_eq_true, Bool.and_eq_true, decide_eq_true_eq, performed]
    constructor
    · rintro ⟨row, member, key, owns⟩
      exact ⟨lease, worker, row, rfl, member, key, owns⟩
    · rintro ⟨lease', worker', row, same, member, key, owns⟩
      cases same
      exact ⟨row, member, key, owns⟩
  · rename_i other
    simp only [Bool.false_eq_true, false_iff]
    rintro ⟨lease, worker, row, performed, -⟩
    exact other worker lease performed

end Touches

section Step

variable {ok : JobsCore → Act machine → Prop} {core core' : JobsCore} {act : Act machine}

theorem Touched.admits (touched : Touched core.world core.history)
    (admitted : Core.Admits conduct ok core act core') : Touched core'.world core'.history := by
  intro row member running
  rw [admitted.history]
  rcases rows_of_admits admitted member with ⟨idle, there⟩ | ⟨worker, call, performed, there⟩
  · rw [lastTouch_cons_of_none]
    · exact touched row there running
    · refine touchOf_eq_none (fun acquisition acquired => ?_) (Bool.eq_false_iff.mpr ?_)
      · rw [acquisitionOf_of_idle idle] at acquired
        cases acquired
      · rw [ne_eq, refreshes_eq_true]
        rintro ⟨lease, worker, -, performed, -⟩
        rw [idle] at performed
        cases performed
  · have read : acquisitionOf ⟨act, core.world⟩ = World.acquisition core.world worker call :=
      acquisitionOf_of_performed performed
    rcases World.exec_cases there with ⟨old, other, unowned⟩ | ⟨leaseMs, acquired, -, moment⟩ |
      ⟨lease, set, old, there', rfl, owns, rfl⟩
    · rw [lastTouch_cons_of_none]
      · exact touched row old running
      · refine touchOf_eq_none (fun acquisition acquired => other acquisition (read ▸ acquired))
          (Bool.eq_false_iff.mpr ?_)
        rw [ne_eq, refreshes_eq_true]
        rintro ⟨lease, worker', row', performed', there', key, owns⟩
        rw [performed] at performed'
        cases performed'
        rw [Table.eq_of_lockKey there' old key, unowned lease .modifiedAt rfl] at owns
        cases owns
    · rw [moment]
      exact lastTouch_cons_of_acquires (read.trans acquired)
    · cases set with
      | success data => cases running
      | fail data => cases running
      | modifiedAt =>
          refine lastTouch_cons_of_some (touchOf_of_refreshes (refreshes_eq_true.mpr ?_))
          exact ⟨lease, worker, old, performed, there', rfl, owns⟩

end Step

theorem touched_of_reachable {digest : JsString → JsString}
    {ok : JobsCore → Act machine → Prop} {time : Int} {state : JobsConfig}
    (reached : ReachableIf digest ok time state) :
    Touched state.core.world state.core.history := by
  have keeps : Keeps conduct ok fun core => Touched core.world core.history :=
    ⟨fun touched admitted => touched.admits admitted, fun _ _ _ => trivial⟩
  have start : Touched (World.initial time) [] :=
    fun _ member => absurd member (Table.not_mem_empty _)
  exact (Reach.keeps keeps (launch_conducted digest) start reached).inv

/-! ## Considerate runs -/

structure Heeded (core : JobsCore) : Prop where
  touched : Touched core.world core.history
  before : ∀ event older, event :: older <:+ core.history →
    Touched event.before older ∧ Heeds older event.act

theorem heeded_keeps : Keeps conduct Considerate Heeded where
  credible _ _ _ := trivial
  admits heeded admitted := by
    refine ⟨heeded.touched.admits admitted, fun event older suffix => ?_⟩
    rw [admitted.history] at suffix
    rcases List.suffix_cons_iff.mp suffix with whole | inside
    · cases whole
      exact ⟨heeded.touched, admitted.met⟩
    · exact heeded.before event older inside

theorem heeded_initial (time : Int) : Heeded (⟨World.initial time, [], []⟩ : JobsCore) where
  touched _ member := absurd member (Table.not_mem_empty _)
  before _ _ suffix := absurd suffix (by simp)

/-- An acquisition found the row untouched for longer than its own lease; the owner's is no
longer than that. -/
theorem not_steals {event : JobsEvent} {older : List JobsEvent} {previous next : Acquisition}
    (touched : Touched event.before older) (heeds : Heeds older event.act) :
    ¬ Steals event older previous next := by
  rintro ⟨acquired, last, ⟨row, member, key, running⟩, moment, lastly, live⟩
  have touchedAt := touched row member running
  rw [key, lastly] at touchedAt
  cases touchedAt
  have stale : row.modifiedAt < World.clock event.before - next.leaseMs * 1000 := by
    rcases free_of_acquisition acquired row member key with failed | ⟨-, stale⟩
    · rw [running] at failed
      cases failed
    · exact stale
  have longer : previous.leaseMs ≤ next.leaseMs := by
    cases performed : event.act.performed with
    | none =>
        rw [acquisitionOf_of_idle performed] at acquired
        cases acquired
    | some done =>
        obtain ⟨worker, call⟩ := done
        rw [acquisitionOf_of_performed performed] at acquired
        cases call with
        | randomUUID => cases acquired
        | updateOwned lease set => cases acquired
        | insertIgnore values leaseMs =>
            simp only [World.acquisition] at acquired
            split at acquired
            · rename_i inserted
              cases acquired
              obtain ⟨table, inserted⟩ := Option.isSome_iff_exists.mp inserted
              exact absurd key ((Table.mem_insertIgnore inserted).1 row member)
            · cases acquired
        | reclaim lockKey ownerToken leaseMs =>
            simp only [World.acquisition] at acquired
            split at acquired
            · cases acquired
              exact heeds worker lockKey ownerToken leaseMs performed previous last
            · cases acquired
  omega

/-! ## Two leases for one key -/

section TwoLeases

variable {digest : JsString → JsString} {opts : JobAcquireOptions} {timing : LeaseTiming}
  {identity : JobIdentity}

/-- The calls of `acquire` once its options are accepted. -/
theorem acquire_shape (timed : resolveLeaseTiming opts = .ok timing)
    (identified : resolveIdentity digest opts = .ok identity) :
    ∃ next, launch digest (.acquire opts) = .ask .randomUUID next ∧ ∀ token : Uuid,
      ∃ next', next (some token) = .ask (.insertIgnore
        ⟨identity.lockKey, identity.code, opts.name, identity.type, token⟩ timing.leaseMs) next' ∧
        ∃ next'', next' (some none) =
          .ask (.reclaim identity.lockKey token timing.leaseMs) next'' := by
  simp only [launch, replying, acquire, timed, identified]
  exact ⟨_, rfl, fun token => ⟨_, rfl, _, rfl⟩⟩

/-- One node acquires; when `microseconds` have passed a second one, with options for the same
key, has found it taken and is about to reclaim it. -/
theorem reach_second_acquire (time : Int) (microseconds : Nat)
    {opts' : JobAcquireOptions} {timing' : LeaseTiming} {identity' : JobIdentity}
    (timed : resolveLeaseTiming opts = .ok timing)
    (identified : resolveIdentity digest opts = .ok identity)
    (timed' : resolveLeaseTiming opts' = .ok timing')
    (identified' : resolveIdentity digest opts' = .ok identity')
    (same : identity.lockKey = identity'.lockKey) :
    ∃ state, Reachable digest time state ∧
      (∃ next, state.threads 1 = some ⟨⟨1, 1⟩, .acquire opts',
        .ask (.reclaim identity'.lockKey 1 timing'.leaseMs) next⟩) ∧
      (∃ row ∈ World.table state.core.world, row.lockKey = identity'.lockKey ∧
        row.status = .running ∧ row.modifiedAt = time) ∧
      World.clock state.core.world = time + microseconds ∧
      lastAcquisition identity'.lockKey state.core.history =
        some ⟨⟨0, 0⟩, identity'.lockKey, 0, timing.leaseMs⟩ := by
  obtain ⟨next, asks, inserts⟩ := acquire_shape timed identified
  obtain ⟨insert, inserts, -⟩ := inserts 0
  obtain ⟨next', asks', inserts'⟩ := acquire_shape timed' identified'
  obtain ⟨insert', inserts', reclaim', reclaims'⟩ := inserts' 1
  let values : Values :=
    ⟨identity.lockKey, identity.code, opts.name, identity.type, 0⟩
  let values' : Values :=
    ⟨identity'.lockKey, identity'.code, opts'.name, identity'.type, 1⟩
  obtain ⟨table, inserted, inside⟩ :=
    Table.insertIgnore_empty (World.newRow ⟨time, .empty, 0, 1⟩ values)
  have conflict : table.insertIgnore
      (World.newRow ⟨time + microseconds, table, 1, 2⟩ values') = none :=
    Table.insertIgnore_of_taken inside same
  -- the first node mints its token and inserts the row
  obtain ⟨c1, r1, core1, size1, t1⟩ :=
    (Reach.start : Reachable digest time _).spawn 0 (.acquire opts)
  rw [asks] at t1
  obtain ⟨c2, r2, core2, size2, t2⟩ := r1.answer t1 trivial
  have world2 : c2.core.world = (⟨time, .empty, 0, 1⟩ : World) := by
    rw [core2, core1]
    rfl
  rw [core1] at t2
  replace t2 : c2.threads 0 = some ⟨⟨0, 0⟩, .acquire opts,
      .ask (.insertIgnore values timing.leaseMs) insert⟩ := t2.trans (by rw [← inserts]; rfl)
  obtain ⟨c3, r3, core3, size3, -⟩ := r2.answer t2 trivial
  have world3 : c3.core.world = (⟨time, table, 1, 1⟩ : World) := by
    rw [core3]
    show (World.exec c2.core.world ⟨0, 0⟩ (.insertIgnore values timing.leaseMs)).2 = _
    rw [world2]
    simp only [World.exec, inserted]
  -- time passes
  obtain ⟨c4, r4, core4, size4⟩ := r3.move
    (rfl : machine.move c3.core.world microseconds = some (World.tick c3.core.world microseconds))
    trivial
  have world4 : c4.core.world = (⟨time + microseconds, table, 1, 1⟩ : World) := by
    rw [core4]
    show World.tick c3.core.world microseconds = _
    rw [world3]
    rfl
  -- the second node mints its token and finds the key taken
  have size : c4.size = 1 := by rw [size4, size3, size2, size1]; rfl
  obtain ⟨c5, r5, core5, -, t5⟩ := r4.spawn 1 (.acquire opts')
  rw [asks', size] at t5
  obtain ⟨c6, r6, core6, -, t6⟩ := r5.answer t5 trivial
  have world6 : c6.core.world = (⟨time + microseconds, table, 1, 2⟩ : World) := by
    rw [core6]
    show (World.exec c5.core.world ⟨1, 1⟩ .randomUUID).2 = _
    rw [core5, world4]
    rfl
  replace t6 : c6.threads 1 = some ⟨⟨1, 1⟩, .acquire opts',
      .ask (.insertIgnore values' timing'.leaseMs) insert'⟩ := by
    rw [t6, ← inserts', core5, world4]
    rfl
  obtain ⟨c7, r7, core7, -, t7⟩ := r6.answer t6 trivial
  have missed : World.exec c6.core.world ⟨1, 1⟩ (.insertIgnore values' timing'.leaseMs) =
      (none, (⟨time + microseconds, table, 1, 2⟩ : World)) := by
    rw [world6]
    simp only [World.exec, conflict]
  have world7 : c7.core.world = (⟨time + microseconds, table, 1, 2⟩ : World) := by
    rw [core7]
    exact congrArg Prod.snd missed
  refine ⟨c7, r7, ⟨reclaim', ?_⟩, ⟨World.newRow ⟨time, .empty, 0, 1⟩ values, ?_, same, rfl, rfl⟩,
    ?_, ?_⟩
  · rw [t7, ← reclaims']
    exact congrArg (fun answer => some (Thread.mk _ _ (insert' (some answer))))
      (congrArg Prod.fst missed)
  · rw [world7]
    exact inside
  · rw [world7]
  · have history : c7.core.history =
        [⟨.issue .answer ⟨1, 1⟩ (.insertIgnore values' timing'.leaseMs), c6.core.world⟩,
          ⟨.issue .answer ⟨1, 1⟩ .randomUUID, c5.core.world⟩,
          ⟨.move microseconds, c3.core.world⟩,
          ⟨.issue .answer ⟨0, 0⟩ (.insertIgnore values timing.leaseMs), c2.core.world⟩,
          ⟨.issue .answer ⟨0, 0⟩ .randomUUID, c1.core.world⟩] := by
      rw [core7]
      simp only [Core.issue, core6, core5, core4, Core.move, core3, core2, core1]
      rfl
    have missed' : acquisitionOf
        ⟨.issue .answer ⟨1, 1⟩ (.insertIgnore values' timing'.leaseMs), c6.core.world⟩ = none := by
      rw [acquisitionOf_of_performed rfl, world6]
      simp [World.acquisition, conflict]
    have acquired : acquisitionOf
        ⟨.issue .answer ⟨0, 0⟩ (.insertIgnore values timing.leaseMs), c2.core.world⟩ =
          some ⟨⟨0, 0⟩, identity.lockKey, 0, timing.leaseMs⟩ := by
      rw [acquisitionOf_of_performed rfl, world2]
      simp [World.acquisition, inserted, values]
    rw [history, ← same, lastAcquisition_cons_of_not_acquires (by simp [missed']),
      lastAcquisition_cons_of_not_acquires (fun _ none => by cases none),
      lastAcquisition_cons_of_not_acquires (fun _ none => by cases none)]
    exact lastAcquisition_cons_of_acquires acquired

end TwoLeases

/-- A node that brings a shorter lease takes over a live lease. -/
theorem reach_steal {digest : JsString → JsString} (time : Int)
    {opts opts' : JobAcquireOptions} {timing timing' : LeaseTiming}
    {identity identity' : JobIdentity}
    (timed : resolveLeaseTiming opts = .ok timing)
    (identified : resolveIdentity digest opts = .ok identity)
    (timed' : resolveLeaseTiming opts' = .ok timing')
    (identified' : resolveIdentity digest opts' = .ok identity')
    (same : identity.lockKey = identity'.lockKey) (shorter : timing'.leaseMs < timing.leaseMs) :
    ∃ state, Reachable digest time state ∧
      ∃ event older, event :: older <:+ state.core.history ∧
        ∃ previous next, Steals event older previous next ∧
          previous.leaseMs = timing.leaseMs ∧ next.leaseMs = timing'.leaseMs := by
  obtain ⟨state, reached, ⟨next, waits⟩, ⟨row, member, key, running, modified⟩, clock, last⟩ :=
    reach_second_acquire time (timing'.leaseMs * 1000 + 1) timed identified timed' identified' same
  have touched := touched_of_reachable reached
  obtain ⟨state', reached', core', -, -⟩ := reached.answer waits trivial
  have stale : World.reclaimable state.core.world identity'.lockKey timing'.leaseMs row = true := by
    refine World.reclaimable_eq_true.mpr ⟨key, .inr ⟨running, ?_⟩⟩
    rw [modified, clock]
    omega
  refine ⟨state', reached', _, _, by rw [core']; exact List.suffix_refl _, _,
    ⟨⟨1, 1⟩, identity'.lockKey, 1, timing'.leaseMs⟩, ⟨?_, last, ⟨row, member, key, running⟩,
      time, ?_, ?_⟩, rfl, rfl⟩
  · rw [acquisitionOf_of_performed rfl]
    exact if_pos (List.any_eq_true.mpr ⟨row, member, stale⟩)
  · have lastly := touched row member running
    rwa [key, modified] at lastly
  · show World.clock state.core.world - time < timing.leaseMs * 1000
    rw [clock]
    omega

/-- Live leases: no **considerate** run takes one over, and under any two leases for one key
the shorter takes over the longer. -/
theorem live_lease_not_stolen (digest : JsString → JsString) (time : Int) :
    (∀ state, ReachableIf digest Considerate time state →
      ∀ event older, event :: older <:+ state.core.history →
        ∀ previous next, ¬ Steals event older previous next) ∧
    ∀ opts opts' timing timing' identity identity',
      resolveLeaseTiming opts = .ok timing → resolveIdentity digest opts = .ok identity →
      resolveLeaseTiming opts' = .ok timing' → resolveIdentity digest opts' = .ok identity' →
      identity.lockKey = identity'.lockKey → timing'.leaseMs < timing.leaseMs →
      ∃ state, Reachable digest time state ∧
        ∃ event older, event :: older <:+ state.core.history ∧
          ∃ previous next, Steals event older previous next ∧
            previous.leaseMs = timing.leaseMs ∧ next.leaseMs = timing'.leaseMs := by
  constructor
  · intro state reached event older suffix previous next
    have maintained :=
      Reach.keeps heeded_keeps (launch_conducted digest) (heeded_initial time) reached
    obtain ⟨touched, heeds⟩ := maintained.inv.before event older suffix
    exact not_steals touched heeds
  · intro opts opts' timing timing' identity identity' timed identified timed' identified'
    exact reach_steal time timed identified timed' identified'

/-- The owner acquired for 15 minutes; 3 milliseconds later a node that gives 3 milliseconds
takes the lock. -/
theorem three_millisecond_lease_steals :
    ∃ state, Reachable id 0 state ∧ ∃ event older, event :: older <:+ state.core.history ∧
      ∃ previous next, Steals event older previous next ∧
        previous.leaseMs = 900000 ∧ next.leaseMs = 3 := by
  have timed : resolveLeaseTiming smallOptions = .ok ⟨60000, 900000⟩ := by decide +kernel
  have timed' : resolveLeaseTiming { smallOptions with leaseMs := .integer 3 } = .ok ⟨1, 3⟩ := by
    decide +kernel
  obtain ⟨identity, identified⟩ : ∃ identity, resolveIdentity id smallOptions = .ok identity :=
    ⟨_, rfl⟩
  have identified' : resolveIdentity id { smallOptions with leaseMs := .integer 3 } = .ok identity :=
    identified
  exact reach_steal 0 timed identified timed' identified' rfl (by decide)

end SdcoreNest.JobScheduler
