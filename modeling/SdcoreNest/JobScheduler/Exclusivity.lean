/-
# JobScheduler.Exclusivity -- what the lock guarantees over whole runs

`LockDiscipline` collects the guarantees, in every state that any schedule of any number of
nodes reaches, with statements whose answer is lost or that take effect late.
-/
import SdcoreNest.JobScheduler.Fencing

namespace SdcoreNest.JobScheduler

open SdcoreNest.Theory SdcoreNest.Theory.Machine

set_option autoImplicit false

/-- No UPDATE under this lease finds a row, and none changes anything. -/
def FencedOff (world : World) (lease : JobLease) : Prop :=
  ∀ worker set, world.exec worker (.updateOwned lease set) = ((0 : Nat), world)

/-- The lease names a running row, and its token is the last that acquired the row. -/
def LastOwner (world : World) (history : List JobsEvent) (lease : JobLease) : Prop :=
  ∃ row ∈ world.table, row.id = lease.id ∧ row.status = .running ∧
    ∃ acquisition, lastAcquisition row.lockKey history = some acquisition ∧
      acquisition.ownerToken = lease.ownerToken

/-- No row holds the key against an acquisition under the lease given. -/
def Free (world : World) (lockKey : JsString) (leaseMs : Nat) : Prop :=
  ∀ row ∈ world.table, row.lockKey = lockKey → row.status = .fail ∨
    (row.status = .running ∧ row.modifiedAt < world.clock - leaseMs * 1000)

structure LockDiscipline (digest : JsString → JsString) (state : JobsConfig) : Prop where
  /-- Only the token that acquired a row last can change it, and only while it is running. -/
  fenced : ∀ lease, LastOwner state.core.world state.core.history lease ∨
    FencedOff state.core.world lease
  /-- No token acquires twice: an older token never becomes the last one again. -/
  distinct : (acquiredTokens state.core.history).Nodup
  /-- `heartbeat`, `complete`, `fail` and `release` return true only to the last owner, and
  where they return false they changed nothing. -/
  answered : ∀ number worker request value,
    state.threads number = some ⟨worker, request, .done (.ok (.flag value))⟩ →
    ∃ lease set event older, request.mutation = some (lease, set) ∧
      event :: older <:+ state.core.history ∧
      event.act = .issue .answer worker (.updateOwned lease set) ∧
      (value = true → LastOwner event.before older lease) ∧
      (value = false → FencedOff event.before lease)
  /-- After a `complete` took effect no other does, and no acquisition. -/
  once : state.core.history.Pairwise fun later earlier => ∀ lockKey, Completes earlier lockKey →
    ¬ Completes later lockKey ∧ ¬ Acquires later lockKey
  /-- SUCCESS is terminal. -/
  terminal : ∀ label state', state.step (launch digest) label = some state' →
    ∀ row ∈ World.table state.core.world, row.status = .success →
      row ∈ World.table state'.core.world
  /-- Every acquisition that took effect found the key free under the lease given. -/
  free : ∀ event ∈ state.core.history, ∀ acquisition, acquisitionOf event = some acquisition →
    Free event.before acquisition.lockKey acquisition.leaseMs
  /-- An `acquire` that returned a lease acquired the key of its options under their lease. -/
  acquired : ∀ number worker opts lease,
    state.threads number = some ⟨worker, .acquire opts, .done (.ok (.acquired (.acquired lease)))⟩ →
    ∃ timing identity, ∃ event ∈ state.core.history,
      resolveLeaseTiming opts = .ok timing ∧ resolveIdentity digest opts = .ok identity ∧
      acquisitionOf event =
        some ⟨worker, identity.lockKey, lease.ownerToken, timing.leaseMs⟩ ∧
      Free event.before identity.lockKey timing.leaseMs
  /-- An UPDATE of a `runExclusive` changes a row only while it acquired the row last itself. -/
  exclusive : ∀ number thread opts fn, state.threads number = some thread →
    thread.origin = .runExclusive opts fn →
    ∀ event older, event :: older <:+ state.core.history → ∀ lease set,
      event.act.performed = some (thread.worker, .updateOwned lease set) →
      FencedOff event.before lease ∨
        ∃ row ∈ World.table event.before, row.id = lease.id ∧ row.status = .running ∧
          ∃ acquisition, lastAcquisition row.lockKey older = some acquisition ∧
            acquisition.ownerToken = lease.ownerToken ∧ acquisition.worker = thread.worker

/-! ## Fencing -/

section Fences

variable {world : World} {history : List JobsEvent} {lease : JobLease}

theorem owns_or_fencedOff (world : World) (lease : JobLease) :
    (∃ row ∈ world.table, lease.owns row = true) ∨ FencedOff world lease := by
  by_cases owned : ∃ row ∈ world.table, lease.owns row = true
  · exact .inl owned
  · refine .inr fun worker set => World.exec_updateOwned_of_not_owns fun row member => ?_
    exact Bool.eq_false_iff.mpr fun owns => owned ⟨row, member, owns⟩

theorem Owned.lastOwner (owned : Owned world history) {row : Row} (member : row ∈ world.table)
    (owns : lease.owns row = true) : LastOwner world history lease := by
  obtain ⟨id, token, running⟩ := JobLease.owns_eq_true.mp owns
  obtain ⟨acquisition, last, same⟩ := owned row member
  exact ⟨row, member, id, running, acquisition, last, same.trans token⟩

theorem Owned.fenced (owned : Owned world history) (lease : JobLease) :
    LastOwner world history lease ∨ FencedOff world lease :=
  (owns_or_fencedOff world lease).imp_left fun ⟨_, member, owns⟩ => owned.lastOwner member owns

/-- The primary key: an UPDATE of a lease affects at most one row. -/
theorem count_owns_le_one (world : World) (lease : JobLease) :
    world.table.count lease.owns ≤ 1 := by
  have named : (world.table.select lease.owns).map Row.id ⊆ [lease.id] := by
    intro id member
    obtain ⟨row, selected, rfl⟩ := List.mem_map.mp member
    exact List.mem_singleton.mpr (JobLease.owns_eq_true.mp (Keyed.mem_select.mp selected).2).1
  have fewer := List.subperm_of_subset (world.table.select_distinct lease.owns) named
  simpa [Keyed.count] using fewer.length_le

end Fences

/-! ## Threads -/

section Threads

variable {digest : JsString → JsString} {state : JobsConfig}

/-- What a finished request says about its worker's own steps. -/
theorem replied_of_done (maintained : Maintained (launch digest) conduct Fenced state)
    {number : Nat} {worker : Worker} {request : Request} {outcome : Outcome}
    (finished : state.threads number = some ⟨worker, request, .done outcome⟩) :
    Replied digest request outcome (state.core.pastOf worker) :=
  Program.obeys_after (launch_conduct request) (maintained.runs number _ finished).1
    fun _ _ => trivial

/-- A step of any schedule. -/
theorem core_of_step (maintained : Maintained (launch digest) conduct Fenced state)
    {label : JobsLabel} {state' : JobsConfig}
    (stepped : state.step (launch digest) label = some state') :
    state'.core = state.core ∨
      ∃ act, Core.Admits conduct (fun _ _ => True) state.core act state'.core :=
  (maintained.admits label (fun _ _ => trivial) stepped).imp And.right fun ⟨act, _, admitted⟩ =>
    ⟨act, admitted⟩

/-- A lease that was granted comes from an acquisition that took effect. -/
theorem acquisition_of_granted {core : JobsCore} {worker : Worker} {lease : JobExecutionLease}
    {leaseMs : Nat} (granted : Granted (core.pastOf worker) lease leaseMs) :
    ∃ event ∈ core.history, acquisitionOf event =
      some ⟨worker, lease.idempotencyKey, lease.ownerToken, leaseMs⟩ := by
  rcases granted with ⟨values, key, token, member⟩ | member
  · obtain ⟨event, older, suffix, acted, read⟩ := Core.event_of_answer member
    refine ⟨event, suffix.subset List.mem_cons_self, ?_⟩
    rw [acquisitionOf_of_performed (by rw [acted]; rfl)]
    simp only [machine, World.exec, World.acquisition] at read ⊢
    split at read
    · rename_i table inserted
      simp [inserted, key, token]
    · cases read
  · obtain ⟨event, older, suffix, acted, read⟩ := Core.event_of_answer member
    refine ⟨event, suffix.subset List.mem_cons_self, ?_⟩
    rw [acquisitionOf_of_performed (by rw [acted]; rfl)]
    obtain ⟨row, found, -⟩ := Option.map_eq_some_iff.mp read.symm
    have any := List.any_eq_true.mpr
      ⟨row, List.mem_of_find?_eq_some found, List.find?_some found⟩
    exact if_pos any

theorem free_of_acquisition {event : JobsEvent} {acquisition : Acquisition}
    (acquired : acquisitionOf event = some acquisition) :
    Free event.before acquisition.lockKey acquisition.leaseMs := by
  intro row member key
  cases performed : event.act.performed with
  | none =>
      rw [acquisitionOf_of_idle performed] at acquired
      cases acquired
  | some done =>
      rw [acquisitionOf_of_performed performed] at acquired
      exact World.acquisition_found acquired member key

/-- A `runExclusive` presents only tokens that it minted itself. -/
theorem minted_of_runExclusive (maintained : Maintained (launch digest) conduct Fenced state)
    {number : Nat} {thread : Thread sig Outcome Request} {opts : JobAcquireOptions}
    {fn : JobExecutionLease → Except JobError JsString}
    (found : state.threads number = some thread) (runs : thread.origin = .runExclusive opts fn)
    {lease : JobLease} {set : LeaseSet} {reply : Option Nat}
    (asked : ⟨.updateOwned lease set, reply⟩ ∈ state.core.pastOf thread.worker) :
    Minted (state.core.pastOf thread.worker) lease.ownerToken := by
  have after := (maintained.runs number thread found).1
  rw [runs] at after
  have allowed {step : Step sig} (member : step ∈ state.core.pastOf thread.worker) :
      ∃ earlier, earlier <:+ state.core.pastOf thread.worker ∧
        owning.allows earlier step.call := by
    obtain ⟨newer, earlier, split⟩ := List.append_of_mem member
    have suffix : step :: earlier <:+ state.core.pastOf thread.worker := ⟨newer, split.symm⟩
    exact ⟨earlier, (List.suffix_cons _ _).trans suffix,
      Program.allowed_after (launch_owning rfl) after (fun _ _ => trivial) suffix⟩
  obtain ⟨earlier, suffix, granted, rfl, leaseMs, ⟨values, -, token, member⟩ | member⟩ :=
    allowed asked
  · obtain ⟨before, suffix', same⟩ := allowed (suffix.subset member)
    refine suffix'.subset ?_
    rw [same, ← token]
    exact List.mem_cons_self
  · obtain ⟨before, suffix', values, -, same⟩ := allowed (suffix.subset member)
    refine suffix'.subset ?_
    rw [same]
    exact List.mem_cons_of_mem _ List.mem_cons_self

end Threads

/-! ## The guarantees -/

theorem mem_of_lastAcquisition {lockKey : JsString} {history : List JobsEvent}
    {acquisition : Acquisition} (last : lastAcquisition lockKey history = some acquisition) :
    ∃ event ∈ history, acquisitionOf event = some acquisition := by
  obtain ⟨event, member, read⟩ := List.exists_of_findSome?_eq_some last
  exact ⟨event, member, (Option.filter_eq_some_iff.mp read).1⟩

/-- The **lock discipline** holds in every reachable state. -/
theorem job_lock_fencing {digest : JsString → JsString} {time : Int} {state : JobsConfig}
    (reached : Reachable digest time state) : LockDiscipline digest state := by
  have maintained := fenced_of_reachable reached
  have fenced := maintained.inv
  constructor
  case fenced => exact fenced.owned.fenced
  case distinct => exact (List.nodup_append.mp fenced.once).1
  case answered =>
    intro number worker request value finished
    obtain ⟨lease, set, mutates, affected, past, rfl⟩ := replied_of_done maintained finished
    have member : ⟨.updateOwned lease set, some affected⟩ ∈ state.core.pastOf worker := by
      rw [past]
      exact List.mem_cons_self
    obtain ⟨event, older, suffix, acted, read⟩ := Core.event_of_answer member
    refine ⟨lease, set, event, older, mutates, suffix, acted, fun one => ?_, fun other => ?_⟩
    · rcases (fenced.before event older suffix).fenced lease with last | off
      · exact last
      · have zero : affected = 0 := read.trans (congrArg Prod.fst (off worker set))
        simp [zero] at one
    · rcases owns_or_fencedOff event.before lease with ⟨row, there, owns⟩ | off
      · have some : 0 < (World.table event.before).count lease.owns :=
          List.length_pos_of_mem (Keyed.mem_select.mpr ⟨there, owns⟩)
        have most := count_owns_le_one event.before lease
        have one : affected = 1 := read.trans (Nat.le_antisymm most some)
        simp [one] at other
      · exact off
  case once =>
    refine fenced.untouched.imp fun touched lockKey completes => ?_
    obtain ⟨unacquired, unchanged⟩ := touched lockKey completes
    exact ⟨fun ⟨lease, data, updates⟩ => unchanged lease _ updates, unacquired⟩
  case terminal =>
    intro label state' stepped row member success
    rcases core_of_step maintained stepped with same | ⟨act, admitted⟩
    · rwa [same]
    · exact mem_of_success admitted member success
  case free =>
    intro event _ acquisition acquired
    exact free_of_acquisition acquired
  case acquired =>
    intro number worker opts lease finished
    obtain ⟨_, same, timing, identity, timed, identified, key, granted⟩ :=
      replied_of_done maintained finished
    cases same
    obtain ⟨event, member, acquired⟩ := acquisition_of_granted granted
    rw [key] at acquired
    exact ⟨timing, identity, event, member, timed, identified, acquired,
      free_of_acquisition acquired⟩
  case exclusive =>
    intro number thread opts fn found runs event older suffix lease set performed
    rcases (fenced.before event older suffix).fenced lease with
      ⟨row, there, id, running, acquisition, last, token⟩ | off
    · obtain ⟨reply, asked⟩ := fenced.asked event (suffix.subset List.mem_cons_self) _ _ performed
      obtain ⟨earlier, member, acquired⟩ := mem_of_lastAcquisition last
      have inside := suffix.subset (List.mem_cons_of_mem _ member)
      have own := minted_of_runExclusive maintained found runs asked
      have author := fenced.acquired earlier inside acquisition acquired
      exact .inr ⟨row, there, id, running, acquisition, last, token,
        fenced.unique author (token ▸ own)⟩
    · exact .inl off

/-- A run whose `complete` took effect although its answer was lost; the `fail` that follows
finds no running row. -/
def lostAcknowledgement : List JobsLabel :=
  .spawn 0 (.runExclusive smallOptions fun _ => .ok []) ::
    [.issue .answer 0, .issue .answer 0, .issue .lose 0, .issue .answer 0]

theorem job_lock_fencing_lost_acknowledgement :
    ∃ state, Reachable id 0 state ∧
      state.core.world.table.rows.map Row.status = [.success] ∧ LockDiscipline id state := by
  have observed : (after lostAcknowledgement).map
      (fun state => state.core.world.table.rows.map Row.status) = some [.success] := by
    decide +kernel
  obtain ⟨state, followed, statuses⟩ := Option.map_eq_some_iff.mp observed
  have reached := reachable_after followed
  exact ⟨state, reached, statuses, job_lock_fencing reached⟩

end SdcoreNest.JobScheduler
