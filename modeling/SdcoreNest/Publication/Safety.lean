/-
# Publication.Safety -- a URL is shown only for the current, published generation

`Safe` is the invariant of the interleaved system.  A lease that a worker was granted and
that is still the row's own fits the row's state, so a retired row is never committed again;
a ready row was committed under a live publish lease after its worker saw the rendition in
place.  `publication_safety` reads the three promises off it: what `project` shows, that a
retired or replaced generation is never shown again, and that a worker whose lease is over
changes nothing.
-/
import SdcoreNest.Publication.Evolution

namespace SdcoreNest.Publication

open SdcoreNest.Theory SdcoreNest.Theory.Machine

set_option autoImplicit false

variable {deployment : Deployment}

abbrev SystemEvent (deployment : Deployment) := Machine.Event (machine deployment)

/-- The world an event met. -/
abbrev metBy (event : SystemEvent deployment) : World := event.before

/-! ## The words of the promises -/

/-- The event moved the intent to ready: under a publish lease of its worker that was the
row's own and unexpired at that moment, for the current binding, after the worker had seen
`inspect` answer matching or `publish` acknowledge under that lease. -/
def Publishes (earlier : List (SystemEvent deployment)) (event : SystemEvent deployment)
    (intent : Intent) : Prop :=
  ∃ worker lease now row past,
    event.act.performed = some (worker, .call (.commitReady lease now)) ∧
    lease.action = .publish ∧ lease.intent = intent ∧
    row ∈ (metBy event).repository.rows ∧ row.intent = intent ∧
    row.token = some lease.token ∧ JsNumber.finite row.revision = lease.revision ∧
    row.leaseUntil.le (metBy event).now = false ∧
    (metBy event).repository.current = some intent.binding ∧
    row.committed ∈ (exec deployment (metBy event) worker
      (.call (.commitReady lease now))).2.repository.rows ∧
    past <:+ earlier.filterMap (Machine.Event.stepOf worker) ∧ Observed past lease

def Published (history : List (SystemEvent deployment)) (intent : Intent) : Prop :=
  ∃ event earlier, event :: earlier <:+ history ∧ Publishes earlier event intent

/-- An assignment change has retired the generation. -/
def Retired (history : List (SystemEvent deployment)) (binding : Binding) : Prop :=
  ∃ event ∈ history, ∃ m after, event.act = .move m ∧
    move deployment (metBy event) m = some after ∧
    ∃ row ∈ (metBy event).repository.rows, row.intent.binding = binding ∧
      row.retireRow ∈ after.repository.rows

/-- The generation was the current one and, later, was not. -/
def Replaced (history : List (SystemEvent deployment)) (binding : Binding) : Prop :=
  ∃ event earlier, event :: earlier <:+ history ∧
    (metBy event).repository.current ≠ some binding ∧
    ∃ older ∈ earlier, (metBy older).repository.current = some binding

/-- Every replacement uses a generation that was never current before. -/
def FreshGenerations (core : SystemCore deployment) (act : Act (machine deployment)) : Prop :=
  ∀ binding transaction, act = .move (.withAssignment (some binding) transaction) →
    (worldOf core).repository.current = some binding ∨
      ∀ event ∈ core.history, (metBy event).repository.current ≠ some binding

/-- The lease of a call that a worker makes to finish its work. -/
def closing : Call → Option Lease
  | .call (.commitReady lease _) => some lease
  | .call (.record lease _ _ _) => some lease
  | _ => none

/-- The row has moved on since the lease was granted. -/
def Superseded (history : List (SystemEvent deployment)) (lease : Lease) : Prop :=
  ∃ event ∈ history, ∃ row ∈ (metBy event).repository.rows, row.id = lease.intent.id ∧
    ∃ revision : Nat, lease.revision = .finite revision ∧ revision < row.revision

/-- A commit that comes after the lease of the row has run out. -/
def Expired (world : World) (call : Call) (lease : Lease) : Prop :=
  (∃ now, call = .call (.commitReady lease now)) ∧
    ∃ row ∈ world.repository.rows, row.id = lease.intent.id ∧ row.leaseUntil.le world.now = true

/-! ## The invariant -/

/-- The state of a row that a lease is still the row's own of. -/
def Fits (lease : Lease) (state : State) : Prop :=
  (lease.action = .publish ∧ state = .uncertain) ∨
    (lease.action = .retire ∧ (state = .retiring ∨ state = .retired))

/-- What `project` may rely on when it reads. -/
def ReadSoundly (event : SystemEvent deployment) (earlier : List (SystemEvent deployment)) :
    Prop :=
  ∀ binding intent, (metBy event).repository.readCurrent binding = some (intent, .ready) →
    (metBy event).repository.current = some binding ∧ Published earlier intent ∧
      ¬ Retired earlier binding ∧ ¬ Replaced (event :: earlier) binding

/-- A worker whose lease is over changes nothing. -/
def Fenced (event : SystemEvent deployment) (earlier : List (SystemEvent deployment)) : Prop :=
  ∀ worker call lease, event.act.performed = some (worker, call) → closing call = some lease →
    Superseded (event :: earlier) lease →
    (exec deployment (metBy event) worker call).2.repository = (metBy event).repository

structure Safe (core : SystemCore deployment) : Prop where
  due : core.Due publishing
  drawn : ∀ row ∈ rowsOf core, ∃ number < (worldOf core).nextId, row.id = deployment.uuid number
  unique : ∀ row ∈ rowsOf core, ∀ row' ∈ rowsOf core,
    row.intent.binding = row'.intent.binding → row = row'
  leases : ∀ worker lease, Granted (core.pastOf worker) lease →
    ∃ row ∈ rowsOf core, row.intent = lease.intent ∧ ∃ revision : Nat,
      lease.revision = .finite revision ∧ revision ≤ row.revision ∧
      (revision = row.revision → Fits lease row.state)
  ready : ∀ row ∈ rowsOf core, row.state = .ready → Published core.history row.intent
  gone : ∀ binding, Retired core.history binding →
    (∃ row ∈ rowsOf core, row.intent.binding = binding) ∧
      ∀ row ∈ rowsOf core, row.intent.binding = binding → row.state.ending = true
  forward : ∀ event ∈ core.history, ∀ row ∈ (metBy event).repository.rows,
    ∃ row' ∈ rowsOf core, row'.id = row.id ∧ row.revision ≤ row'.revision
  once : ∀ binding, Replaced core.history binding →
    (worldOf core).repository.current ≠ some binding
  reads : ∀ event earlier, event :: earlier <:+ core.history → ReadSoundly event earlier
  fenced : ∀ event earlier, event :: earlier <:+ core.history → Fenced event earlier

theorem safe_initial (time : Int) :
    Safe (⟨World.initial time, [], []⟩ : SystemCore deployment) where
  due _ _ member := absurd member List.not_mem_nil
  drawn row member := absurd member (Keyed.not_mem_empty row)
  unique row member := absurd member (Keyed.not_mem_empty row)
  leases _ _ granted := by
    obtain ⟨_, _, _, _, member⟩ := granted
    exact absurd member List.not_mem_nil
  ready row member := absurd member (Keyed.not_mem_empty row)
  gone _ retired := by
    obtain ⟨_, member, _⟩ := retired
    exact absurd member List.not_mem_nil
  forward _ member := absurd member List.not_mem_nil
  once _ replaced := by
    obtain ⟨_, _, suffix, _⟩ := replaced
    simp at suffix
  reads _ _ suffix := by simp at suffix
  fenced _ _ suffix := by simp at suffix

namespace Safe

variable {core core' : SystemCore deployment} {act : Act (machine deployment)}

section

variable (safe : Safe core)

include safe

/-- The state of a row that a granted lease still owns. -/
theorem fits {worker : Worker} {past : Past} {lease : Lease} {row : Row}
    (suffix : past <:+ core.pastOf worker) (granted : Granted past lease)
    (owned : (worldOf core).repository.owned lease = some row) :
    row.intent = lease.intent ∧ Fits lease row.state := by
  obtain ⟨member, named, -, revised⟩ := owned_eq_some owned
  obtain ⟨row', member', same, revision, numbered, -, fitting⟩ :=
    safe.leases worker lease (granted.mono suffix)
  have itself : row' = row := by
    refine Keyed.eq_of_key member' member ?_
    rw [named, ← same]
  subst itself
  refine ⟨same, fitting ?_⟩
  rw [numbered] at revised
  have equal : (row'.revision : ℚ) = revision := JsNumber.finite.inj revised
  exact_mod_cast equal.symm

/-- A row on its way out stays on its way out. -/
theorem ending_kept {row row' : Row} (ending : row.state.ending = true)
    (becomes : Becomes core act row row') : row'.state.ending = true := by
  cases becomes with
  | same => exact ending
  | retired => rfl
  | claimed worker token now leaseUntil performed due =>
      simp only [Row.claimed]
      split
      · rename_i publishing
        exfalso
        unfold Row.action at publishing
        split at publishing
        · cases publishing
        · rename_i unretired
          have blocked : row.state = .blocked := by
            cases state : row.state <;> simp_all [State.ending]
          simp [Row.due, blocked] at due
      · exact ending
  | committed worker lease now past performed suffix publishes observed owned =>
      obtain ⟨-, fits⟩ := safe.fits suffix observed.granted owned
      rcases fits with ⟨-, uncertain⟩ | ⟨retires, -⟩
      · rw [uncertain] at ending
        cases ending
      · rw [publishes] at retires
        cases retires
  | recorded worker lease state code next past performed suffix granted unready ends owned =>
      obtain ⟨-, fits⟩ := safe.fits suffix granted owned
      rcases fits with ⟨-, uncertain⟩ | ⟨retires, -⟩
      · rw [uncertain] at ending
        cases ending
      · exact ends retires

/-- What `project` shows, it shows soundly. -/
theorem readSoundly (act : Act (machine deployment)) :
    ReadSoundly ⟨act, core.world⟩ core.history := by
  intro binding intent shown
  have shown : (worldOf core).repository.readCurrent binding = some (intent, .ready) := shown
  unfold Repository.readCurrent at shown
  split at shown
  · cases shown
  · rename_i current
    have current := not_not.mp current
    obtain ⟨row, found, pair⟩ := Option.map_eq_some_iff.mp shown
    obtain ⟨rfl, isReady⟩ := Prod.mk.inj pair
    have member : row ∈ rowsOf core := List.mem_of_find?_eq_some found
    have bound : row.intent.binding = binding := by simpa using List.find?_some found
    refine ⟨current, safe.ready row member isReady, fun retired => ?_, fun replaced => ?_⟩
    · have ending := (safe.gone binding retired).2 row member bound
      rw [isReady] at ending
      cases ending
    · obtain ⟨event, earlier, suffix, other, older, there, was⟩ := replaced
      rcases List.suffix_cons_iff.mp suffix with whole | inside
      · cases whole
        exact other current
      · exact safe.once binding ⟨event, earlier, inside, other, older, there, was⟩ current

/-- A lease that the row has moved on from owns nothing. -/
theorem unowned_of_superseded {lease : Lease} (act : Act (machine deployment))
    (superseded : Superseded (⟨act, core.world⟩ :: core.history) lease) :
    (worldOf core).repository.owned lease = none := by
  obtain ⟨event, inside, row, there, named, revision, numbered, less⟩ := superseded
  have later : ∃ row' ∈ rowsOf core, row'.id = row.id ∧ row.revision ≤ row'.revision := by
    rcases List.mem_cons.mp inside with rfl | old
    · exact ⟨row, there, rfl, Nat.le_refl _⟩
    · exact safe.forward event old row there
  obtain ⟨row', member, same, more⟩ := later
  cases owned : (worldOf core).repository.owned lease with
  | none => rfl
  | some current =>
      exfalso
      obtain ⟨member', named', -, revised⟩ := owned_eq_some owned
      have itself : current = row' :=
        Keyed.eq_of_key member' member (named'.trans (named.symm.trans same.symm))
      rw [numbered, itself] at revised
      have equal : (row'.revision : ℚ) = revision := JsNumber.finite.inj revised
      have equal : row'.revision = revision := by exact_mod_cast equal
      omega

theorem fencedNow (act : Act (machine deployment)) : Fenced ⟨act, core.world⟩ core.history := by
  intro worker call lease performed closes superseded
  have unowned := safe.unowned_of_superseded act superseded
  show (exec deployment (worldOf core) worker call).2.repository = (worldOf core).repository
  cases call with
  | call port =>
      cases port with
      | commitReady lease' now =>
          cases closes
          rcases call_world (worldOf core) (.commitReady lease now) with idle | served
          · exact congrArg World.repository idle
          · refine (congrArg World.repository served).trans ?_
            simp only [World.serve, World.setRepository, Repository.commitReady, unowned]
      | record lease' state code next =>
          cases closes
          rcases call_world (worldOf core) (.record lease state code next) with idle | served
          · exact congrArg World.repository idle
          · refine (congrArg World.repository served).trans ?_
            simp only [World.serve, World.setRepository, Repository.record, unowned]
      | _ => cases closes
  | _ => cases closes

end

/-! ## Every admitted act keeps it -/

section Step

variable {ok : SystemCore deployment → Act (machine deployment) → Prop} (safe : Safe core)
  (admitted : Core.Admits publishing ok core act core') (evolves : Evolves core act core')

include safe evolves

theorem drawn_step {row : Row} (member : row ∈ rowsOf core') :
    ∃ number < (worldOf core').nextId, row.id = deployment.uuid number := by
  obtain ⟨new, origins, fresh⟩ := evolves.backward
  rcases origins row member with ⟨old, there, becomes⟩ | inserted
  · obtain ⟨number, below, named⟩ := safe.drawn old there
    exact ⟨number, Nat.lt_of_lt_of_le below evolves.ids, becomes.id.trans named⟩
  · obtain ⟨number, range, named⟩ := (fresh row inserted).drawn
    exact ⟨number, range.2, named⟩

theorem unique_step {row row' : Row} (member : row ∈ rowsOf core') (member' : row' ∈ rowsOf core')
    (same : row.intent.binding = row'.intent.binding) : row = row' := by
  obtain ⟨new, origins, fresh⟩ := evolves.backward
  rcases origins row member with ⟨old, there, becomes⟩ | inserted
  · rcases origins row' member' with ⟨old', there', becomes'⟩ | inserted'
    · rw [becomes.later.1, becomes'.later.1] at same
      have itself := safe.unique old there old' there' same
      exact Keyed.eq_of_key member member' (becomes.id.trans (itself ▸ becomes'.id.symm))
    · rw [becomes.later.1] at same
      exact absurd same ((fresh row' inserted').absent old there)
  · rcases origins row' member' with ⟨old', there', becomes'⟩ | inserted'
    · rw [becomes'.later.1] at same
      exact absurd same.symm ((fresh row inserted).absent old' there')
    · exact Option.some.inj (inserted.symm.trans inserted')

omit safe in
theorem forward_step {row : Row} (there : row ∈ rowsOf core) :
    ∃ row' ∈ rowsOf core', row'.id = row.id ∧ row.revision ≤ row'.revision := by
  obtain ⟨row', member, becomes⟩ := evolves.forward row there
  refine ⟨row', member, becomes.id, ?_⟩
  rcases becomes.later.2 with same | more
  · rw [same]
  · exact Nat.le_of_lt more

theorem ending_step {binding : Binding}
    (exists_row : ∃ row ∈ rowsOf core, row.intent.binding = binding)
    (ending : ∀ row ∈ rowsOf core, row.intent.binding = binding → row.state.ending = true) :
    (∃ row ∈ rowsOf core', row.intent.binding = binding) ∧
      ∀ row ∈ rowsOf core', row.intent.binding = binding → row.state.ending = true := by
  obtain ⟨row, there, bound⟩ := exists_row
  obtain ⟨row', member, becomes⟩ := evolves.forward row there
  refine ⟨⟨row', member, by rw [becomes.later.1]; exact bound⟩, fun other member' bound' => ?_⟩
  obtain ⟨new, origins, fresh⟩ := evolves.backward
  rcases origins other member' with ⟨old, there', becomes'⟩ | inserted
  · rw [becomes'.later.1] at bound'
    exact safe.ending_kept (ending old there' bound') becomes'
  · exact absurd (bound.trans bound'.symm) ((fresh other inserted).absent row there)

include admitted

theorem leases_step {worker : Worker} {lease : Lease}
    (granted : Granted (core'.pastOf worker) lease) :
    ∃ row ∈ rowsOf core', row.intent = lease.intent ∧ ∃ revision : Nat,
      lease.revision = .finite revision ∧ revision ≤ row.revision ∧
      (revision = row.revision → Fits lease row.state) := by
  obtain ⟨id, token, now, leaseUntil, member⟩ := granted
  rcases admitted.answered member with old | ⟨-, answer, -, after⟩
  · obtain ⟨row, there, same, revision, numbered, most, fits⟩ :=
      safe.leases worker lease ⟨id, token, now, leaseUntil, old⟩
    obtain ⟨row', there', becomes⟩ := evolves.forward row there
    refine ⟨row', there', becomes.later.1.trans same, revision, numbered, ?_⟩
    rcases becomes.later.2 with unchanged | more
    · rw [unchanged]
      exact ⟨most, fits⟩
    · exact ⟨by omega, fun equal => by omega⟩
  · obtain ⟨row, there, due, rfl, claimed⟩ := granted_of_claim answer.symm
    refine ⟨row.claimed token leaseUntil, ?_, rfl, row.revision + 1, ?_, Nat.le_refl _, fun _ => ?_⟩
    · rw [rowsOf, show worldOf core' = _ from after]
      exact claimed
    · simp [Row.lease]
    · unfold Fits
      simp only [Row.lease, Row.claimed]
      unfold Row.action
      split
      · rename_i retires
        exact .inr ⟨rfl, by simpa using retires⟩
      · exact .inl ⟨rfl, by simp⟩

theorem ready_step {row : Row} (member : row ∈ rowsOf core') (isReady : row.state = .ready) :
    Published core'.history row.intent := by
  have older : ∀ {intent : Intent}, Published core.history intent →
      Published core'.history intent := by
    rintro intent ⟨event, earlier, suffix, publishes⟩
    refine ⟨event, earlier, ?_, publishes⟩
    rw [admitted.history]
    exact suffix.trans (List.suffix_cons _ _)
  obtain ⟨new, origins, fresh⟩ := evolves.backward
  rcases origins row member with ⟨old, there, becomes⟩ | inserted
  · cases becomes with
    | same => exact older (safe.ready row there isReady)
    | retired => cases isReady
    | claimed worker token now leaseUntil performed due =>
        exfalso
        simp only [Row.claimed] at isReady
        split at isReady
        · cases isReady
        · simp [Row.due, isReady] at due
    | committed worker lease now past performed suffix publishes observed owned unexpired current
        effective =>
        obtain ⟨mine, named, token, revised⟩ := owned_eq_some owned
        obtain ⟨same, -⟩ := safe.fits suffix observed.granted owned
        rw [← same] at current
        rw [admitted.history]
        exact ⟨⟨act, core.world⟩, core.history, List.suffix_refl _, worker, lease, now, old, past,
          performed, publishes, same.symm, mine, rfl, token, revised, unexpired, current,
          effective, suffix, observed⟩
    | recorded worker lease state code next past performed suffix granted unready =>
        exact absurd isReady unready
  · rw [(fresh row inserted).pending] at isReady
    cases isReady

theorem gone_step {binding : Binding} (retired : Retired core'.history binding) :
    (∃ row ∈ rowsOf core', row.intent.binding = binding) ∧
      ∀ row ∈ rowsOf core', row.intent.binding = binding → row.state.ending = true := by
  obtain ⟨event, inside, m, after, acted, moved, row, there, bound, gone⟩ := retired
  rw [admitted.history] at inside
  rcases List.mem_cons.mp inside with rfl | old
  · have acted : act = .move m := acted
    subst acted
    cases admitted with
    | move moved' met =>
        have same : after = _ := Option.some.inj (moved.symm.trans moved')
        subst same
        refine ⟨⟨row.retireRow, gone, bound⟩, fun other member bound' => ?_⟩
        have itself := safe.unique_step evolves member gone (bound'.trans bound.symm)
        rw [itself]
        rfl
  · obtain ⟨exists_row, ending⟩ :=
      safe.gone binding ⟨event, old, m, after, acted, moved, row, there, bound, gone⟩
    exact safe.ending_step evolves exists_row ending

theorem once_step (fresh : FreshGenerations core act) {binding : Binding}
    (replaced : Replaced core'.history binding) :
    (worldOf core').repository.current ≠ some binding := by
  obtain ⟨event, earlier, suffix, other, older, there, was⟩ := replaced
  rw [admitted.history] at suffix
  -- the generation was current before the act, and is not current when the act is taken
  have before : older ∈ core.history ∧ (worldOf core).repository.current ≠ some binding := by
    rcases List.suffix_cons_iff.mp suffix with whole | inside
    · cases whole
      exact ⟨there, other⟩
    · refine ⟨inside.subset (List.mem_cons_of_mem _ there), ?_⟩
      exact safe.once binding ⟨event, earlier, inside, other, older, there, was⟩
  intro now
  rcases evolves.current with same | ⟨binding', transaction, acted, set⟩
  · exact before.2 (same ▸ now)
  · rw [set] at now
    rw [now] at acted
    rcases fresh binding transaction acted with current | never
    · exact before.2 current
    · exact never older before.1 was

end Step

/-- Every admitted act keeps the invariant. -/
theorem step {ok : SystemCore deployment → Act (machine deployment) → Prop}
    (distinct : Function.Injective deployment.uuid) (safe : Safe core)
    (admitted : Core.Admits publishing ok core act core') (fresh : FreshGenerations core act) :
    Safe core' := by
  have evolves := evolve distinct safe.drawn safe.due admitted
  refine ⟨safe.due.admits admitted, fun _ => safe.drawn_step evolves,
    fun _ member _ member' => safe.unique_step evolves member member',
    fun _ _ => safe.leases_step admitted evolves, fun _ => safe.ready_step admitted evolves,
    fun _ => safe.gone_step admitted evolves, ?_,
    fun _ => safe.once_step admitted evolves fresh, ?_, ?_⟩
  · intro event inside row there
    rw [admitted.history] at inside
    rcases List.mem_cons.mp inside with rfl | old
    · exact forward_step evolves there
    · obtain ⟨row', member, same, most⟩ := safe.forward event old row there
      obtain ⟨row'', member', same', most'⟩ := forward_step evolves member
      exact ⟨row'', member', same'.trans same, Nat.le_trans most most'⟩
  · intro event earlier suffix
    rw [admitted.history] at suffix
    rcases List.suffix_cons_iff.mp suffix with whole | inside
    · cases whole
      exact safe.readSoundly act
    · exact safe.reads event earlier inside
  · intro event earlier suffix
    rw [admitted.history] at suffix
    rcases List.suffix_cons_iff.mp suffix with whole | inside
    · cases whole
      exact safe.fencedNow act
    · exact safe.fenced event earlier inside

end Safe

theorem safe_keeps (distinct : Function.Injective deployment.uuid) :
    Keeps publishing FreshGenerations (@Safe deployment) where
  admits safe admitted := safe.step distinct admitted admitted.met
  credible := by
    intro core mode worker call _ _ enabled
    cases call with
    | aborted =>
        cases mode with
        | answer => trivial
        | _ => rcases enabled with wrong | wrong <;> cases wrong
    | _ => trivial

theorem unchanged_of_expired {world : World} {worker : Worker} {call : Call} {lease : Lease}
    (expired : Expired world call lease) :
    (exec deployment world worker call).2.repository = world.repository := by
  obtain ⟨⟨now, rfl⟩, row, member, named, ran⟩ := expired
  show (world.call (.commitReady lease now)).2.repository = world.repository
  rcases call_world world (.commitReady lease now) with idle | served
  · rw [idle]
  · rw [served]
    rcases commitReady_cases world.repository world.now lease now with
      same | ⟨current, owned, unexpired, -, -⟩
    · exact same
    · obtain ⟨member', named', -⟩ := owned_eq_some owned
      have itself : current = row := Keyed.eq_of_key member' member (named'.trans named.symm)
      rw [itself, ran] at unexpired
      cases unexpired

/-- What a read answered is what the repository showed. -/
theorem readCurrent_of_answer {world : World} {binding : Binding} {row : Option (Intent × State)}
    (answer : (world.call (.readCurrent binding)).1 = .ok row) :
    world.repository.readCurrent binding = row := by
  unfold World.call at answer
  split at answer
  · exact Except.ok.inj answer
  · cases answer

abbrev SystemState (deployment : Deployment) :=
  Machine.Config (machine deployment) (Except Fault Reply) Request

/-- When `project` has returned a URL for a binding, the binding was the current one when it
read, its intent had been published, and it had been neither retired nor replaced. -/
def ShowsPublished (state : SystemState deployment) : Prop :=
  ∀ number worker binding url shown, state.threads number =
      some ⟨worker, .project binding, .done (.ok (.projected (some url) shown))⟩ →
    ∃ event earlier, event :: earlier <:+ state.core.history ∧
      event.act = .issue .answer worker (.call (.readCurrent binding)) ∧
      (metBy event).repository.current = some binding ∧
      (∃ intent, intent.binding = binding ∧ intent.target.url = url ∧
        Published earlier intent) ∧
      ¬ Retired earlier binding ∧ ¬ Replaced (event :: earlier) binding

/-- A worker whose lease is superseded changes nothing, and one whose lease has expired makes
nothing ready. -/
def FencesLeases (state : SystemState deployment) : Prop :=
  ∀ event earlier, event :: earlier <:+ state.core.history → ∀ worker call lease,
    event.act.performed = some (worker, call) → closing call = some lease →
    Superseded (event :: earlier) lease ∨ Expired (metBy event) call lease →
    (exec deployment (metBy event) worker call).2.repository = (metBy event).repository

/-- **Publication safety**, for any interleaving of port calls, assignment changes, faults,
aborts and late effects.  What `project` shows was moved to ready under an unexpired publish
lease that was the row's own, after its worker had seen the rendition in place under that
lease; a retired or replaced generation is not shown again; a lease that is over does
nothing. -/
theorem publication_safety (distinct : Function.Injective deployment.uuid) {time : Int}
    {state : SystemState deployment}
    (reached : Reach (launch deployment) FreshGenerations (World.initial time) state) :
    ShowsPublished state ∧ FencesLeases state := by
  have held := Reach.keeps (safe_keeps distinct) launch_obeys (safe_initial time) reached
  constructor
  · intro number worker binding url shown finished
    obtain ⟨after, -⟩ := held.runs number _ finished
    have posted := Program.obeys_after (launch_project_obeys binding) after (held.credited worker)
    obtain ⟨intent, read, bound, target⟩ := posted url shown rfl
    obtain ⟨event, earlier, suffix, acted, answer⟩ := Core.event_of_answer read
    have shows := readCurrent_of_answer answer.symm
    obtain ⟨current, published, unretired, unreplaced⟩ :=
      held.inv.reads event earlier suffix binding intent shows
    exact ⟨event, earlier, suffix, acted, current, ⟨intent, bound, target, published⟩, unretired,
      unreplaced⟩
  · intro event earlier suffix worker call lease performed closes over_
    rcases over_ with superseded | expired
    · exact held.inv.fenced event earlier suffix worker call lease performed closes superseded
    · exact unchanged_of_expired expired

/-! ## A run and a projection -/

/-- Ids that differ in length. -/
def smallDeployment : Deployment := ⟨smallCoordinator, fun n => List.replicate (n + 1) 0x61⟩

theorem smallDeployment_distinct : Function.Injective smallDeployment.uuid := by
  intro first second same
  have lengths := congrArg List.length same
  simpa [smallDeployment] using lengths

/-- The condition on replacements, evaluated. -/
def freshGenerations (core : SystemCore smallDeployment) (act : Act (machine smallDeployment)) :
    Bool :=
  match act with
  | .move (.withAssignment (some binding) _) =>
      decide ((worldOf core).repository.current = some binding) ||
        core.history.all fun event => decide ((metBy event).repository.current ≠ some binding)
  | _ => true

theorem fresh_of_check (core : SystemCore smallDeployment) (act : Act (machine smallDeployment))
    (checked : freshGenerations core act = true) : FreshGenerations core act := by
  rintro binding transaction rfl
  simpa [freshGenerations] using checked

/-- The file is assigned, a worker publishes it, a reader asks for its URL. -/
def publishedAndShown : List (Machine.Label (machine smallDeployment) Request) :=
  [.move (.withAssignment (some smallBinding) (.stage (.publicFile smallBinding smallSource))),
    .move (.storage .absent .acknowledged), .spawn 0 (.run [0x61])] ++
    List.replicate 22 (.issue .answer 0) ++
    [.spawn 0 (.project smallBinding), .issue .answer 1]

def replyOf (state : SystemState smallDeployment) (number : Nat) : Option (Except Fault Reply) :=
  match state.threads number with
  | some ⟨_, _, .done reply⟩ => some reply
  | _ => none

theorem publication_safety_shown : ∃ state : SystemState smallDeployment,
    Reach (launch smallDeployment) FreshGenerations (World.initial 0) state ∧
    replyOf state 0 = some (.ok (.ran .ready)) ∧
    replyOf state 1 = some (.ok (.projected (some smallIntent.target.url) (some .ready))) ∧
    ShowsPublished state ∧ FencesLeases state := by
  have observed : ((Config.start (World.initial 0) : SystemState smallDeployment).follow
      (launch smallDeployment) freshGenerations publishedAndShown).map
      (fun state => (replyOf state 0, replyOf state 1)) =
        some (some (.ok (.ran .ready)),
          some (.ok (.projected (some smallIntent.target.url) (some .ready)))) := by
    decide +kernel
  obtain ⟨state, followed, seen⟩ := Option.map_eq_some_iff.mp observed
  obtain ⟨ran, shown⟩ := Prod.mk.inj seen
  have reached := reach_follow (launch smallDeployment) fresh_of_check .start followed
  exact ⟨state, reached, ran, shown, publication_safety smallDeployment_distinct reached⟩

end SdcoreNest.Publication
