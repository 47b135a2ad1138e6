/-
# Publication.Conduct -- what workers and transactions may ask of the repository

`publishing` is the conduct of every thread of the system, a `run` or a `project`: a worker
commits or records only under a lease that it was granted, as the order of a run has it.
`outcome_of_transaction` says what the transaction of an assignment change can do to the
rows: nothing, retire some, or retire the other generations and insert one new intent.
-/
import SdcoreNest.Publication.Repository

namespace SdcoreNest.Publication

open SdcoreNest.Theory SdcoreNest.Theory.JsString

set_option autoImplicit false

/-- The worker was granted the lease. -/
def Granted (past : Past) (lease : Lease) : Prop :=
  ∃ id token now leaseUntil, answered (.claim id token now leaseUntil) (some lease) ∈ past

/-- After it was granted the lease, the worker saw the rendition in place. -/
def Observed (past : Past) (lease : Lease) : Prop :=
  ∃ id token now leaseUntil,
    [answered (.inspect lease.intent) .matching,
      answered (.claim id token now leaseUntil) (some lease)].Sublist past ∨
    [answered (.publish lease.intent) .acknowledged,
      answered (.claim id token now leaseUntil) (some lease)].Sublist past

theorem Granted.mono {past past' : Past} (longer : past <:+ past') {lease : Lease}
    (granted : Granted past lease) : Granted past' lease := by
  obtain ⟨id, token, now, leaseUntil, member⟩ := granted
  exact ⟨id, token, now, leaseUntil, longer.subset member⟩

theorem Observed.granted {past : Past} {lease : Lease} (observed : Observed past lease) :
    Granted past lease := by
  obtain ⟨id, token, now, leaseUntil, order | order⟩ := observed
  · exact ⟨id, token, now, leaseUntil, order.subset (by simp)⟩
  · exact ⟨id, token, now, leaseUntil, order.subset (by simp)⟩

/-- What the threads of the system may ask. -/
def publishing : Conduct sig where
  allows past call := match call with
    | .call (.commitReady lease _) => lease.action = .publish ∧ Observed past lease
    | .call (.record lease state _ _) => Granted past lease ∧ state ≠ .ready ∧
        (lease.action = .retire → state.ending = true)
    | .call (.stage _) | .call (.retireLogicalBinding _) | .call (.retire _) => False
    | _ => True
  credible step := match step with
    | ⟨.aborted, none⟩ => False
    | _ => True

variable {deployment : Deployment}

/-- The lease of a claim step is the one the repository granted. -/
theorem granted_of_claims {coordinator : Coordinator} {intentId : JsString} {lease : Lease}
    {step : Step sig} (claims : Claims coordinator intentId lease step) :
    ∃ token now leaseUntil, step = answered (.claim intentId token now leaseUntil) (some lease) := by
  obtain ⟨work, token, now, leaseUntil, intent, rfl, verified, -, rfl⟩ := claims
  have same : intent = work.intent := verify_eq verified
  subst same
  exact ⟨token, now, leaseUntil, rfl⟩

theorem allows_of_protocol {coordinator : Coordinator} {intentId : JsString} (past : Past)
    (call : Call) (allows : (protocol coordinator intentId).allows past call) :
    publishing.allows past call := by
  cases call with
  | clock => trivial
  | newId => trivial
  | aborted => trivial
  | call port =>
      obtain ⟨-, permitted⟩ := allows
      cases port with
      | commitReady lease now =>
          obtain ⟨-, claim, claims, publishing, order⟩ := permitted
          obtain ⟨token, now', leaseUntil, rfl⟩ := granted_of_claims claims
          exact ⟨publishing, intentId, token, now', leaseUntil, order⟩
      | record lease state code next =>
          obtain ⟨⟨claim, mine, claims⟩, unready, ending⟩ := permitted
          obtain ⟨token, now', leaseUntil, rfl⟩ := granted_of_claims claims
          exact ⟨⟨intentId, token, now', leaseUntil, mine⟩, unready, ending⟩
      | stage intent => exact permitted
      | retireLogicalBinding binding => exact permitted
      | retire binding => exact permitted
      | _ => trivial

theorem project_follows (binding : Binding) :
    Follows publishing (deployment.coordinator.project binding) []
      (returning fun projected past' => ∀ url, projected.1 = some url →
        ∃ intent, answered (.readCurrent binding) (some (intent, .ready)) ∈ past' ∧
          intent.binding = binding ∧ intent.target.url = url) := by
  unfold Coordinator.project
  refine Follows.check_bind (fun checked authorized => ?_) fun _ => trivial
  have same := authorizedBinding_eq authorized
  subst same
  refine Follows.seq (fun row past' => past' = [answered (.readCurrent checked) row]) ?_ ?_
    fun _ _ _ => trivial
  · refine ⟨trivial, fun reply _ => ?_⟩
    cases reply with
    | none => exact trivial
    | some outcome =>
        cases outcome with
        | ok answer => exact rfl
        | error fault => exact trivial
  · rintro row _ - rfl
    cases row with
    | none =>
        intro url shown
        cases shown
    | some found =>
        obtain ⟨intent, state⟩ := found
        refine Follows.check_bind (fun verified passed => ?_) fun _ => trivial
        have same := verify_eq passed
        subst same
        split
        · trivial
        · rename_i equal
          intro url shown
          simp only at shown
          split at shown
          · rename_i isReady
            cases shown
            rw [isReady]
            exact ⟨_, List.mem_cons_self, not_not.mp equal, rfl⟩
          · cases shown

/-- A `project` that shows a URL has read it from the current, ready intent. -/
theorem launch_project_obeys (binding : Binding) :
    Program.Obeys publishing (launch deployment (.project binding)) [] fun outcome past' =>
      ∀ url shown, outcome = .ok (.projected (some url) shown) →
        ∃ intent, answered (.readCurrent binding) (some (intent, .ready)) ∈ past' ∧
          intent.binding = binding ∧ intent.target.url = url := by
  refine Follows.seq _ (project_follows binding) ?_ ?_
  · rintro ⟨projected, state⟩ past' - read url shown same
    cases same
    exact read url rfl
  · intro fault past' _ url shown same
    cases same

theorem launch_obeys (request : Request) :
    Program.Obeys publishing (launch deployment request) [] fun _ _ => True := by
  cases request with
  | run intentId =>
      have run := Program.obeys_lax (run_follows deployment.coordinator intentId)
        allows_of_protocol fun step credible => credible
      exact Follows.seq _ run (fun _ _ _ _ => trivial) fun _ _ _ => trivial
  | project binding =>
      exact Follows.seq _ (project_follows binding) (fun _ _ _ _ => trivial) fun _ _ _ => trivial

/-! ## Transactions -/

/-- Nothing was changed yet. -/
def Unchanged (past : Past) : Prop :=
  ∀ step ∈ past, step.call = .clock ∨ step.call = .newId ∨ step.call = .call .resolve

theorem Unchanged.cons {past : Past} (unchanged : Unchanged past) {step : Step sig}
    (reads : step.call = .clock ∨ step.call = .newId ∨ step.call = .call .resolve) :
    Unchanged (step :: past) := by
  intro step' member
  rcases List.mem_cons.mp member with rfl | old
  · exact reads
  · exact unchanged step' old

/-- A transaction changes the rows at most once, and an intent it stages has an id it drew. -/
def staging : Conduct sig where
  allows past call := match call with
    | .call (.stage intent) =>
        Unchanged past ∧ (⟨.newId, some intent.id⟩ : Step sig) ∈ past
    | .call (.retireLogicalBinding _) | .call (.retire _) => Unchanged past
    | .clock | .newId | .call .resolve => True
    | _ => False
  credible _ := True

theorem staging_call {past : Past} {port : Port} (allows : staging.allows past (.call port)) :
    Follows staging (call port) past
      (returning fun answer past' => past' = answered port answer :: past) := by
  refine ⟨allows, fun reply _ => ?_⟩
  cases reply with
  | none => exact trivial
  | some outcome =>
      cases outcome with
      | ok answer => exact rfl
      | error fault => exact trivial

theorem stage_follows : Follows staging deployment.coordinator.stage [] anyhow := by
  have resolved : ∀ resolution, Unchanged [answered .resolve resolution] := by
    intro resolution step member
    rw [List.mem_singleton] at member
    subst member
    exact .inr (.inr rfl)
  unfold Coordinator.stage
  refine Follows.seq _ (staging_call trivial) ?_ fun _ _ _ => trivial
  rintro resolution _ - rfl
  cases resolution with
  | privateFile binding =>
      refine Follows.check_bind (fun binding _ => ?_) fun _ => trivial
      exact Follows.seq _ (staging_call (resolved _)) (fun _ _ _ _ => trivial) fun _ _ _ => trivial
  | other binding => exact Follows.check_bind (fun _ _ => trivial) fun _ => trivial
  | publicFile binding source =>
      refine Follows.check_bind (fun binding _ => ?_) fun _ => trivial
      refine Follows.check_bind (fun source _ => ?_) fun _ => trivial
      refine Follows.check_bind (fun target _ => ?_) fun _ => trivial
      refine Follows.ask_bind trivial (fun id _ => ?_) fun _ => trivial
      refine Follows.ask_bind trivial (fun createdAt _ => ?_) fun _ => trivial
      refine Follows.check_bind (fun intent verified => ?_) fun _ => trivial
      have same := verify_eq verified
      subst same
      refine Follows.seq _ (staging_call ⟨?_, by simp⟩) (fun stored _ _ _ => ?_)
        fun _ _ _ => trivial
      · exact ((resolved _).cons (.inr (.inl rfl))).cons (.inl rfl)
      refine Follows.check_bind (fun stored _ => ?_) fun _ => trivial
      split <;> trivial

theorem retire_follows (binding : Binding) :
    Follows staging (deployment.coordinator.retire binding) [] anyhow := by
  unfold Coordinator.retire
  refine Follows.check_bind (fun binding _ => ?_) fun _ => trivial
  exact Follows.mono (staging_call fun _ member => absurd member List.not_mem_nil)
    fun result _ _ _ => by cases result <;> trivial

abbrev Rows := Keyed JsString Row Row.id

/-- A row as `stage` inserts it. -/
def Row.staged (intent : Intent) : Row := ⟨intent, .pending, none, 0, .finite 0, .finite 0⟩

/-- What a transaction that may draw the ids from `low` up to `high` can do to the rows. -/
inductive Outcome (uuid : Nat → JsString) (low high : Nat) (rows : Rows) : Rows → Prop where
  | same : Outcome uuid low high rows rows
  | retired (chosen : Row → Bool) :
      Outcome uuid low high rows (rows.update chosen Row.retireRow fun _ => rfl)
  | staged (intent : Intent) (number : Nat) (drawn : low ≤ number ∧ number < high)
      (named : intent.id = uuid number)
      (absent : ∀ row ∈ rows, row.intent.binding ≠ intent.binding) :
      Outcome uuid low high rows
        ((rows.update (fun row => row.intent.binding.logical = intent.binding.logical)
          Row.retireRow fun _ => rfl).save (Row.staged intent))

theorem Outcome.widen {uuid : Nat → JsString} {low high high' : Nat} {rows rows' : Rows}
    (outcome : Outcome uuid low high rows rows') (wider : high ≤ high') :
    Outcome uuid low high' rows rows' := by
  cases outcome with
  | same => exact .same
  | retired chosen => exact .retired chosen
  | staged intent number drawn named absent =>
      exact .staged intent number ⟨drawn.1, Nat.lt_of_lt_of_le drawn.2 wider⟩ named absent

/-- What holds during a transaction that began with `repository`. -/
structure During (uuid : Nat → JsString) (low : Nat) (repository : Repository) (past : Past)
    (world : World) : Prop where
  low_le : low ≤ world.nextId
  drawn : ∀ id, (⟨.newId, some id⟩ : Step sig) ∈ past →
    ∃ number, (low ≤ number ∧ number < world.nextId) ∧ id = uuid number
  unchanged : Unchanged past → world.repository = repository
  current : world.repository.current = repository.current
  outcome : Outcome uuid low world.nextId repository.rows world.repository.rows

theorem find_none {repository : Repository} {binding : Binding}
    (missing : repository.find binding = none) :
    ∀ row ∈ repository.rows, row.intent.binding ≠ binding := by
  intro row member
  simpa using List.find?_eq_none.mp missing row member

section Transactions

variable {low : Nat} {repository : Repository} {past : Past} {world : World}

/-- A call that changes the rows is the first that does. -/
theorem During.changed (during : During deployment.uuid low repository past world) {call : Call}
    {reply : Option call.Answer} {repository' : Repository}
    (loud : ¬ (call = .clock ∨ call = .newId ∨ call = .call .resolve))
    (current : repository'.current = repository.current)
    (outcome : Outcome deployment.uuid low world.nextId repository.rows repository'.rows) :
    During deployment.uuid low repository (⟨call, reply⟩ :: past)
      (world.setRepository repository') where
  low_le := during.low_le
  drawn id member := by
    rcases List.mem_cons.mp member with same | old
    · cases congrArg Step.call same
      exact absurd (.inr (.inl rfl)) loud
    · exact during.drawn id old
  unchanged quiet := absurd (quiet _ List.mem_cons_self) loud
  current := current
  outcome := outcome

/-- A call that changes nothing. -/
theorem During.read (during : During deployment.uuid low repository past world) {call : Call}
    {reply : Option call.Answer} (plain : call ≠ .newId) :
    During deployment.uuid low repository (⟨call, reply⟩ :: past) world where
  low_le := during.low_le
  drawn id member := by
    rcases List.mem_cons.mp member with same | old
    · exact absurd (congrArg Step.call same).symm plain
    · exact during.drawn id old
  unchanged quiet := during.unchanged fun step member => quiet step (List.mem_cons_of_mem _ member)
  current := during.current
  outcome := during.outcome

theorem During.handle (during : During deployment.uuid low repository past world)
    (resolution : Resolution) {call : Call} (allows : staging.allows past call) :
    During deployment.uuid low repository
      (⟨call, (handle deployment resolution world call).1⟩ :: past)
      (handle deployment resolution world call).2 := by
  cases call with
  | clock => exact during.read (by simp)
  | aborted => exact during.read (by simp)
  | newId =>
      refine ⟨Nat.le_succ_of_le during.low_le, fun id member => ?_, fun quiet => ?_,
        during.current, during.outcome.widen (Nat.le_succ _)⟩
      · rcases List.mem_cons.mp member with same | old
        · cases same
          exact ⟨world.nextId, ⟨during.low_le, Nat.lt_succ_self _⟩, rfl⟩
        · obtain ⟨number, ⟨least, below⟩, named⟩ := during.drawn id old
          exact ⟨number, ⟨least, Nat.lt_succ_of_lt below⟩, named⟩
      · exact during.unchanged fun step member => quiet step (List.mem_cons_of_mem _ member)
  | call port =>
      cases port with
      | resolve => exact during.read (by simp)
      | retireLogicalBinding binding =>
          have start := during.unchanged allows
          refine during.changed (by simp) ?_ ?_
          · rw [start]; rfl
          · rw [start]; exact .retired _
      | retire binding =>
          have start := during.unchanged allows
          refine during.changed (by simp) ?_ ?_
          · rw [start]; rfl
          · rw [start]; exact .retired _
      | stage intent =>
          obtain ⟨unchanged, mine⟩ := allows
          have start := during.unchanged unchanged
          obtain ⟨number, range, named⟩ := during.drawn intent.id mine
          refine during.changed (by simp) ?_ ?_
          · rw [start]
            unfold Repository.stage
            split
            · split <;> rfl
            · rfl
          · rw [start]
            unfold Repository.stage
            split
            · split <;> exact .same
            · rename_i missing
              exact .staged intent number range named (find_none missing)
      | _ => exact allows.elim

/-- What the transaction of an assignment change does. -/
theorem transact_outcome (world : World) (transaction : Transaction) :
    world.nextId ≤ (transact deployment world transaction).2.nextId ∧
    (transact deployment world transaction).2.repository.current = world.repository.current ∧
    Outcome deployment.uuid world.nextId (transact deployment world transaction).2.nextId
      world.repository.rows (transact deployment world transaction).2.repository.rows := by
  have start : During deployment.uuid world.nextId world.repository [] world :=
    ⟨Nat.le_refl _, fun id member => absurd member List.not_mem_nil, fun _ => rfl, rfl, .same⟩
  have ends : ∀ {α : Type} {program : Job α} {resolution : Resolution},
      Follows staging program [] anyhow →
        ∃ past, During deployment.uuid world.nextId world.repository past
          (program.run.run (handle deployment resolution) world).2 := by
    intro α program resolution follows
    obtain ⟨past, -, during⟩ := Program.run_obeys
      (During deployment.uuid world.nextId world.repository)
      (fun past s call during allows => ⟨trivial, during.handle resolution allows⟩) follows start
    exact ⟨past, during⟩
  cases transaction with
  | stage resolution =>
      obtain ⟨past, during⟩ := ends stage_follows
      exact ⟨during.low_le, during.current, during.outcome⟩
  | retire binding =>
      obtain ⟨past, during⟩ := ends (retire_follows binding)
      exact ⟨during.low_le, during.current, during.outcome⟩

/-- An assignment change sets the binding or restores it, with the rows. -/
theorem withAssignment_outcome (world : World) (binding : Option Binding)
    (transaction : Transaction) :
    world.nextId ≤ (withAssignment deployment world binding transaction).nextId ∧
    Outcome deployment.uuid world.nextId
      (withAssignment deployment world binding transaction).nextId world.repository.rows
      (withAssignment deployment world binding transaction).repository.rows ∧
    ((withAssignment deployment world binding transaction).repository.current = binding ∨
      (withAssignment deployment world binding transaction).repository = world.repository) := by
  obtain ⟨more, current, outcome⟩ := transact_outcome
    (world.setRepository { world.repository with current := binding }) transaction
  unfold withAssignment
  simp only
  split
  · exact ⟨more, outcome, .inl current⟩
  · exact ⟨more, .same, .inr rfl⟩

end Transactions

end SdcoreNest.Publication
