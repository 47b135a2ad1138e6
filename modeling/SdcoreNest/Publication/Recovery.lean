/-
# Publication.Recovery -- no publication is stuck

Whatever has happened -- workers that stopped, calls that threw or took effect late, leases that were
lost -- a row that is not blocked can be brought to rest.  One more worker, when the clock has moved on by
an hour, the storage works and its calls are answered, makes the rendition of the current generation ready;
any other row is retired, by a second worker where the first finds the generation replaced.

* `Timely` -- an invariant of every run: rows carry intents that pass the checks, and times that pass;
* `Row.settle` -- what a worker alone does to a row;
* `publication_settles` -- from any reachable state.
-/
import SdcoreNest.Publication.Descriptors
import SdcoreNest.Publication.Safety
import SdcoreNest.Theory.Alone

namespace SdcoreNest.Publication

open SdcoreNest.Theory SdcoreNest.Theory.JsString SdcoreNest.Theory.Machine SdcoreNest.Theory.Program

set_option autoImplicit false

/-! ## The times that a worker gives -/

/-- A lease runs from a time that the worker read, and so does the time of the next attempt. -/
def timing (coordinator : Coordinator) : Conduct sig where
  allows past call := match call with
    | .call (.claim _ _ now leaseUntil) =>
        (⟨.clock, some now⟩ : Theory.Step sig) ∈ past ∧ leaseUntil = now.add coordinator.leaseMs
    | .call (.record _ _ _ next) =>
        ∃ now, (⟨.clock, some now⟩ : Theory.Step sig) ∈ past ∧ next = now.add coordinator.retryMs
    | .call (.stage _) | .call (.retireLogicalBinding _) | .call (.retire _) => False
    | _ => True
  credible _ := True

section

variable {coordinator : Coordinator} {past : Past} {α : Type} {owned : Lease}

/-- An allowed port call is followed, whatever it answers or throws. -/
theorem timed_call {port : Port} (allowed : (timing coordinator).allows past (.call port)) :
    Follows (timing coordinator) (call port) past anyhow := by
  refine ⟨allowed, fun reply _ => ?_⟩
  cases reply with
  | none => trivial
  | some outcome => cases outcome <;> trivial

/-- The body runs only if nothing was aborted, and what it asks is asked later. -/
theorem timed_within {body : Job α}
    (begun : ∀ past', past <:+ past' → Follows (timing coordinator) body past' anyhow) :
    Follows (timing coordinator) (Coordinator.within body) past anyhow := by
  unfold Coordinator.within
  refine Follows.ask_bind trivial (fun stopped _ => ?_) fun _ => trivial
  split
  · trivial
  · refine Follows.ask_bind trivial (fun stopped' _ => ?_) fun _ => trivial
    split
    · trivial
    · exact begun _ ((List.suffix_cons _ _).trans (List.suffix_cons _ _))

/-- The retry time is taken from the clock that was read just before. -/
theorem timed_record (state : State) (code : String) :
    Follows (timing coordinator) (coordinator.record owned state code) past anyhow := by
  refine timed_within fun past' _ => ?_
  refine Follows.ask_bind trivial (fun now _ => ?_) fun _ => trivial
  exact timed_call ⟨now, List.mem_cons_self, rfl⟩

theorem timed_recorded (state : State) (code : String) (result : Result) :
    Follows (timing coordinator) (coordinator.recorded owned state code result) past anyhow :=
  Follows.seq _ (timed_record state code) (fun _ _ _ _ => trivial) fun _ _ _ => trivial

theorem timed_acknowledge : Follows (timing coordinator) (coordinator.acknowledge owned) past anyhow := by
  refine Follows.seq _ (timed_within fun past' _ => ?_) (fun result past' _ _ => ?_) fun _ _ _ => trivial
  · exact Follows.ask_bind trivial (fun now _ => timed_call trivial) fun _ => trivial
  · cases result with
    | stale => exact timed_recorded _ _ _
    | _ => trivial

theorem timed_remove : Follows (timing coordinator) (coordinator.remove owned) past anyhow := by
  refine Follows.seq _ (timed_within fun past' _ => timed_call trivial) (fun removed past' _ _ => ?_)
    fun _ _ _ => trivial
  cases removed <;> exact timed_recorded _ _ _

theorem timed_write : Follows (timing coordinator) (coordinator.write owned) past anyhow := by
  refine Follows.seq _ (timed_within fun past' _ => timed_call trivial) (fun current past' _ _ => ?_)
    fun _ _ _ => trivial
  split
  · exact timed_recorded _ _ _
  · refine Follows.seq _ (timed_within fun past' _ => timed_call trivial) (fun written past' _ _ => ?_)
      fun _ _ _ => trivial
    cases written with
    | unknown => exact timed_recorded _ _ _
    | acknowledged => exact timed_acknowledge

theorem timed_inspected : Follows (timing coordinator) (coordinator.inspected owned) past anyhow := by
  refine Follows.seq _ (timed_within fun past' _ => timed_call trivial) (fun observed past' _ _ => ?_)
    fun _ _ _ => trivial
  cases observed with
  | conflict => exact timed_recorded _ _ _
  | unknown => exact timed_recorded _ _ _
  | other => trivial
  | matching =>
      simp only
      split
      · exact timed_remove
      · exact timed_acknowledge
  | absent =>
      simp only
      split
      · exact timed_recorded _ _ _
      · exact timed_write

theorem timed_work : Follows (timing coordinator) (coordinator.work owned) past anyhow := by
  refine Follows.ask_bind trivial (fun now _ => ?_) fun _ => trivial
  split
  · trivial
  split
  · refine Follows.seq _ (timed_within fun past' _ => timed_call trivial) (fun current past' _ _ => ?_)
      fun _ _ _ => trivial
    split
    · exact timed_recorded _ _ _
    · exact timed_inspected
  · exact timed_inspected

/-- The lease runs from the reading that `run` made. -/
theorem timed_claimWork {intentId : JsString} {now : JsNumber}
    (known : (⟨.clock, some now⟩ : Theory.Step sig) ∈ past) :
    Follows (timing coordinator) (coordinator.claimWork intentId now) past anyhow := by
  refine Follows.seq _ (timed_within fun past' longer => ?_) (fun work past' _ _ => ?_) fun _ _ _ => trivial
  · refine Follows.ask_bind trivial (fun token _ => ?_) fun _ => trivial
    refine Follows.check_bind (fun token' _ => ?_) fun _ => trivial
    exact timed_call ⟨.tail _ (longer.subset known), rfl⟩
  · cases work with
    | none => trivial
    | some work =>
        refine Follows.check_bind (fun intent _ => ?_) fun _ => trivial
        split
        · trivial
        · exact Follows.check_bind (fun _ _ => trivial) fun _ => trivial

theorem timed_recover : Follows (timing coordinator) (coordinator.recover owned) past anyhow := by
  refine Follows.ask_bind trivial (fun stopped _ => ?_) fun _ => trivial
  split
  · trivial
  · refine Follows.catching ?_ (fun _ _ _ => trivial) fun _ _ _ => trivial
    exact Follows.seq _ (timed_record _ _) (fun _ _ _ _ => trivial) fun _ _ _ => trivial

/-- A run reads the clock before it claims, and again before it records. -/
theorem timed_run (intentId : JsString) :
    Follows (timing coordinator) (coordinator.run intentId) [] anyhow := by
  refine Follows.check_bind (fun _ _ => ?_) fun _ => trivial
  refine Follows.ask_bind trivial (fun now _ => ?_) fun _ => trivial
  refine Follows.seq (fun _ _ => True) ?_ (fun claimed past' _ _ => ?_) fun _ _ _ => trivial
  · refine Follows.catching (timed_claimWork List.mem_cons_self) (fun _ _ _ => trivial)
      fun fault past' _ => ?_
    cases fault with
    | other => trivial
    | publication code =>
        simp only [Coordinator.unowned]
        split <;> trivial
  · cases claimed with
    | inl result => trivial
    | inr owned =>
        exact Follows.catching timed_work (fun _ _ _ => trivial) fun _ _ _ => timed_recover

end

variable {deployment : Deployment}

/-- Every request keeps to the timing, whatever it is answered. -/
theorem timed_launch (request : Request) :
    Program.Obeys (timing deployment.coordinator) (launch deployment request) [] fun _ _ => True := by
  cases request with
  | run intentId => exact Follows.seq _ (timed_run intentId) (fun _ _ _ _ => trivial) fun _ _ _ => trivial
  | project binding =>
      refine Follows.seq (fun _ _ => True) ?_ (fun _ _ _ _ => trivial) fun _ _ _ => trivial
      refine Follows.check_bind (fun _ _ => ?_) fun _ => trivial
      refine Follows.seq _ (timed_call trivial) (fun row past' _ _ => ?_) fun _ _ _ => trivial
      cases row with
      | none => trivial
      | some found =>
          refine Follows.check_bind (fun _ _ => ?_) fun _ => trivial
          split <;> trivial

/-! ## What rows carry -/

/-- No time yet, or a period on from a time that has been. -/
inductive Given (period : JsNumber) (clock : Int) : JsNumber → Prop where
  | never : Given period clock (.finite 0)
  | read (now : Nat) (been : (now : Int) ≤ clock) : Given period clock ((JsNumber.finite now).add period)

/-- A time given by a clock stays given as the clock goes on. -/
theorem Given.later {period time : JsNumber} {clock clock' : Int} (given : Given period clock time)
    (later : clock ≤ clock') : Given period clock' time := by
  cases given with
  | never => exact .never
  | read now been => exact .read now (been.trans later)

/-- The intent passes the checks, and the times of the row pass. -/
structure Row.Kept (coordinator : Coordinator) (clock : Int) (row : Row) : Prop where
  verified : coordinator.verify row.intent = .ok row.intent
  next : Given coordinator.retryMs clock row.next
  leaseUntil : Given coordinator.leaseMs clock row.leaseUntil

namespace Row.Kept

variable {coordinator : Coordinator} {clock : Int} {row : Row}

theorem later {clock' : Int} (kept : row.Kept coordinator clock) (later : clock ≤ clock') :
    row.Kept coordinator clock' :=
  ⟨kept.verified, kept.next.later later, kept.leaseUntil.later later⟩

theorem retireRow (kept : row.Kept coordinator clock) : row.retireRow.Kept coordinator clock :=
  ⟨kept.verified, .never, .never⟩

end Row.Kept

def KeptRows (coordinator : Coordinator) (world : World) : Prop :=
  ∀ row ∈ world.repository.rows, row.Kept coordinator world.clock

/-- Saving a kept row keeps the rows. -/
theorem keptRows_save {coordinator : Coordinator} {world : World} (kept : KeptRows coordinator world)
    {row : Row} (new : row.Kept coordinator world.clock) :
    KeptRows coordinator (world.setRepository (world.repository.save row)) := by
  intro other member
  rcases Keyed.mem_save.mp member with rfl | ⟨old, -⟩
  · exact new
  · exact kept other old

/-- A retired row is due at once: its times are zero. -/
theorem keptRows_retireWhere {coordinator : Coordinator} {world : World} (kept : KeptRows coordinator world)
    (chosen : Row → Bool) :
    KeptRows coordinator (world.setRepository (world.repository.retireWhere chosen)) := by
  intro other member
  obtain ⟨row, there, rfl⟩ := (@Keyed.mem_update _ _ _ _ chosen Row.retireRow (fun _ => rfl) _).mp member
  change (if chosen row then row.retireRow else row).Kept coordinator world.clock
  split
  · exact (kept row there).retireRow
  · exact kept row there

/-! ### Assignment changes -/

/-- A transaction stages intents that pass the checks. -/
def verifying (coordinator : Coordinator) : Conduct sig where
  allows _ call := match call with
    | .call (.stage intent) => coordinator.verify intent = .ok intent
    | .call .resolve | .call (.retireLogicalBinding _) | .call (.retire _) | .clock | .newId => True
    | _ => False
  credible _ := True

section

variable {coordinator : Coordinator} {past : Past}

theorem verifying_call {port : Port} (allowed : (verifying coordinator).allows past (.call port)) :
    Follows (verifying coordinator) (call port) past anyhow := by
  refine ⟨allowed, fun reply _ => ?_⟩
  cases reply with
  | none => trivial
  | some outcome => cases outcome <;> trivial

/-- What `stage` hands over has passed `verify`. -/
theorem verifying_stage : Follows (verifying coordinator) coordinator.stage [] anyhow := by
  unfold Coordinator.stage
  refine Follows.seq _ (verifying_call trivial) (fun resolution past' _ _ => ?_) fun _ _ _ => trivial
  cases resolution with
  | privateFile binding =>
      refine Follows.check_bind (fun binding _ => ?_) fun _ => trivial
      exact Follows.seq _ (verifying_call trivial) (fun _ _ _ _ => trivial) fun _ _ _ => trivial
  | other binding => exact Follows.check_bind (fun _ _ => trivial) fun _ => trivial
  | publicFile binding source =>
      refine Follows.check_bind (fun binding _ => ?_) fun _ => trivial
      refine Follows.check_bind (fun source _ => ?_) fun _ => trivial
      refine Follows.check_bind (fun target _ => ?_) fun _ => trivial
      refine Follows.ask_bind trivial (fun id _ => ?_) fun _ => trivial
      refine Follows.ask_bind trivial (fun createdAt _ => ?_) fun _ => trivial
      refine Follows.check_bind (fun intent verified => ?_) fun _ => trivial
      obtain rfl := verify_eq verified
      refine Follows.seq _ (verifying_call verified) (fun stored _ _ _ => ?_) fun _ _ _ => trivial
      refine Follows.check_bind (fun stored _ => ?_) fun _ => trivial
      split <;> trivial

theorem verifying_retire (binding : Binding) :
    Follows (verifying coordinator) (coordinator.retire binding) [] anyhow :=
  Follows.check_bind (fun _ _ => verifying_call trivial) fun _ => trivial

end

/-- What changes when a transaction runs. -/
structure Steady (coordinator : Coordinator) (first later : World) : Prop where
  clock : later.clock = first.clock
  aborted : later.aborted = first.aborted
  kept : KeptRows coordinator later

theorem Steady.handle {first world : World} (steady : Steady deployment.coordinator first world)
    (resolution : Resolution) {past : Past} {call : Call}
    (allowed : (verifying deployment.coordinator).allows past call) :
    Steady deployment.coordinator first (handle deployment resolution world call).2 := by
  obtain ⟨clock, aborted, kept⟩ := steady
  cases call with
  | clock => exact ⟨clock, aborted, kept⟩
  | newId => exact ⟨clock, aborted, kept⟩
  | aborted => exact allowed.elim
  | call port =>
      cases port with
      | resolve => exact ⟨clock, aborted, kept⟩
      | retireLogicalBinding binding => exact ⟨clock, aborted, keptRows_retireWhere kept _⟩
      | retire binding => exact ⟨clock, aborted, keptRows_retireWhere kept _⟩
      | stage intent =>
          refine ⟨clock, aborted, ?_⟩
          change KeptRows deployment.coordinator (world.setRepository (world.repository.stage intent).2)
          unfold Repository.stage
          split
          · split <;> exact kept
          · exact keptRows_save (keptRows_retireWhere kept _) ⟨allowed, .never, .never⟩
      | _ => exact allowed.elim

theorem steady_withAssignment {world : World} (kept : KeptRows deployment.coordinator world)
    (binding : Option Binding) (transaction : Transaction) :
    Steady deployment.coordinator world (withAssignment deployment world binding transaction) := by
  have ends {α : Type} {program : Job α} {resolution : Resolution}
      (follows : Follows (verifying deployment.coordinator) program [] anyhow) :
      Steady deployment.coordinator world (program.run.run (handle deployment resolution)
        (world.setRepository { world.repository with current := binding })).2 := by
    have start : Steady deployment.coordinator world
        (world.setRepository { world.repository with current := binding }) := ⟨rfl, rfl, kept⟩
    obtain ⟨past, -, steady⟩ := Program.run_obeys (fun _ => Steady deployment.coordinator world)
      (fun past s call steady allowed => ⟨trivial, steady.handle resolution allowed⟩) follows start
    exact steady
  have ended : Steady deployment.coordinator world (transact deployment
      (world.setRepository { world.repository with current := binding }) transaction).2 := by
    cases transaction with
    | stage resolution => exact ends verifying_stage
    | retire retired => exact ends (verifying_retire retired)
  unfold withAssignment
  simp only
  split
  · exact ended
  · exact ⟨ended.clock, ended.aborted, fun row member => ended.clock ▸ kept row member⟩

/-! ### Calls of workers -/

/-- The clock readings that a worker knows. -/
def ReadBy (past : Past) (clock : Int) : Prop :=
  ∀ now, (⟨.clock, some now⟩ : Theory.Step sig) ∈ past →
    ∃ read : Nat, now = .finite read ∧ (read : Int) ≤ clock

theorem ReadBy.given {past : Past} {clock : Int} (reads : ReadBy past clock) {now : JsNumber}
    (known : (⟨.clock, some now⟩ : Theory.Step sig) ∈ past) (period : JsNumber) :
    Given period clock (now.add period) := by
  obtain ⟨read, rfl, been⟩ := reads now known
  exact .read read been

/-- One call of a worker, by the port it goes to: its times come from clock readings. -/
theorem steady_exec {world : World} (kept : KeptRows deployment.coordinator world) {worker : Worker}
    {call : Call} {past : Past} (allowed : (timing deployment.coordinator).allows past call)
    (reads : ReadBy past world.clock) :
    Steady deployment.coordinator world (exec deployment world worker call).2 := by
  cases call with
  | clock => exact ⟨rfl, rfl, kept⟩
  | newId => exact ⟨rfl, rfl, kept⟩
  | aborted => exact ⟨rfl, rfl, kept⟩
  | call port =>
      change Steady deployment.coordinator world (world.call port).2
      rcases call_world world port with idle | served
      · rw [idle]
        exact ⟨rfl, rfl, kept⟩
      rw [served]
      cases port with
      | claim id token now leaseUntil =>
          obtain ⟨known, rfl⟩ := allowed
          refine ⟨rfl, rfl, ?_⟩
          change KeptRows _ (world.setRepository (world.repository.claim id token now _).2)
          rcases claim_cases world.repository id token now (now.add deployment.coordinator.leaseMs) with
            none' | ⟨row, member, -, -, some'⟩
          · rw [none']
            exact kept
          · rw [some']
            obtain ⟨verified, next, -⟩ := kept row member
            exact keptRows_save kept ⟨verified, next, reads.given known _⟩
      | commitReady lease now =>
          refine ⟨rfl, rfl, ?_⟩
          change KeptRows _ (world.setRepository (world.repository.commitReady world.now lease now).2)
          rcases commitReady_cases world.repository world.now lease now with same | ⟨row, held, -, -, saved⟩
          · rw [same]
            exact kept
          · rw [saved]
            obtain ⟨verified, next, leaseUntil⟩ := kept row (owned_eq_some held).1
            exact keptRows_save kept ⟨verified, next, leaseUntil⟩
      | record lease state code next =>
          obtain ⟨now, known, rfl⟩ := allowed
          refine ⟨rfl, rfl, ?_⟩
          change KeptRows _ (world.setRepository (world.repository.record lease state _).2)
          rcases record_cases world.repository lease state (now.add deployment.coordinator.retryMs) with
            same | ⟨row, held, saved⟩
          · rw [same]
            exact kept
          · rw [saved]
            obtain ⟨verified, -, leaseUntil⟩ := kept row (owned_eq_some held).1
            exact keptRows_save kept ⟨verified, reads.given known _, leaseUntil⟩
      | stage intent => exact allowed.elim
      | retireLogicalBinding binding => exact allowed.elim
      | retire binding => exact allowed.elim
      | _ => exact ⟨rfl, rfl, kept⟩

/-! ## The invariant -/

structure Timely (core : SystemCore deployment) : Prop where
  due : core.Due (timing deployment.coordinator)
  since : 0 ≤ (worldOf core).clock
  reads : ∀ worker, ReadBy (core.pastOf worker) (worldOf core).clock
  kept : KeptRows deployment.coordinator (worldOf core)
  /-- Processes whose signal is not aborted. -/
  willing : ∃ bound, ∀ worker : Worker, bound ≤ worker.process → (worldOf core).aborted worker = false

/-- At the start there are no rows to ask about. -/
theorem timely_initial {time : Int} (since : 0 ≤ time) :
    Timely (⟨World.initial time, [], []⟩ : SystemCore deployment) where
  due _ _ member := absurd member List.not_mem_nil
  since := since
  reads _ _ member := absurd member List.not_mem_nil
  kept row member := absurd member (Keyed.not_mem_empty row)
  willing := ⟨0, fun _ _ => rfl⟩

/-- A step either leaves the clock alone or only moves it on. -/
theorem Timely.steady {core core' : SystemCore deployment} {act : Act (machine deployment)}
    {ok : SystemCore deployment → Act (machine deployment) → Prop} (timely : Timely core)
    (admitted : Core.Admits (timing deployment.coordinator) ok core act core') :
    (Steady deployment.coordinator (worldOf core) (worldOf core')) ∨
      (∃ ms, act = .move (.advance ms) ∧
        worldOf core' = { worldOf core with clock := (worldOf core).clock + ms }) ∨
      ∃ worker, act = .move (.abort worker) ∧ worldOf core' =
        { worldOf core with
          aborted := fun other => if other = worker then true else (worldOf core).aborted other } := by
  cases performed : act.performed with
  | some done =>
      obtain ⟨worker, call⟩ := done
      obtain ⟨past, issued, suffix, allowed, origin⟩ := admitted.allowed_of_performed timely.due performed
      have asked : call = issued := by
        rcases origin with same | residual
        · exact same
        · cases issued with
          | call port => exact List.mem_singleton.mp residual
          | clock => exact absurd residual List.not_mem_nil
          | newId => exact absurd residual List.not_mem_nil
          | aborted => exact absurd residual List.not_mem_nil
      subst asked
      have after : worldOf core' = (exec deployment (worldOf core) worker call).2 :=
        admitted.world_of_performed performed
      rw [after]
      refine .inl ?_
      exact steady_exec timely.kept allowed fun now known => timely.reads worker now (suffix.subset known)
  | none =>
      rcases admitted.world_of_idle performed with same | ⟨m, rfl, moved⟩
      · have after : worldOf core' = worldOf core := same
        rw [after]
        exact .inl ⟨rfl, rfl, timely.kept⟩
      · cases m with
        | advance ms => exact .inr (.inl ⟨ms, rfl, (Option.some.inj moved).symm⟩)
        | abort worker => exact .inr (.inr ⟨worker, rfl, (Option.some.inj moved).symm⟩)
        | storage observation acknowledgement =>
            have after : worldOf core' = { worldOf core with observation, acknowledgement } :=
              (Option.some.inj moved).symm
            rw [after]
            exact .inl ⟨rfl, rfl, timely.kept⟩
        | mishap mishap =>
            have after : worldOf core' = { worldOf core with mishap } := (Option.some.inj moved).symm
            rw [after]
            exact .inl ⟨rfl, rfl, timely.kept⟩
        | withAssignment binding transaction =>
            have after : worldOf core' = withAssignment deployment (worldOf core) binding transaction :=
              (Option.some.inj moved).symm
            rw [after]
            exact .inl (steady_withAssignment timely.kept binding transaction)

/-- **The step lemma.** -/
theorem Timely.admits {core core' : SystemCore deployment} {act : Act (machine deployment)}
    {ok : SystemCore deployment → Act (machine deployment) → Prop} (timely : Timely core)
    (admitted : Core.Admits (timing deployment.coordinator) ok core act core') : Timely core' := by
  have world := timely.steady admitted
  have onward : (worldOf core).clock ≤ (worldOf core').clock := by
    rcases world with steady | ⟨ms, -, same⟩ | ⟨worker, -, same⟩
    · exact le_of_eq steady.clock.symm
    · rw [same]
      exact Int.le_add_of_nonneg_right (Int.natCast_nonneg ms)
    · rw [same]
  refine ⟨timely.due.admits admitted, timely.since.trans onward, fun worker now known => ?_, ?_, ?_⟩
  · rcases admitted.answered known with old | ⟨-, answer, -⟩
    · obtain ⟨read, same, been⟩ := timely.reads worker now old
      exact ⟨read, same, been.trans onward⟩
    · refine ⟨(worldOf core).clock.toNat, ?_, ?_⟩
      · rw [answer]
        change JsNumber.finite ((worldOf core).clock : ℚ) = _
        rw [← Int.toNat_of_nonneg timely.since]
        rfl
      · rw [Int.toNat_of_nonneg timely.since]
        exact onward
  · rcases world with steady | ⟨ms, -, same⟩ | ⟨worker, -, same⟩
    · exact steady.kept
    · rw [same]
      exact fun row member =>
        (timely.kept row member).later (Int.le_add_of_nonneg_right (Int.natCast_nonneg ms))
    · rw [same]
      exact timely.kept
  · obtain ⟨bound, willing⟩ := timely.willing
    rcases world with steady | ⟨ms, -, same⟩ | ⟨stopped, -, same⟩
    · exact ⟨bound, fun worker far => steady.aborted ▸ willing worker far⟩
    · exact ⟨bound, fun worker far => same ▸ willing worker far⟩
    · refine ⟨max bound (stopped.process + 1), fun worker far => ?_⟩
      rw [same]
      have other : worker ≠ stopped := by
        rintro rfl
        omega
      exact (if_neg other).trans (willing worker (le_of_max_le_left far))

theorem timely_keeps {ok : SystemCore deployment → Act (machine deployment) → Prop} :
    Keeps (timing deployment.coordinator) ok (@Timely deployment) where
  admits timely admitted := timely.admits admitted
  credible _ _ _ := trivial

/-! ## A worker alone -/

section

variable (deployment : Deployment) (worker : Worker)

def runs {α : Type} (world : World) (p : Job α) : Except Fault α × World :=
  run ((machine deployment).answering worker) p.run world

variable {deployment worker} {world : World} {α β : Type}

/-- The value and the world of the first part go to the second; a fault skips it. -/
theorem runs_bind (p : Job α) (f : α → Job β) : runs deployment worker world (p >>= f) =
    andThen (runs deployment worker world p) fun value world => runs deployment worker world (f value) :=
  run_seq p f world

theorem runs_tryCatch (p : Job α) (handler : Fault → Job α) :
    runs deployment worker world (tryCatch p handler) =
      orHandle (runs deployment worker world p) fun fault world =>
        runs deployment worker world (handler fault) :=
  run_tryCatch p handler world

theorem runs_clock : runs deployment worker world clock = (.ok world.now, world) := rfl

theorem runs_newId : runs deployment worker world newId =
    (.ok (deployment.uuid world.nextId), { world with nextId := world.nextId + 1 }) := rfl

theorem runs_aborted : runs deployment worker world aborted = (.ok (world.aborted worker), world) := rfl

theorem runs_port (port : Port) :
    runs deployment worker world (call port) = world.call port := rfl

theorem runs_check (result : Except Fault α) :
    runs deployment worker world (check result) = (result, world) := rfl

/-- The storage works, nothing throws, and the worker is not stopped. -/
structure Calm (worker : Worker) (world : World) : Prop where
  mishap : world.mishap = none
  running : world.aborted worker = false
  observation : world.observation = .absent ∨ world.observation = .matching
  acknowledgement : world.acknowledgement = .acknowledged

theorem runs_call (calm : Calm worker world) (port : Port) :
    runs deployment worker world (call port) = world.serve port := by
  rw [runs_port, World.call, calm.mishap]

/-- Nobody aborted, so the two looks at the signal change nothing. -/
theorem runs_within (calm : Calm worker world) (body : Job α) :
    runs deployment worker world (Coordinator.within body) = runs deployment worker world body := by
  unfold Coordinator.within
  rw [runs_bind, runs_aborted, andThen_ok, calm.running, if_neg Bool.false_ne_true, runs_bind, runs_aborted,
    andThen_ok, calm.running, if_neg Bool.false_ne_true]

/-! ### With a lease -/

variable {lease : Lease} {row : Row}

/-- Recording saves the row that the lease holds. -/
theorem runs_recorded (calm : Calm worker world) (held : world.repository.owned lease = some row)
    (state : State) (code : String) (result : Result) :
    runs deployment worker world (deployment.coordinator.recorded lease state code result) =
      (.ok result, world.setRepository (world.repository.save
        (row.recorded state (world.now.add deployment.coordinator.retryMs)))) := by
  have kept : world.repository.record lease state (world.now.add deployment.coordinator.retryMs) =
      (true, world.repository.save (row.recorded state (world.now.add deployment.coordinator.retryMs))) := by
    rw [Repository.record, held]
  rw [Coordinator.recorded, runs_bind, Coordinator.record, runs_within calm, runs_bind, runs_clock,
    andThen_ok, runs_call calm]
  simp only [World.serve, kept, andThen_ok]
  rfl

theorem runs_isCurrent (calm : Calm worker world) (held : world.repository.owned lease = some row) :
    runs deployment worker world (Coordinator.within (call (.isCurrent lease))) =
      (.ok (decide (world.repository.current = some lease.intent.binding)), world) := by
  rw [runs_within calm, runs_call calm]
  simp only [World.serve, Repository.isCurrent, held, Option.isSome_some, Bool.true_and]

/-- An acknowledgement in a calm world makes the current row ready. -/
theorem runs_acknowledge (calm : Calm worker world) (held : world.repository.owned lease = some row)
    (unexpired : row.leaseUntil.le world.now = false)
    (current : world.repository.current = some lease.intent.binding) :
    runs deployment worker world (deployment.coordinator.acknowledge lease) =
      (.ok .ready, world.setRepository (world.repository.save row.committed)) := by
  have ready : world.repository.commitReady world.now lease world.now =
      (.ready, world.repository.save row.committed) := by
    rw [Repository.commitReady, held]
    simp only [unexpired, Bool.or_self, Bool.false_eq_true, if_false, current, ne_eq, not_true_eq_false]
  rw [Coordinator.acknowledge, runs_bind, runs_within calm, runs_bind, runs_clock, andThen_ok, runs_call calm]
  simp only [World.serve, ready, andThen_ok]
  rfl

theorem runs_inspect (calm : Calm worker world) (next : Observation → Job α) :
    runs deployment worker world (Coordinator.within (call (.inspect lease.intent)) >>= next) =
      runs deployment worker world (next world.observation) := by
  rw [runs_bind, runs_within calm, runs_call calm]
  simp only [World.serve, andThen_ok]

/-- A removal in a calm world retires the row. -/
theorem runs_remove (calm : Calm worker world) (held : world.repository.owned lease = some row) :
    runs deployment worker world (deployment.coordinator.remove lease) =
      (.ok .retired, world.setRepository (world.repository.save
        (row.recorded .retired (world.now.add deployment.coordinator.retryMs)))) := by
  rw [Coordinator.remove, runs_bind, runs_within calm, runs_call calm]
  simp only [World.serve, calm.acknowledgement, andThen_ok]
  exact runs_recorded calm held _ _ _

/-- A write in a calm world ends in the acknowledgement. -/
theorem runs_write (calm : Calm worker world) (held : world.repository.owned lease = some row)
    (unexpired : row.leaseUntil.le world.now = false)
    (current : world.repository.current = some lease.intent.binding) :
    runs deployment worker world (deployment.coordinator.write lease) =
      (.ok .ready, world.setRepository (world.repository.save row.committed)) := by
  rw [Coordinator.write, runs_bind, runs_isCurrent calm held, andThen_ok, decide_eq_true current]
  simp only [Bool.not_true, Bool.false_eq_true, if_false]
  rw [runs_bind, runs_within calm, runs_call calm]
  simp only [World.serve, calm.acknowledgement, andThen_ok]
  exact runs_acknowledge calm held unexpired current

/-- The row that a worker leaves. -/
def Row.settle (row : Row) (current : Bool) (next : JsNumber) : Row :=
  if row.action = .retire then row.recorded .retired next
  else if current then row.committed
  else row.recorded .retiring next

def Row.verdict (row : Row) (current : Bool) : Result :=
  if row.action = .retire then .retired else if current then .ready else .pending

/-- What one worker brings about with a live lease: the case split is over the action of the row
and over the observation. -/
theorem runs_work (calm : Calm worker world) (held : world.repository.owned lease = some row)
    (same : lease.action = row.action) (running : lease.leaseUntil.le world.now = false)
    (unexpired : row.leaseUntil.le world.now = false) :
    runs deployment worker world (deployment.coordinator.work lease) =
      (.ok (row.verdict (decide (world.repository.current = some lease.intent.binding))),
        world.setRepository (world.repository.save
          (row.settle (decide (world.repository.current = some lease.intent.binding))
            (world.now.add deployment.coordinator.retryMs)))) := by
  rw [Coordinator.work, runs_bind, runs_clock, andThen_ok, running, if_neg Bool.false_ne_true]
  by_cases retires : row.action = .retire
  · rw [if_neg (by rw [same, retires]; decide), Coordinator.inspected, runs_inspect calm, Row.verdict,
      Row.settle, if_pos retires, if_pos retires]
    rcases calm.observation with absent | there
    · simp only [absent, same, if_pos retires]
      exact runs_recorded calm held _ _ _
    · simp only [there, same, if_pos retires]
      exact runs_remove calm held
  have publishes : lease.action = .publish := by
    rw [same]
    unfold Row.action at retires ⊢
    split
    next ends => exact absurd (if_pos ends) retires
    next => rfl
  rw [if_pos publishes, runs_bind, runs_isCurrent calm held, andThen_ok, Row.verdict, Row.settle,
    if_neg retires, if_neg retires]
  by_cases current : world.repository.current = some lease.intent.binding
  · rw [decide_eq_true current]
    simp only [Bool.not_true, Bool.false_eq_true, if_false, if_true]
    rw [Coordinator.inspected, runs_inspect calm]
    rcases calm.observation with absent | there
    · simp only [absent, same, if_neg retires]
      exact runs_write calm held unexpired current
    · simp only [there, same, if_neg retires]
      exact runs_acknowledge calm held unexpired current
  · rw [decide_eq_false current]
    simp only [Bool.not_false, if_true, Bool.false_eq_true, if_false]
    exact runs_recorded calm held _ _ _

/-! ### From the claim on -/

theorem isSafeInteger_natCast {n : Nat} (small : n ≤ 9007199254740991) :
    (JsNumber.finite n).isSafeInteger = true := by
  rw [JsNumber.isSafeInteger, Bool.and_eq_true, decide_eq_true_eq, decide_eq_true_eq]
  refine ⟨Rat.den_natCast n, ?_⟩
  rw [abs_of_nonneg (Nat.cast_nonneg n)]
  exact_mod_cast small

/-- The states of a row decide between publishing and retiring. -/
theorem action_ne_other (row : Row) : row.action ≠ .other := by
  unfold Row.action
  split <;> decide

/-- A claim leaves the work what it is. -/
theorem action_claimed (row : Row) (token : JsString) (leaseUntil : JsNumber) :
    (row.claimed token leaseUntil).action = row.action := by
  unfold Row.claimed
  by_cases publishes : row.action = .publish
  · rw [publishes]
    rfl
  · rw [if_neg publishes]
    rfl

/-- The world after a claim. -/
def World.claimed (world : World) (row : Row) (token : JsString) (leaseUntil : JsNumber) : World :=
  { world with
    repository := world.repository.save (row.claimed token leaseUntil)
    nextId := world.nextId + 1 }

/-- Who has just claimed a row owns it. -/
theorem owned_claimed (row : Row) (token : JsString) (leaseUntil : JsNumber) :
    (world.claimed row token leaseUntil).repository.owned (row.lease token leaseUntil) =
      some (row.claimed token leaseUntil) := by
  have found : (world.repository.rows.save (row.claimed token leaseUntil)).get? row.id =
      some (row.claimed token leaseUntil) := Keyed.get?_eq_some.mpr ⟨Keyed.mem_save.mpr (.inl rfl), rfl⟩
  refine Option.filter_eq_some_iff.mpr ⟨found, ?_⟩
  simp only [Row.ownedBy, Row.claimed, Row.lease, Nat.cast_add, Nat.cast_one, decide_true, Bool.and_self]

/-- The row after a whole run. -/
def Row.settled (deployment : Deployment) (world : World) (row : Row) : Row :=
  (row.claimed (deployment.uuid world.nextId) (world.now.add deployment.coordinator.leaseMs)).settle
    (decide (world.repository.current = some row.intent.binding))
    (world.now.add deployment.coordinator.retryMs)

/-- The world after a whole run. -/
def World.settled (deployment : Deployment) (world : World) (row : Row) : World :=
  let claimed := world.claimed row (deployment.uuid world.nextId)
    (world.now.add deployment.coordinator.leaseMs)
  claimed.setRepository (claimed.repository.save (row.settled deployment world))

/-- What a claim needs of the row. -/
structure Row.Claimable (deployment : Deployment) (world : World) (row : Row) : Prop where
  there : row ∈ world.repository.rows
  due : row.due world.now = true
  verified : deployment.coordinator.verify row.intent = .ok row.intent
  /-- Ids and tokens are accepted as parts. -/
  token : part (deployment.uuid world.nextId) = .ok (deployment.uuid world.nextId)
  revision : row.revision + 1 ≤ 9007199254740991
  lease : (world.now.add deployment.coordinator.leaseMs).isSafeInteger = true
  running : (world.now.add deployment.coordinator.leaseMs).le world.now = false

/-- A claimable row is claimed under the id drawn next. -/
theorem runs_claimWork (calm : Calm worker world) (claimable : row.Claimable deployment world) :
    runs deployment worker world (deployment.coordinator.claimWork row.id world.now) =
      (.ok (.inr (row.lease (deployment.uuid world.nextId) (world.now.add deployment.coordinator.leaseMs))),
        world.claimed row (deployment.uuid world.nextId) (world.now.add deployment.coordinator.leaseMs)) := by
  obtain ⟨there, due, verified, token, revision, lease, running⟩ := claimable
  have found : world.repository.rows.get? row.id = some row := Keyed.get?_eq_some.mpr ⟨there, rfl⟩
  have calm' : Calm worker { world with nextId := world.nextId + 1 } :=
    ⟨calm.mishap, calm.running, calm.observation, calm.acknowledgement⟩
  rw [Coordinator.claimWork, runs_bind, runs_within calm, runs_bind, runs_newId, andThen_ok, runs_bind,
    runs_check, token, andThen_ok, runs_call calm']
  simp only [World.serve, Repository.claim, found, due, if_true, andThen_ok]
  rw [runs_bind, runs_check]
  change andThen (deployment.coordinator.verify row.intent, _) _ = _
  have whole : (JsNumber.finite ((row.revision : ℚ) + 1)).isSafeInteger = true := by
    rw [← Nat.cast_add_one]
    exact isSafeInteger_natCast revision
  have nonnegative : (JsNumber.finite ((row.revision : ℚ) + 1)).lt (.finite 0) = false :=
    decide_eq_false (not_lt.mpr (add_nonneg (Nat.cast_nonneg _) zero_le_one))
  rw [verified, andThen_ok, if_neg, runs_bind, runs_check]
  · change andThen (part (deployment.uuid world.nextId), _) _ = _
    rw [token, andThen_ok]
    rfl
  · simp only [Row.lease, whole, nonnegative, lease, action_ne_other, ne_eq, not_true_eq_false, Bool.not_true,
      Bool.false_eq_true, or_self, not_false_eq_true]

/-- A whole run from a calm world: claim, work, and the verdict on the row. -/
theorem runs_run (calm : Calm worker world) (claimable : row.Claimable deployment world) :
    runs deployment worker world (deployment.coordinator.run row.id) =
      (.ok (row.verdict (decide (world.repository.current = some row.intent.binding))),
        world.settled deployment row) := by
  have named : part row.id = Except.ok row.id := (verify_iff.mp claimable.verified).2.2.id
  have held := @owned_claimed world row (deployment.uuid world.nextId)
    (world.now.add deployment.coordinator.leaseMs)
  have calm' : Calm worker (world.claimed row (deployment.uuid world.nextId)
      (world.now.add deployment.coordinator.leaseMs)) :=
    ⟨calm.mishap, calm.running, calm.observation, calm.acknowledgement⟩
  rw [Coordinator.run, runs_bind, runs_check, named, andThen_ok, runs_bind, runs_clock, andThen_ok, runs_bind,
    runs_tryCatch, runs_claimWork calm claimable, orHandle_ok, andThen_ok]
  simp only
  rw [runs_tryCatch, runs_work calm' held (action_claimed row _ _).symm claimable.running claimable.running,
    orHandle_ok]
  refine Prod.ext ?_ rfl
  change Except.ok (Row.verdict (row.claimed _ _) _) = _
  rw [Row.verdict, action_claimed]
  rfl

end

/-! ## Times that pass -/

/-- An hour, which is no shorter than any lease or pause. -/
def hour : Nat := 3600000

theorem validDuration_eq {value : JsNumber} (valid : validDuration value = true) :
    ∃ n : Nat, value = .finite n ∧ 1 ≤ n ∧ n ≤ hour := by
  simp only [validDuration, Bool.and_eq_true] at valid
  obtain ⟨⟨safe, low⟩, high⟩ := valid
  cases value with
  | nan => cases safe
  | infinity negative => cases safe
  | finite q =>
      simp only [JsNumber.isSafeInteger, Bool.and_eq_true, decide_eq_true_eq] at safe
      simp only [JsNumber.le, JsNumber.lt, JsNumber.finite.injEq, Bool.or_eq_true, decide_eq_true_eq,
        ← le_iff_eq_or_lt] at low high
      have whole : (q.num : ℚ) = q := Rat.coe_int_num_of_den_eq_one safe.1
      have positive : 1 ≤ q.num := by
        rw [← whole] at low
        exact_mod_cast low
      have bounded : q.num ≤ 3600000 := by
        rw [← whole] at high
        exact_mod_cast high
      obtain ⟨n, same⟩ := Int.eq_ofNat_of_zero_le (by omega : 0 ≤ q.num)
      rw [same] at whole positive bounded
      exact ⟨n, by rw [← whole, Int.cast_natCast], by exact_mod_cast positive, by exact_mod_cast bounded⟩

theorem add_natCast {n m : Nat} (small : n + m ≤ 9007199254740991) :
    (JsNumber.finite n).add (.finite m) = .finite ((n + m : Nat) : ℚ) := by
  rw [JsNumber.add, ← Nat.cast_add, JsNumber.nearest_natCast (by omega)]

theorem natCast_lt_zero (n : Nat) : (JsNumber.finite n).lt (.finite 0) = false :=
  decide_eq_false (not_lt.mpr (Nat.cast_nonneg n))

/-- A pause longer than a period outlasts every time given by it. -/
theorem passed_natCast {read period now pause : Nat} (been : read ≤ now) (short : period ≤ pause)
    (small : now + pause ≤ 9007199254740991) :
    (JsNumber.finite ((now + pause : Nat) : ℚ)).lt ((JsNumber.finite read).add (.finite period)) = false := by
  have order : read + period ≤ now + pause := by omega
  rw [add_natCast (by omega)]
  exact decide_eq_false (not_lt.mpr (Nat.cast_le.mpr order))

/-- An hour later the time has passed. -/
theorem Given.passed {period time : JsNumber} (valid : validDuration period = true) {now : Nat}
    (given : Given period now time) (small : now + hour ≤ 9007199254740991) :
    (JsNumber.finite ((now + hour : Nat) : ℚ)).lt time = false := by
  obtain ⟨n, rfl, -, short⟩ := validDuration_eq valid
  cases given with
  | never => exact natCast_lt_zero _
  | read read been => exact passed_natCast (Int.ofNat_le.mp been) short small

theorem natCast_le_of_lt {n m : Nat} (less : m < n) : (JsNumber.finite n).le (.finite m) = false := by
  have other : (n : ℚ) ≠ m := by exact_mod_cast less.ne'
  have order : ¬ (n : ℚ) < m := by exact_mod_cast less.le.not_gt
  simp only [JsNumber.le, JsNumber.lt, JsNumber.finite.injEq, other, order, decide_false, Bool.or_self]

/-! ## From any reachable state -/

/-- The world an hour later, when the storage works and nothing throws. -/
def World.quiet (world : World) (observation : Observation) : World :=
  { world with
    clock := world.clock + hour
    mishap := none
    observation := observation
    acknowledgement := .acknowledged }

/-- Calls are answered, time passes, nothing throws any more, the storage works. -/
inductive CalmAct (observation : Observation) : Act (machine deployment) → Prop where
  | answer (worker : Worker) (call : Call) : CalmAct observation (.issue .answer worker call)
  | advance (ms : Nat) : CalmAct observation (.move (.advance ms))
  | quiet : CalmAct observation (.move (.mishap none))
  | works : CalmAct observation (.move (.storage observation .acknowledged))

section

variable {observation : Observation} {core : SystemCore deployment} {row : Row}

/-- After an hour the row can be claimed. -/
theorem Timely.claimable (timely : Timely core) (there : row ∈ rowsOf core)
    (unfinished : row.state ≠ .ready ∧ row.state ≠ .blocked)
    (accepted : part (deployment.uuid (worldOf core).nextId) = .ok (deployment.uuid (worldOf core).nextId))
    (revision : row.revision + 1 ≤ 9007199254740991)
    (calendar : (worldOf core).clock + 2 * hour ≤ 9007199254740991) :
    row.Claimable deployment ((worldOf core).quiet observation) := by
  obtain ⟨verified, next, leaseUntil⟩ := timely.kept row there
  obtain ⟨read, clock⟩ := Int.eq_ofNat_of_zero_le timely.since
  rw [clock] at next leaseUntil calendar
  have small : read + 2 * hour ≤ 9007199254740991 := by exact_mod_cast calendar
  have now : ((worldOf core).quiet observation).now = .finite ((read + hour : Nat) : ℚ) := by
    rw [World.now, World.quiet, clock, ← Int.natCast_add, Int.cast_natCast]
  obtain ⟨lease, period, positive, short⟩ := validDuration_eq deployment.coordinator.valid.1
  have ends : (JsNumber.finite ((read + hour : Nat) : ℚ)).add deployment.coordinator.leaseMs =
      .finite ((read + hour + lease : Nat) : ℚ) := by
    rw [period]
    exact add_natCast (by omega)
  refine ⟨there, ?_, verified, accepted, revision, ?_, ?_⟩
  · have waited := next.passed deployment.coordinator.valid.2 (by omega)
    have expired := leaseUntil.passed deployment.coordinator.valid.1 (by omega)
    rw [now, Row.due, waited, expired]
    simp only [unfinished, decide_false, Bool.or_self, Bool.and_false, Bool.not_false]
  · rw [now, ends]
    exact isSafeInteger_natCast (by omega)
  · rw [now, ends]
    exact natCast_le_of_lt (by omega)

/-- Timeliness in every reachable state, from the run lemma of the machine. -/
theorem timely_reached {time : Int} (since : 0 ≤ time) {state : SystemState deployment}
    {ok : SystemCore deployment → Act (machine deployment) → Prop}
    (reached : Reach (launch deployment) ok (World.initial time) state) : Timely state.core :=
  (Reach.keeps timely_keeps timed_launch (timely_initial since) reached).inv

/-- One more worker, an hour later. -/
theorem settle_once {ok : SystemCore deployment → Act (machine deployment) → Prop}
    (free : ∀ core act, CalmAct observation act → ok core act)
    (sound : observation = .absent ∨ observation = .matching) {initial : World}
    {state : SystemState deployment} (reached : Reach (launch deployment) ok initial state)
    (timely : Timely state.core)
    (claimable : row.Claimable deployment ((worldOf state.core).quiet observation)) :
    ∃ later, Reach (launch deployment) ok initial later ∧
      state.core.Onward (CalmAct observation) later.core ∧
      worldOf later.core = ((worldOf state.core).quiet observation).settled deployment row := by
  obtain ⟨bound, willing⟩ := timely.willing
  obtain ⟨waited, reached₁, passed, -⟩ := reached.move (m := .advance hour) rfl (free _ _ (.advance hour))
  obtain ⟨silent, reached₂, quiet, -⟩ := reached₁.move (m := .mishap none) rfl (free _ _ .quiet)
  obtain ⟨ready, reached₃, works, -⟩ :=
    reached₂.move (m := .storage observation .acknowledged) rfl (free _ _ .works)
  have world : ready.core.world = (worldOf state.core).quiet observation := by
    rw [works, quiet, passed]
    rfl
  obtain ⟨later, reached₄, onward, -, left⟩ := reached₃.alone
    (fun _ worker call => free _ _ (.answer worker call)) CalmAct.answer bound (.run row.id)
  have calm : Calm ⟨bound, ready.size⟩ ((worldOf state.core).quiet observation) :=
    ⟨rfl, willing _ (Nat.le_refl _), sound, rfl⟩
  refine ⟨later, reached₄, ?_, ?_⟩
  · refine Core.Onward.trans ?_ onward
    rw [works, quiet, passed]
    exact ((Core.Onward.move _ _ (.advance hour)).trans (.move _ _ .quiet)).trans (.move _ _ .works)
  · refine left.trans ?_
    rw [world]
    change (runs deployment ⟨bound, ready.size⟩ ((worldOf state.core).quiet observation) (do
      let result ← deployment.coordinator.run row.id
      pure (Reply.ran result))).2 = _
    rw [runs_bind, runs_run calm claimable]
    rfl

/-! ### The row at rest -/

section

variable (row : Row) (world : World)

theorem settled_intent : (row.settled deployment world).intent = row.intent := by
  unfold Row.settled Row.settle
  split
  · rfl
  · split <;> rfl

/-- One revision for the claim and one for the record. -/
theorem settled_revision : (row.settled deployment world).revision = row.revision + 2 := by
  unfold Row.settled Row.settle
  split
  · rfl
  · split <;> rfl

/-- A row that was to be retired is retired. -/
theorem settled_retired {row : Row} (retires : row.action = .retire) :
    (row.settled deployment world).state = .retired := by
  rw [Row.settled, Row.settle, action_claimed, if_pos retires]
  rfl

/-- A current row is published. -/
theorem settled_ready {row : Row} {world : World} (publishes : row.action = .publish)
    (current : world.repository.current = some row.intent.binding) :
    (row.settled deployment world).state = .ready := by
  rw [Row.settled, Row.settle, action_claimed, publishes, if_neg (by decide), decide_eq_true current]
  rfl

/-- A row that is no longer current is left to be retired next time. -/
theorem settled_retiring {row : Row} {world : World} (publishes : row.action = .publish)
    (replaced : world.repository.current ≠ some row.intent.binding) :
    (row.settled deployment world).state = .retiring := by
  rw [Row.settled, Row.settle, action_claimed, publishes, if_neg (by decide), decide_eq_false replaced]
  rfl

/-- The settled row takes the place of the old one; the others stay. -/
theorem mem_settled {other : Row} : other ∈ (world.settled deployment row).repository.rows ↔
    other = row.settled deployment world ∨ (other ∈ world.repository.rows ∧ other.id ≠ row.id) := by
  have named : (row.settled deployment world).id = row.id := congrArg Intent.id (settled_intent row world)
  refine Keyed.mem_save.trans ?_
  rw [named]
  refine or_congr_right ⟨fun ⟨member, differs⟩ => ?_, fun ⟨member, differs⟩ => ?_⟩
  · rcases Keyed.mem_save.mp member with rfl | ⟨old, -⟩
    · exact absurd rfl differs
    · exact ⟨old, differs⟩
  · exact ⟨Keyed.mem_save.mpr (.inr ⟨member, differs⟩), differs⟩

end

/-- The row is there to be shown. -/
def Row.Wanted (world : World) (row : Row) : Prop :=
  row.action = .publish ∧ world.repository.current = some row.intent.binding

/-- A row for the binding is the one that `readCurrent` finds. -/
theorem Safe.readCurrent {core : SystemCore deployment} (safe : Safe core) {row : Row}
    (there : row ∈ rowsOf core) (current : (worldOf core).repository.current = some row.intent.binding) :
    (worldOf core).repository.readCurrent row.intent.binding = some (row.intent, row.state) := by
  have seen : ((rowsOf core).rows.find? fun other =>
      decide (other.intent.binding = row.intent.binding)).isSome = true :=
    List.find?_isSome.mpr ⟨row, there, decide_eq_true rfl⟩
  obtain ⟨other, found⟩ := Option.isSome_iff_exists.mp seen
  have bound := List.find?_some found
  obtain rfl := safe.unique other (List.mem_of_find?_eq_some found) row there (of_decide_eq_true bound)
  have found : (worldOf core).repository.find other.intent.binding = some other := found
  rw [Repository.readCurrent, if_neg (not_not.mpr current), found]
  rfl

/-- What a worker an hour later leaves. -/
structure Settled (deployment : Deployment) (observation : Observation) (row : Row) (world later : World) :
    Prop where
  current : later.repository.current = world.repository.current
  clock : later.clock = world.clock + hour
  nextId : later.nextId = world.nextId + 1
  rows : ∀ other, other ∈ later.repository.rows ↔
    other = row.settled deployment (world.quiet observation) ∨
      (other ∈ world.repository.rows ∧ other.id ≠ row.id)

theorem settled_world (world : World) :
    Settled deployment observation row world ((world.quiet observation).settled deployment row) :=
  ⟨rfl, rfl, rfl, fun _ => mem_settled row _⟩

/-- **No publication is stuck.**  From any reachable state, and for any row that is neither ready nor
blocked, the system can go on by calm acts only to a state where the row is at rest: ready and shown if it
publishes the current generation, retired otherwise.  The other rows stay as they are. -/
theorem publication_settles (distinct : Function.Injective deployment.uuid) {time : Int} (since : 0 ≤ time)
    {state : SystemState deployment}
    (reached : Reach (launch deployment) FreshGenerations (World.initial time) state)
    {observation : Observation} (sound : observation = .absent ∨ observation = .matching) {row : Row}
    (there : row ∈ rowsOf state.core) (unfinished : row.state ≠ .ready ∧ row.state ≠ .blocked)
    (accepted : ∀ drawn < 2, part (deployment.uuid ((worldOf state.core).nextId + drawn)) =
      .ok (deployment.uuid ((worldOf state.core).nextId + drawn)))
    (revision : row.revision + 3 ≤ 9007199254740991)
    (calendar : (worldOf state.core).clock + 3 * hour ≤ 9007199254740991) :
    ∃ later, Reach (launch deployment) FreshGenerations (World.initial time) later ∧
      state.core.Onward (CalmAct observation) later.core ∧
      (worldOf later.core).repository.current = (worldOf state.core).repository.current ∧
      (∀ other ∈ rowsOf state.core, other.id ≠ row.id → other ∈ rowsOf later.core) ∧
      ∃ rested ∈ rowsOf later.core, rested.intent = row.intent ∧
        (row.Wanted (worldOf state.core) → rested.state = .ready ∧
          (worldOf later.core).repository.readCurrent row.intent.binding = some (row.intent, .ready)) ∧
        (¬ row.Wanted (worldOf state.core) → rested.state = .retired) := by
  have free : ∀ (core : SystemCore deployment) (act : Act (machine deployment)),
      CalmAct observation act → FreshGenerations core act := by
    rintro core act calm binding transaction rfl
    cases calm
  obtain ⟨first, reached₁, onward₁, world₁⟩ := settle_once free sound reached (timely_reached since reached)
    ((timely_reached since reached).claimable there unfinished (accepted 0 (by decide)) (by omega) (by omega))
  obtain ⟨current₁, clock₁, nextId₁, rows₁⟩ : Settled deployment observation row (worldOf state.core)
      (worldOf first.core) := by
    rw [show worldOf first.core = _ from world₁]
    exact settled_world _
  have others₁ : ∀ other ∈ rowsOf state.core, other.id ≠ row.id → other ∈ rowsOf first.core :=
    fun other member differs => (rows₁ other).mpr (.inr ⟨member, differs⟩)
  set rested := row.settled deployment ((worldOf state.core).quiet observation) with is_rested
  have there₁ : rested ∈ rowsOf first.core := (rows₁ rested).mpr (.inl rfl)
  have same₁ : rested.intent = row.intent := settled_intent row _
  by_cases retires : row.action = .retire
  · have gone : ¬ row.Wanted (worldOf state.core) := fun wanted => by
      rw [wanted.1] at retires
      cases retires
    exact ⟨first, reached₁, onward₁, current₁, others₁, rested, there₁, same₁,
      fun wanted => absurd wanted gone, fun _ => settled_retired _ retires⟩
  have publishes : row.action = .publish := by
    unfold Row.action at retires ⊢
    exact if_neg fun ending => retires (if_pos ending)
  by_cases current : (worldOf state.core).repository.current = some row.intent.binding
  · have ready : rested.state = .ready := settled_ready publishes current
    have safe := (Reach.keeps (safe_keeps distinct) launch_obeys (safe_initial time) reached₁).inv
    have shown := safe.readCurrent there₁ (by rw [current₁, current, same₁])
    rw [same₁, ready] at shown
    exact ⟨first, reached₁, onward₁, current₁, others₁, rested, there₁, same₁, fun _ => ⟨ready, shown⟩,
      fun unwanted => absurd ⟨publishes, current⟩ unwanted⟩
  -- The generation was replaced: the first worker only marks the row, a second one retires it.
  have retiring : rested.state = .retiring := settled_retiring publishes current
  have revision₁ : rested.revision = row.revision + 2 := settled_revision row _
  obtain ⟨second, reached₂, onward₂, world₂⟩ := settle_once free sound reached₁
    (timely_reached since reached₁) ((timely_reached since reached₁).claimable there₁
      (by rw [retiring]; decide) (by rw [nextId₁]; exact accepted 1 (by decide)) (by omega)
      (by rw [clock₁]; omega))
  obtain ⟨current₂, -, -, rows₂⟩ : Settled deployment observation rested (worldOf first.core)
      (worldOf second.core) := by
    rw [show worldOf second.core = _ from world₂]
    exact settled_world _
  refine ⟨second, reached₂, onward₁.trans onward₂, current₂.trans current₁, fun other member differs => ?_,
    rested.settled deployment ((worldOf first.core).quiet observation), (rows₂ _).mpr (.inl rfl),
    (settled_intent rested _).trans same₁, fun wanted => absurd wanted.2 current, fun _ => ?_⟩
  · refine (rows₂ other).mpr (.inr ⟨others₁ other member differs, ?_⟩)
    rw [show rested.id = row.id from congrArg Intent.id same₁]
    exact differs
  · refine settled_retired _ ?_
    rw [Row.action, retiring]
    decide

end

/-- The file is assigned, a worker claims the row and is not heard of again. -/
def claimedAndLeft : List (Machine.Label (machine smallDeployment) Request) :=
  [.move (.withAssignment (some smallBinding) (.stage (.publicFile smallBinding smallSource))),
    .spawn 0 (.run [0x61])] ++ List.replicate 5 (.issue .answer 0)

theorem publication_settles_left : ∃ later : SystemState smallDeployment,
    Reach (launch smallDeployment) FreshGenerations (World.initial 0) later ∧
      ∃ intent, (worldOf later.core).repository.readCurrent smallBinding = some (intent, .ready) := by
  have observed : ((Config.start (World.initial 0) : SystemState smallDeployment).follow
      (launch smallDeployment) freshGenerations claimedAndLeft).map (fun state =>
        ((rowsOf state.core).rows.map fun row => (row.state, row.revision, row.intent.binding),
          (worldOf state.core).nextId, (worldOf state.core).clock, (worldOf state.core).repository.current)) =
        some ([(.uncertain, 1, smallBinding)], 2, 0, some smallBinding) := by
    decide +kernel
  obtain ⟨state, followed, seen⟩ := Option.map_eq_some_iff.mp observed
  simp only [Prod.mk.injEq, List.map_eq_singleton_iff] at seen
  obtain ⟨⟨row, rows, uncertain, revision, bound⟩, nextId, clock, current⟩ := seen
  have there : row ∈ rowsOf state.core := by
    change row ∈ (rowsOf state.core).rows
    rw [rows]
    exact List.mem_singleton_self row
  obtain ⟨later, reached, -, -, -, rested, -, -, ready, -⟩ := publication_settles smallDeployment_distinct
    (Int.le_refl 0) (reach_follow (launch smallDeployment) fresh_of_check .start followed) (.inl rfl) there
    (by rw [uncertain]; decide) (by rw [nextId]; decide +kernel) (by rw [revision]; decide)
    (by rw [clock]; decide)
  obtain ⟨-, shown⟩ := ready ⟨by rw [Row.action, uncertain]; decide, by rw [current, bound]⟩
  rw [bound] at shown
  exact ⟨later, reached, row.intent, shown⟩

end SdcoreNest.Publication
