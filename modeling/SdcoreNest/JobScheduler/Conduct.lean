/-
# JobScheduler.Conduct -- what the methods may ask, and what their answers mean

A worker that acquires mints one token, tries the INSERT with it, and the reclaim only after
the INSERT answered that the key is taken.  From then on it presents the lease it was granted
and no other (`owning`).  The other methods are one UPDATE with a lease of the caller.
-/
import SdcoreNest.JobScheduler.Service
import SdcoreNest.Theory.Rules

namespace SdcoreNest.JobScheduler

open SdcoreNest.Theory

set_option autoImplicit false

/-- A worker's own steps, newest first. -/
abbrev Past := List (Step sig)

/-- The steps end in an acquisition that was answered with this lease. -/
def Granted (past : Past) (lease : JobExecutionLease) (leaseMs : Nat) : Prop :=
  (∃ values, values.lockKey = lease.idempotencyKey ∧ values.ownerToken = lease.ownerToken ∧
    ⟨.insertIgnore values leaseMs, some (some lease.id)⟩ ∈ past) ∨
  ⟨.reclaim lease.idempotencyKey lease.ownerToken leaseMs, some (some lease.id)⟩ ∈ past

theorem Granted.mono {past past' : Past} {lease : JobExecutionLease} {leaseMs : Nat}
    (granted : Granted past lease leaseMs) (suffix : past <:+ past') :
    Granted past' lease leaseMs := by
  rcases granted with ⟨values, key, token, member⟩ | member
  · exact .inl ⟨values, key, token, suffix.subset member⟩
  · exact .inr (suffix.subset member)

/-- The conduct of `acquire` and `runExclusive`. -/
def owning : Conduct sig where
  allows past := fun
    | .randomUUID => past = []
    | .insertIgnore values _ => past = [⟨.randomUUID, some values.ownerToken⟩]
    | .reclaim lockKey ownerToken leaseMs => ∃ values : Values, values.lockKey = lockKey ∧
        past = [⟨.insertIgnore values leaseMs, some none⟩, ⟨.randomUUID, some ownerToken⟩]
    | .updateOwned lease _ => ∃ granted : JobExecutionLease, granted.toJobLease = lease ∧
        ∃ leaseMs, Granted past granted leaseMs
  credible _ := True

/-- The conduct of all methods. -/
def conduct : Conduct sig where
  allows past call := owning.allows past call ∨
    (past = [] ∧ ∃ lease set, call = .updateOwned lease set)
  credible _ := True

/-- The lease and the UPDATE of a request that is one UPDATE. -/
def Request.mutation : Request → Option (JobLease × LeaseSet)
  | .heartbeat lease => some (lease, .modifiedAt)
  | .complete lease data => some (lease, .success data)
  | .fail lease data => some (lease, .fail data)
  | .release lease data => some (lease, .fail (some data))
  | .acquire _ | .runExclusive .. => none

variable {digest : JsString → JsString} {past : Past}

@[simp] theorem follows_check {α : Type} {C : Conduct sig} (result : Except JobError α)
    (post : Except JobError α → Past → Prop) :
    Follows C (check result) past post ↔ post result past := Iff.rfl

/-! ## Acquiring -/

/-- The result of an acquisition under these options. -/
def Acquired (digest : JsString → JsString) (opts : JobAcquireOptions) :
    JobAcquireResult → Past → Prop
  | .missed, _ => True
  | .acquired lease, past => ∃ timing identity,
      resolveLeaseTiming opts = .ok timing ∧ resolveIdentity digest opts = .ok identity ∧
      lease.idempotencyKey = identity.lockKey ∧ Granted past lease timing.leaseMs

theorem acquire_follows (opts : JobAcquireOptions) :
    Follows owning (acquire digest opts) [] (returning (Acquired digest opts)) := by
  refine Follows.check_bind (fun timing timed => ?_) fun _ => trivial
  refine Follows.check_bind (fun identity identified => ?_) fun _ => trivial
  refine Follows.ask_bind rfl (fun ownerToken _ => ?_) fun _ => trivial
  refine Follows.ask_bind rfl (fun inserted _ => ?_) fun _ => trivial
  cases inserted with
  | some id =>
      exact ⟨timing, identity, timed, identified, rfl,
        .inl ⟨_, rfl, rfl, List.mem_cons_self⟩⟩
  | none =>
      refine Follows.ask_bind ⟨_, rfl, rfl⟩ (fun reclaimed _ => ?_) fun _ => trivial
      cases reclaimed with
      | some id => exact ⟨timing, identity, timed, identified, rfl, .inr List.mem_cons_self⟩
      | none => trivial

/-! ## Running under a lease -/

theorem mutateOwnedLease_follows {C : Conduct sig} {lease : JobLease} {set : LeaseSet}
    (allows : C.allows past (.updateOwned lease set)) :
    Follows C (mutateOwnedLease lease set) past (returning fun value past' =>
      ∃ affected : Nat, past' = ⟨.updateOwned lease set, some affected⟩ :: past ∧
        value = (affected == 1)) := by
  refine Follows.ask_bind allows (fun affected _ => ?_) fun _ => trivial
  exact ⟨affected, rfl, rfl⟩

/-- The run of the consumer's function ended in an UPDATE that recorded its success. -/
def Completed (lease : JobExecutionLease) (past : Past) : Prop :=
  ⟨.updateOwned lease.toJobLease (.success none), some (1 : Nat)⟩ ∈ past

theorem runAndComplete_follows {lease : JobExecutionLease} {leaseMs : Nat}
    (granted : Granted past lease leaseMs)
    (fn : JobExecutionLease → Except JobError JsString) :
    Follows owning (runAndComplete lease fn) past (returning fun _ past' =>
      Completed lease past') := by
  refine Follows.check_bind (fun result _ => ?_) fun _ => trivial
  refine Follows.seq _ (mutateOwnedLease_follows ⟨lease, rfl, leaseMs, granted⟩) ?_
    fun _ _ _ => trivial
  rintro value past' - ⟨affected, rfl, rfl⟩
  split
  · rename_i one
    rw [follows_pure, returning_ok, eq_of_beq one]
    exact List.mem_cons_self
  · exact trivial

theorem recordFailure_follows {lease : JobExecutionLease} {leaseMs : Nat}
    (granted : Granted past lease leaseMs) (error : JobError) :
    Follows owning (recordFailure lease error) past (returning fun _ _ => False) := by
  unfold recordFailure
  split
  · exact trivial
  · refine Follows.seq _ (mutateOwnedLease_follows ⟨lease, rfl, leaseMs, granted⟩) ?_
      fun _ _ _ => trivial
    exact fun _ _ _ _ => trivial

/-- The result of `runExclusive` under these options. -/
def Ran (digest : JsString → JsString) (opts : JobAcquireOptions) :
    Option JsString → Past → Prop
  | none, _ => True
  | some _, past => ∃ timing identity lease,
      resolveLeaseTiming opts = .ok timing ∧ resolveIdentity digest opts = .ok identity ∧
      JobExecutionLease.idempotencyKey lease = identity.lockKey ∧
      Granted past lease timing.leaseMs ∧ Completed lease past

theorem runExclusive_follows (opts : JobAcquireOptions)
    (fn : JobExecutionLease → Except JobError JsString) :
    Follows owning (runExclusive digest opts fn) [] (returning (Ran digest opts)) := by
  refine Follows.check_bind (fun timing timed => ?_) fun _ => trivial
  refine Follows.seq _ (acquire_follows _) (fun lock past' _ acquired => ?_)
    fun _ _ _ => trivial
  cases lock with
  | missed => exact trivial
  | acquired lease =>
      obtain ⟨timing', identity, timed', identified, key, granted⟩ := acquired
      rw [resolveLeaseTiming_resolved timed] at timed'
      cases timed'
      rw [follows_tryCatch]
      refine (runAndComplete_follows granted fn).mono fun result past'' longer completed => ?_
      cases result with
      | ok result =>
          cases result with
          | none => trivial
          | some text =>
              exact ⟨timing, identity, lease, timed, identified, key, granted.mono longer,
                completed⟩
      | error error =>
          refine (recordFailure_follows (granted.mono longer) error).mono ?_
          rintro (error | value) past''' - never
          · trivial
          · exact never.elim

/-! ## Requests -/

/-- What the reply to a request says about the worker's own steps. -/
def Replied (digest : JsString → JsString) (request : Request) : Outcome → Past → Prop
  | .error _, _ => True
  | .ok (.acquired result), past => ∃ opts, request = .acquire opts ∧ Acquired digest opts result past
  | .ok (.flag value), past => ∃ lease set, request.mutation = some (lease, set) ∧
      ∃ affected : Nat, past = [⟨.updateOwned lease set, some affected⟩] ∧ value = (affected == 1)
  | .ok (.ran result), past => ∃ opts fn, request = .runExclusive opts fn ∧ Ran digest opts result past

theorem replying_follows {α : Type} {C : Conduct sig} {wrap : α → Reply} {body : Jobs α}
    {mid : α → Past → Prop} {post : Outcome → Past → Prop}
    (follows : Follows C body [] (returning mid))
    (wrapped : ∀ value past', mid value past' → post (.ok (wrap value)) past')
    (failed : ∀ error past', post (.error error) past') :
    Program.Obeys C (replying wrap body) [] post :=
  Follows.seq mid follows (fun value past' _ held => wrapped value past' held)
    fun error past' _ => failed error past'

theorem launch_owning {request : Request} (owner : request.mutation = none) :
    Program.Obeys owning (launch digest request) [] (Replied digest request) := by
  cases request with
  | acquire opts =>
      exact replying_follows (acquire_follows opts) (fun _ _ held => ⟨opts, rfl, held⟩)
        fun _ _ => trivial
  | runExclusive opts fn =>
      exact replying_follows (runExclusive_follows opts fn) (fun _ _ held => ⟨opts, fn, rfl, held⟩)
        fun _ _ => trivial
  | heartbeat lease => cases owner
  | complete lease data => cases owner
  | fail lease data => cases owner
  | release lease data => cases owner

theorem launch_conduct (request : Request) :
    Program.Obeys conduct (launch digest request) [] (Replied digest request) := by
  have owned (owner : request.mutation = none) :
      Program.Obeys conduct (launch digest request) [] (Replied digest request) :=
    Program.obeys_lax (launch_owning owner) (fun _ _ => .inl) fun _ _ => trivial
  have mutating {lease : JobLease} {set : LeaseSet}
      (mutates : request.mutation = some (lease, set)) :
      Program.Obeys conduct (replying .flag (mutateOwnedLease lease set)) []
        (Replied digest request) :=
    replying_follows (mutateOwnedLease_follows (.inr ⟨rfl, lease, set, rfl⟩))
      (fun _ _ held => ⟨lease, set, mutates, held⟩) fun _ _ => trivial
  cases request with
  | acquire opts => exact owned rfl
  | runExclusive opts fn => exact owned rfl
  | heartbeat lease => exact mutating rfl
  | complete lease data => exact mutating rfl
  | fail lease data => exact mutating rfl
  | release lease data => exact mutating rfl

theorem launch_conducted (digest : JsString → JsString) (request : Request) :
    Program.Obeys conduct (launch digest request) [] fun _ _ => True :=
  Program.obeys_mono (launch_conduct request) fun _ _ _ => trivial

end SdcoreNest.JobScheduler
