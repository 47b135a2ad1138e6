/-
# Publication.RunOrder -- the order in which a run uses its ports

`protocol` is the conduct of one run: which port call may follow which steps of its own.
`run_follows` shows that `run` keeps to it, path by path; `run_keeps_order` carries it to
every execution, with the abort at any moment.
-/
import SdcoreNest.Publication.Execution

namespace SdcoreNest.Publication

open SdcoreNest.Theory SdcoreNest.Theory.JsString

set_option autoImplicit false

abbrev Past := List (Step sig)

/-- A port call that answered before the deadline. -/
abbrev answered (port : Port) (answer : port.Answer) : Step sig := ⟨.call port, some (.ok answer)⟩

/-- Since the signal was last read, and found not aborted, only synchronous code has run. -/
def Checked : Past → Prop
  | ⟨.aborted, some stopped⟩ :: _ => stopped = false
  | ⟨.clock, _⟩ :: past => Checked past
  | ⟨.newId, _⟩ :: past => Checked past
  | _ => False

/-- The states that a retirement leads to. -/
def State.ending : State → Bool
  | .retiring | .retired | .blocked => true
  | _ => false

section Protocol

variable (coordinator : Coordinator) (intentId : JsString)

/-- The lease was claimed and checked by this run. -/
def Claims (lease : Lease) (step : Step sig) : Prop :=
  ∃ work token now leaseUntil intent,
    step = answered (.claim intentId token now leaseUntil) (some work) ∧
      coordinator.verify work.intent = .ok intent ∧ intent.id = intentId ∧
      lease = { work with intent := intent }

/-- When the run may use which port. -/
def Permitted (past : Past) : Port → Prop
  | .publish intent =>
      (∀ intent' reply, (⟨.call (.publish intent'), reply⟩ : Step sig) ∉ past) ∧
        ∃ lease claim, Claims coordinator intentId lease claim ∧ lease.action = .publish ∧
          lease.intent = intent ∧
          [answered (.isCurrent lease) true, answered (.inspect intent) .absent,
            answered (.isCurrent lease) true, claim].Sublist past
  | .removeExact intent =>
      (∀ intent' reply, (⟨.call (.removeExact intent'), reply⟩ : Step sig) ∉ past) ∧
        ∃ lease claim, Claims coordinator intentId lease claim ∧ lease.action = .retire ∧
          lease.intent = intent ∧
          [answered (.inspect intent) .matching, claim].Sublist past
  | .commitReady lease _ =>
      (∀ lease' now reply, (⟨.call (.commitReady lease' now), reply⟩ : Step sig) ∉ past) ∧
        ∃ claim, Claims coordinator intentId lease claim ∧ lease.action = .publish ∧
          ([answered (.inspect lease.intent) .matching, claim].Sublist past ∨
            [answered (.publish lease.intent) .acknowledged, claim].Sublist past)
  | .record lease state _ _ =>
      (∃ claim ∈ past, Claims coordinator intentId lease claim) ∧ state ≠ .ready ∧
        (lease.action = .retire → state.ending = true)
  | .claim id _ _ _ => id = intentId
  | .isCurrent _ | .inspect _ => True
  | _ => False

def protocol : Conduct sig where
  allows past call := match call with
    | .call port => Checked past ∧ Permitted coordinator intentId past port
    | _ => True
  credible step := match step with
    | ⟨.aborted, none⟩ => False
    | _ => True

end Protocol

/-- What a result rests on. -/
def Result.Rests (past : Past) : Result → Prop
  | .ready => ∃ lease now, answered (.commitReady lease now) .ready ∈ past
  | .retired => ∃ lease code next, answered (.record lease .retired code next) true ∈ past
  | .blocked => ∃ lease code next, answered (.record lease .blocked code next) true ∈ past
  | _ => True

/-! ## Path by path -/

/-- The past after the two checks of `within`. -/
abbrev polled (past : Past) : Past :=
  ⟨.aborted, some false⟩ :: ⟨.aborted, some false⟩ :: past

theorem sublist_polled {steps past : Past} (inside : steps.Sublist past) :
    steps.Sublist (polled past) := (inside.cons _).cons _

/-- The ports that only read or claim. -/
def Port.quiet : Port → Bool
  | .claim .. | .isCurrent _ | .inspect _ => true
  | _ => false

/-- No port that changes something was called yet. -/
def Quiet (past : Past) : Prop := ∀ port reply,
  (⟨.call port, reply⟩ : Step sig) ∈ past → port.quiet = true

theorem quiet_nil : Quiet [] := fun _ _ member => absurd member List.not_mem_nil

theorem Quiet.not_mem {past : Past} (quiet : Quiet past) {port : Port}
    {reply : Option port.Outcome} (loud : port.quiet = false) :
    (⟨.call port, reply⟩ : Step sig) ∉ past := by
  intro member
  rw [quiet port reply member] at loud
  cases loud

theorem Quiet.read {past : Past} (quiet : Quiet past) {call : Call} {reply : Option call.Answer}
    (plain : ∀ port, call ≠ .call port) : Quiet (⟨call, reply⟩ :: past) := by
  intro port reply' member
  rcases List.mem_cons.mp member with same | old
  · exact absurd (congrArg Step.call same).symm (plain port)
  · exact quiet port reply' old

theorem Quiet.polled {past : Past} (quiet : Quiet past) : Quiet (polled past) :=
  (quiet.read fun _ => Call.noConfusion).read fun _ => Call.noConfusion

theorem Quiet.call {past : Past} (quiet : Quiet past) {port : Port} {reply : Option port.Outcome}
    (read : port.quiet = true) : Quiet (⟨.call port, reply⟩ :: past) := by
  intro port' reply' member
  rcases List.mem_cons.mp member with same | old
  · cases congrArg Step.call same
    exact read
  · exact quiet port' reply' old

section Paths

variable {coordinator : Coordinator} {intentId : JsString} {past : Past} {α β : Type}

theorem aborted_follows {f : Bool → Job α} {post : Except Fault α → Past → Prop}
    (each : ∀ stopped, Follows (protocol coordinator intentId) (f stopped)
      (⟨.aborted, some stopped⟩ :: past) post) :
    Follows (protocol coordinator intentId) (aborted >>= f) past post :=
  Follows.ask_bind trivial (fun stopped _ => each stopped) fun absurd => absurd.elim

/-- A body under the deadline begins right after two checks. -/
theorem within_follows {body : Job α} {post : α → Past → Prop}
    (begun : Follows (protocol coordinator intentId) body (polled past) (returning post)) :
    Follows (protocol coordinator intentId) (Coordinator.within body) past (returning post) := by
  unfold Coordinator.within
  refine aborted_follows fun stopped => ?_
  cases stopped with
  | true => exact trivial
  | false =>
      refine aborted_follows fun stopped => ?_
      cases stopped with
      | true => exact trivial
      | false => exact begun

theorem call_follows {port : Port} (checked : Checked past)
    (permitted : Permitted coordinator intentId past port) :
    Follows (protocol coordinator intentId) (call port) past
      (returning fun answer past' => past' = answered port answer :: past) := by
  refine ⟨⟨checked, permitted⟩, fun reply _ => ?_⟩
  cases reply with
  | none => exact trivial
  | some outcome =>
      cases outcome with
      | ok answer => exact rfl
      | error fault => exact trivial

/-- One port call under the deadline. -/
theorem within_call_follows {port : Port}
    (permitted : Permitted coordinator intentId (polled past) port) :
    Follows (protocol coordinator intentId) (Coordinator.within (call port)) past
      (returning fun answer past' => past' = answered port answer :: polled past) :=
  within_follows (call_follows rfl permitted)

variable {owned : Lease} {claim : Step sig}

theorem record_follows {state : State} {code : String}
    (claims : Claims coordinator intentId owned claim) (mine : claim ∈ past)
    (unready : state ≠ .ready) (ending : owned.action = .retire → state.ending = true) :
    Follows (protocol coordinator intentId) (coordinator.record owned state code) past
      (returning fun kept past' => ∃ next,
        answered (.record owned state (js code) next) kept ∈ past') := by
  refine within_follows ?_
  refine Follows.ask_bind trivial (fun now _ => ?_) fun _ => trivial
  refine Follows.mono (call_follows rfl ⟨⟨claim, by simp [mine], claims⟩, unready, ending⟩)
    fun result past' _ settled => ?_
  cases result with
  | error fault => exact trivial
  | ok kept =>
      have same : past' = _ := settled
      subst same
      exact ⟨_, List.mem_cons_self⟩

/-- A result that rests on the record, or `lost`. -/
theorem recorded_follows {state : State} {code : String} {result : Result}
    (claims : Claims coordinator intentId owned claim) (mine : claim ∈ past)
    (unready : state ≠ .ready) (ending : owned.action = .retire → state.ending = true)
    (rests : ∀ past' next, answered (.record owned state (js code) next) true ∈ past' →
      result.Rests past') :
    Follows (protocol coordinator intentId) (coordinator.recorded owned state code result) past
      (returning fun result past' => result.Rests past') := by
  unfold Coordinator.recorded
  refine Follows.seq _ (record_follows claims mine unready ending) ?_ fun _ _ _ => trivial
  rintro kept past' - ⟨next, settled⟩
  cases kept with
  | true => exact rests past' next settled
  | false => exact trivial

/-- A record that leaves the run pending. -/
theorem pending_follows {state : State} {code : String}
    (claims : Claims coordinator intentId owned claim) (mine : claim ∈ past)
    (unready : state ≠ .ready) (ending : owned.action = .retire → state.ending = true) :
    Follows (protocol coordinator intentId) (coordinator.recorded owned state code .pending) past
      (returning fun result past' => result.Rests past') :=
  recorded_follows claims mine unready ending fun _ _ _ => trivial

theorem acknowledge_follows (claims : Claims coordinator intentId owned claim)
    (publishing : owned.action = .publish)
    (untried : ∀ lease now reply,
      (⟨.call (.commitReady lease now), reply⟩ : Step sig) ∉ past)
    (backed : [answered (.inspect owned.intent) .matching, claim].Sublist past ∨
      [answered (.publish owned.intent) .acknowledged, claim].Sublist past) :
    Follows (protocol coordinator intentId) (coordinator.acknowledge owned) past
      (returning fun result past' => result.Rests past') := by
  have mine : claim ∈ past := by
    rcases backed with order | order
    · exact order.subset (by simp)
    · exact order.subset (by simp)
  unfold Coordinator.acknowledge
  refine Follows.seq (fun answer past' => claim ∈ past' ∧ ∃ now,
    answered (.commitReady owned now) answer ∈ past') (within_follows ?_) ?_ fun _ _ _ => trivial
  · refine Follows.ask_bind trivial (fun now _ => ?_) fun _ => trivial
    refine Follows.mono (call_follows rfl ⟨?_, claim, claims, publishing, ?_⟩)
      fun result past' _ settled => ?_
    · intro lease now' reply member
      simp only [List.mem_cons, Step.mk.injEq, reduceCtorEq, false_and, false_or] at member
      exact untried lease now' reply member
    · exact backed.imp (fun order => (sublist_polled order).cons _)
        fun order => (sublist_polled order).cons _
    · cases result with
      | error fault => exact trivial
      | ok answer =>
          have same : past' = _ := settled
          subst same
          exact ⟨by simp [mine], _, List.mem_cons_self⟩
  · rintro answer past' - ⟨mine', now, settled⟩
    cases answer with
    | ready => exact ⟨owned, now, settled⟩
    | lost => exact trivial
    | other => exact trivial
    | stale => exact pending_follows claims mine' (by decide) fun _ => rfl

/-- Removing a rendition that was found. -/
theorem remove_follows (claims : Claims coordinator intentId owned claim)
    (retiring : owned.action = .retire) (quiet : Quiet past)
    (found : [answered (.inspect owned.intent) .matching, claim].Sublist past) :
    Follows (protocol coordinator intentId) (coordinator.remove owned) past
      (returning fun result past' => result.Rests past') := by
  have mine : claim ∈ past := found.subset (by simp)
  unfold Coordinator.remove
  refine Follows.seq _ (within_call_follows ⟨?_, owned, claim, claims, retiring, rfl, ?_⟩) ?_
    fun _ _ _ => trivial
  · exact fun intent' reply => quiet.polled.not_mem rfl
  · exact sublist_polled found
  · rintro answer past' longer -
    have mine' := longer.subset mine
    cases answer with
    | unknown => exact pending_follows claims mine' (by decide) fun _ => rfl
    | acknowledged =>
        exact recorded_follows claims mine' (by decide) (fun _ => rfl)
          fun _ next settled => ⟨owned, _, next, settled⟩

/-- Writing a rendition that was not found. -/
theorem write_follows (claims : Claims coordinator intentId owned claim)
    (publishing : owned.action = .publish) (quiet : Quiet past)
    (absent : [answered (.inspect owned.intent) .absent, answered (.isCurrent owned) true,
      claim].Sublist past) :
    Follows (protocol coordinator intentId) (coordinator.write owned) past
      (returning fun result past' => result.Rests past') := by
  have mine : claim ∈ past := absent.subset (by simp)
  have unretired : ∀ {state : State}, owned.action = .retire → state.ending = true := by
    intro state retiring
    rw [publishing] at retiring
    cases retiring
  unfold Coordinator.write
  refine Follows.seq _ (within_call_follows trivial) ?_ fun _ _ _ => trivial
  rintro current _ longer rfl
  cases current with
  | false => exact pending_follows claims (longer.subset mine) (by decide) unretired
  | true =>
      have quiet' : Quiet (answered (.isCurrent owned) true :: polled past) := quiet.polled.call rfl
      refine Follows.seq _ (within_call_follows
        ⟨?_, owned, claim, claims, publishing, rfl, ?_⟩) ?_ fun _ _ _ => trivial
      · exact fun intent' reply => quiet'.polled.not_mem rfl
      · exact sublist_polled ((sublist_polled absent).cons_cons _)
      · rintro written _ longer' rfl
        have mine' := longer'.subset (longer.subset mine)
        cases written with
        | unknown => exact pending_follows claims mine' (by decide) unretired
        | acknowledged =>
            refine acknowledge_follows claims publishing ?_ (.inr ?_)
            · intro lease now reply member
              rcases List.mem_cons.mp member with same | old
              · cases congrArg Step.call same
              · exact quiet'.polled.not_mem rfl old
            · have there : claim ∈ polled (answered (.isCurrent owned) true :: polled past) := by
                simp [mine]
              exact (List.singleton_sublist.mpr there).cons_cons _

/-- The state that leaves the outcome open is not a state a retirement cannot lead to. -/
theorem openState_fits (owned : Lease) : Coordinator.openState owned ≠ .ready ∧
    (owned.action = .retire → (Coordinator.openState owned).ending = true) := by
  unfold Coordinator.openState
  constructor
  · split <;> decide
  · intro retiring
    rw [if_pos retiring]
    rfl

theorem inspected_follows (claims : Claims coordinator intentId owned claim)
    (known : owned.action ≠ .other) (quiet : Quiet past) (mine : claim ∈ past)
    (current : owned.action = .publish →
      [answered (.isCurrent owned) true, claim].Sublist past) :
    Follows (protocol coordinator intentId) (coordinator.inspected owned) past
      (returning fun result past' => result.Rests past') := by
  have publishing_of_ne : owned.action ≠ .retire → owned.action = .publish := by
    intro unretired
    cases action : owned.action with
    | publish => rfl
    | retire => exact absurd action unretired
    | other => exact absurd action known
  unfold Coordinator.inspected
  refine Follows.seq _ (within_call_follows trivial) ?_ fun _ _ _ => trivial
  rintro observed _ longer rfl
  have mine' := longer.subset mine
  have quiet' : Quiet (answered (.inspect owned.intent) observed :: polled past) :=
    quiet.polled.call rfl
  have seen : [answered (.inspect owned.intent) observed, claim].Sublist
      (answered (.inspect owned.intent) observed :: polled past) :=
    (sublist_polled (List.singleton_sublist.mpr mine)).cons_cons _
  cases observed with
  | conflict =>
      exact recorded_follows claims mine' (by decide) (fun _ => rfl)
        fun _ next settled => ⟨owned, _, next, settled⟩
  | unknown =>
      obtain ⟨unready, ending⟩ := openState_fits owned
      exact pending_follows claims mine' unready ending
  | other => exact trivial
  | matching =>
      show Follows _ (if owned.action = .retire then _ else _) _ _
      split
      · rename_i retiring
        exact remove_follows claims retiring quiet' seen
      · rename_i unretired
        refine acknowledge_follows claims (publishing_of_ne unretired) ?_ (.inl seen)
        exact fun lease now reply => quiet'.not_mem rfl
  | absent =>
      show Follows _ (if owned.action = .retire then _ else _) _ _
      split
      · exact recorded_follows claims mine' (by decide) (fun _ => rfl)
          fun _ next settled => ⟨owned, _, next, settled⟩
      · rename_i unretired
        have publishing := publishing_of_ne unretired
        exact write_follows claims publishing quiet'
          ((sublist_polled (current publishing)).cons_cons _)

theorem work_follows (claims : Claims coordinator intentId owned claim)
    (known : owned.action ≠ .other) (quiet : Quiet past) (mine : claim ∈ past) :
    Follows (protocol coordinator intentId) (coordinator.work owned) past
      (returning fun result past' => result.Rests past') := by
  unfold Coordinator.work
  refine Follows.ask_bind trivial (fun now _ => ?_) fun _ => trivial
  have quiet' : Quiet (⟨.clock, some now⟩ :: past) := quiet.read fun _ => Call.noConfusion
  have mine' : claim ∈ (⟨.clock, some now⟩ :: past : Past) := List.mem_cons_of_mem _ mine
  split
  · trivial
  · split
    · rename_i publishing
      refine Follows.seq _ (within_call_follows trivial) ?_ fun _ _ _ => trivial
      rintro current _ longer rfl
      cases current with
      | false =>
          exact pending_follows claims (longer.subset mine') (by decide) fun _ => rfl
      | true =>
          refine inspected_follows claims known (quiet'.polled.call rfl) (longer.subset mine') ?_
          intro _
          exact (sublist_polled (List.singleton_sublist.mpr mine')).cons_cons _
    · rename_i retiring
      exact inspected_follows claims known quiet' mine' fun publishing =>
        absurd publishing retiring

theorem recover_follows (claims : Claims coordinator intentId owned claim) (mine : claim ∈ past) :
    Follows (protocol coordinator intentId) (coordinator.recover owned) past
      (returning fun result past' => result.Rests past') := by
  unfold Coordinator.recover
  refine aborted_follows fun stopped => ?_
  cases stopped with
  | true => trivial
  | false =>
      obtain ⟨unready, ending⟩ := openState_fits owned
      have pending : Follows (protocol coordinator intentId)
          (do
            let _ ← coordinator.record owned (Coordinator.openState owned)
              "core.file.publication.outcome-unknown"
            pure Result.pending)
          (⟨.aborted, some false⟩ :: past) (returning fun result _ => result = .pending) :=
        Follows.seq _ (record_follows claims (List.mem_cons_of_mem _ mine) unready ending)
          (fun _ _ _ _ => rfl) fun _ _ _ => trivial
      refine pending.guarding ?_ fun _ _ _ => trivial
      rintro _ past' - rfl
      trivial

theorem claimWork_follows (now : JsNumber) (quiet : Quiet past) :
    Follows (protocol coordinator intentId) (coordinator.claimWork intentId now) past
      (returning fun claimed past' => match claimed with
        | .inl result => result.Rests past'
        | .inr owned => owned.action ≠ .other ∧ Quiet past' ∧
            ∃ claim ∈ past', Claims coordinator intentId owned claim) := by
  unfold Coordinator.claimWork
  refine Follows.seq (fun work past' => Quiet past' ∧ ∃ token,
    answered (.claim intentId token now (now.add coordinator.leaseMs)) work ∈ past')
    (within_follows ?_) ?_ fun _ _ _ => trivial
  · refine Follows.ask_bind trivial (fun token _ => ?_) fun _ => trivial
    refine Follows.check_bind (fun token _ => ?_) fun _ => trivial
    refine Follows.mono (call_follows rfl rfl) fun result past' _ settled => ?_
    cases result with
    | error fault => exact trivial
    | ok work =>
        have same : past' = _ := settled
        subst same
        exact ⟨(quiet.polled.read fun _ => Call.noConfusion).call rfl, token, List.mem_cons_self⟩
  · rintro work past' - ⟨quiet', token, settled⟩
    cases work with
    | none => exact trivial
    | some work =>
        refine Follows.check_bind (fun intent verified => ?_) fun _ => trivial
        split
        · trivial
        · rename_i accepted
          refine Follows.check_bind (fun _ _ => ?_) fun _ => trivial
          refine ⟨fun other => accepted (.inr (.inr (.inr (.inr other)))), quiet', _, settled,
            work, token, now, _, intent, rfl, verified, ?_, rfl⟩
          by_contra different
          exact accepted (.inl different)

/-- A run keeps to the protocol, and its result rests on what the ports answered. -/
theorem run_follows (coordinator : Coordinator) (intentId : JsString) :
    Follows (protocol coordinator intentId) (coordinator.run intentId) []
      (returning fun result past' => result.Rests past') := by
  unfold Coordinator.run
  refine Follows.check_bind (fun _ _ => ?_) fun _ => trivial
  refine Follows.ask_bind trivial (fun now _ => ?_) fun _ => trivial
  refine Follows.seq (fun claimed past' => match claimed with
    | .inl result => result.Rests past'
    | .inr owned => owned.action ≠ .other ∧ Quiet past' ∧
        ∃ claim ∈ past', Claims coordinator intentId owned claim) ?_ ?_ fun _ _ _ => trivial
  · refine Follows.guarding (claimWork_follows now (quiet_nil.read fun _ => Call.noConfusion))
      (fun _ _ _ held => held) fun fault past' _ => ?_
    cases fault with
    | other => exact trivial
    | publication code =>
        simp only [Coordinator.unowned]
        split <;> trivial
  · intro claimed past' _ held
    cases claimed with
    | inl result => exact held
    | inr owned =>
        obtain ⟨known, quiet, claim, mine, claims⟩ := held
        exact Follows.guarding (work_follows claims known quiet mine)
          (fun _ _ _ rests => rests) fun _ _ longer => recover_follows claims (longer.subset mine)

end Paths

/-! ## Every execution -/

section Executions

variable (coordinator : Coordinator) (intentId : JsString)

/-- A claim of this run was answered with a lease, whose intent is verified and has the id of
the run; `lease` is that lease with the verified intent. -/
def Event.Claims (lease : Lease) (event : Event) : Prop :=
  ∃ work token now leaseUntil intent,
    event = .settle (.claim intentId token now leaseUntil) (.ok (some work)) ∧
      coordinator.verify work.intent = .ok intent ∧ intent.id = intentId ∧
      lease = { work with intent := intent }

/-- What must have happened when an event happens; `earlier` is newest first. -/
def Event.Due (earlier : List Event) : Event → Prop
  | .start port =>
      Event.abort ∉ earlier ∧
        match port with
        | .publish intent =>
            (∀ intent', Event.start (.publish intent') ∉ earlier) ∧
              ∃ lease claim, Event.Claims coordinator intentId lease claim ∧
                lease.action = .publish ∧ lease.intent = intent ∧
                [.settle (.isCurrent lease) (.ok true), .settle (.inspect intent) (.ok .absent),
                  .settle (.isCurrent lease) (.ok true), claim].Sublist earlier
        | .removeExact intent =>
            (∀ intent', Event.start (.removeExact intent') ∉ earlier) ∧
              ∃ lease claim, Event.Claims coordinator intentId lease claim ∧
                lease.action = .retire ∧ lease.intent = intent ∧
                [.settle (.inspect intent) (.ok .matching), claim].Sublist earlier
        | .commitReady lease _ =>
            (∀ lease' now, Event.start (.commitReady lease' now) ∉ earlier) ∧
              ∃ claim, Event.Claims coordinator intentId lease claim ∧ lease.action = .publish ∧
                ([.settle (.inspect lease.intent) (.ok .matching), claim].Sublist earlier ∨
                  [.settle (.publish lease.intent) (.ok .acknowledged), claim].Sublist earlier)
        | _ => True
  | _ => True

/-- What a result rests on, as an observer of the ports sees it. -/
def Result.Backed (events : List Event) : Result → Prop
  | .ready => ∃ lease now, Event.settle (.commitReady lease now) (.ok .ready) ∈ events
  | .retired =>
      ∃ lease code next, Event.settle (.record lease .retired code next) (.ok true) ∈ events
  | .blocked =>
      ∃ lease code next, Event.settle (.record lease .blocked code next) (.ok true) ∈ events
  | _ => True

end Executions

/-- The event that a settled step of a program is. -/
def settled : Step sig → Option Event
  | ⟨.call port, some outcome⟩ => some (.settle port outcome)
  | _ => none

def startedBy : Step sig → Option Port
  | ⟨.call port, _⟩ => some port
  | _ => none

def Event.isSettle : Event → Bool
  | .settle _ _ => true
  | _ => false

def Event.started : Event → Option Port
  | .start port => some port
  | _ => none

/-- What an execution has to do with the steps of its program. -/
structure Traced (coordinator : Coordinator) (intentId : JsString) (past : Past)
    (e : Execution (Except Fault Result)) : Prop where
  obeys : Program.Obeys (protocol coordinator intentId) e.program past
    (returning fun result past' => result.Rests past')
  waits : e.waiting = true → ∃ port next, e.program = .ask (.call port) next
  settles : e.events.filter Event.isSettle = past.filterMap settled
  starts : e.events.filterMap Event.started =
    (if e.waiting then (match e.program with
      | .ask (.call port) _ => [port]
      | _ => []) else []) ++ past.filterMap startedBy
  /-- After the abort a program that could start a call has yet to read the signal. -/
  stops : e.stopped = true → e.waiting = false → Checked past →
    ∃ next, e.program = .ask .aborted next
  aborts : e.stopped = false → Event.abort ∉ e.events
  due : ∀ later event earlier, e.events = later ++ event :: earlier →
    event.Due coordinator intentId earlier

section Steps

variable {coordinator : Coordinator} {intentId : JsString} {past : Past}
  {e e' : Execution (Except Fault Result)}

theorem traced_begin (obeys : Program.Obeys (protocol coordinator intentId) e.program []
      (returning fun result past' => result.Rests past'))
    (begun : e = .begin_ e.program) : Traced coordinator intentId [] e where
  obeys := obeys
  waits waiting := by
    rw [begun] at waiting
    cases waiting
  settles := by rw [begun]; rfl
  starts := by rw [begun]; rfl
  stops stopped := by
    rw [begun] at stopped
    cases stopped
  aborts _ := by
    rw [begun]
    exact List.not_mem_nil
  due later event earlier split := by
    rw [begun] at split
    simp [Execution.begin_] at split

/-- Every event was due, so a new one that is due keeps it so. -/
theorem due_cons {events : List Event} {event : Event}
    (due : ∀ later event earlier, events = later ++ event :: earlier →
      event.Due coordinator intentId earlier)
    (now : event.Due coordinator intentId events) :
    ∀ later event' earlier, event :: events = later ++ event' :: earlier →
      event'.Due coordinator intentId earlier := by
  intro later event' earlier split
  cases later with
  | nil =>
      cases split
      exact now
  | cons newest later =>
      obtain ⟨-, rest⟩ := List.cons.inj split
      exact due later event' earlier rest

theorem event_of_claims {lease : Lease} {step : Step sig}
    (claims : Claims coordinator intentId lease step) :
    ∃ event, [step].filterMap settled = [event] ∧
      Event.Claims coordinator intentId lease event := by
  obtain ⟨work, token, now, leaseUntil, intent, rfl, verified, same, built⟩ := claims
  exact ⟨_, rfl, work, token, now, leaseUntil, intent, rfl, verified, same, built⟩

namespace Traced

variable (traced : Traced coordinator intentId past e)

include traced

/-- Settled steps are events, in the same order. -/
theorem sublist {steps : Past} (inside : steps.Sublist past) :
    (steps.filterMap settled).Sublist e.events := by
  have kept := inside.filterMap settled
  rw [← traced.settles] at kept
  exact kept.trans List.filter_sublist

theorem mem {step : Step sig} {event : Event} (inside : step ∈ past)
    (seen : settled step = some event) : event ∈ e.events := by
  have single := traced.sublist (List.singleton_sublist.mpr inside)
  rw [List.filterMap_cons_some seen] at single
  exact single.subset List.mem_cons_self

/-- A port that no step called has not been started. -/
theorem unstarted (idle : e.waiting = false) {port : Port}
    (untried : ∀ reply, (⟨.call port, reply⟩ : Step sig) ∉ past) :
    Event.start port ∉ e.events := by
  intro started
  have member : port ∈ e.events.filterMap Event.started :=
    List.mem_filterMap.mpr ⟨.start port, started, rfl⟩
  rw [traced.starts, idle] at member
  obtain ⟨step, inside, called⟩ := List.mem_filterMap.mp member
  obtain ⟨call, reply⟩ := step
  cases call with
  | call port' =>
      cases called
      exact untried reply inside
  | clock => cases called
  | newId => cases called
  | aborted => cases called

/-- What the protocol permits is due. -/
theorem due_start {port : Port} {next : Option port.Outcome → Program sig (Except Fault Result)}
    (asked : e.program = .ask (.call port) next) (idle : e.waiting = false) :
    (Event.start port).Due coordinator intentId e.events := by
  have obeys := traced.obeys
  rw [asked] at obeys
  obtain ⟨⟨checked, permitted⟩, -⟩ := obeys
  have running : e.stopped = false := by
    cases stopped : e.stopped with
    | false => rfl
    | true =>
        obtain ⟨next', reading⟩ := traced.stops stopped idle checked
        rw [asked] at reading
        cases reading
  refine ⟨traced.aborts running, ?_⟩
  cases port with
  | publish intent =>
      obtain ⟨untried, lease, claim, claims, publishing, same, order⟩ := permitted
      obtain ⟨event, seen, eventClaims⟩ := event_of_claims claims
      refine ⟨fun intent' => traced.unstarted idle (untried intent'), lease, event, eventClaims,
        publishing, same, ?_⟩
      have events : (_ :: _ :: _ :: [claim].filterMap settled).Sublist e.events :=
        traced.sublist order
      rwa [seen] at events
  | removeExact intent =>
      obtain ⟨untried, lease, claim, claims, retiring, same, order⟩ := permitted
      obtain ⟨event, seen, eventClaims⟩ := event_of_claims claims
      refine ⟨fun intent' => traced.unstarted idle (untried intent'), lease, event, eventClaims,
        retiring, same, ?_⟩
      have events : (_ :: [claim].filterMap settled).Sublist e.events := traced.sublist order
      rwa [seen] at events
  | commitReady lease now =>
      obtain ⟨untried, claim, claims, publishing, backed⟩ := permitted
      obtain ⟨event, seen, eventClaims⟩ := event_of_claims claims
      refine ⟨fun lease' now' => traced.unstarted idle (untried lease' now'), event, eventClaims,
        publishing, backed.imp (fun order => ?_) fun order => ?_⟩
      · have events : (_ :: [claim].filterMap settled).Sublist e.events := traced.sublist order
        rwa [seen] at events
      · have events : (_ :: [claim].filterMap settled).Sublist e.events := traced.sublist order
        rwa [seen] at events
  | _ => trivial

/-- Only a port call is waited for. -/
theorem idle_of_read {call : Call} {next : Option call.Answer → Program sig (Except Fault Result)}
    (asked : e.program = .ask call next) (plain : ∀ port, call ≠ .call port) :
    e.waiting = false := by
  cases waiting : e.waiting with
  | false => rfl
  | true =>
      obtain ⟨port, next', called⟩ := traced.waits waiting
      rw [asked] at called
      cases called
      exact absurd rfl (plain port)

/-- After the abort, synchronous code that does not read the signal is not on its way to a call. -/
theorem not_checked {call : Call} {next : Option call.Answer → Program sig (Except Fault Result)}
    (asked : e.program = .ask call next) (plain : ∀ port, call ≠ .call port)
    (unread : call ≠ .aborted) (stopped : e.stopped = true) : ¬ Checked past := by
  intro checked
  obtain ⟨next', reading⟩ := traced.stops stopped (traced.idle_of_read asked plain) checked
  rw [asked] at reading
  cases reading
  exact unread rfl

/-- A synchronous read adds a step that is no event. -/
theorem read {call : Call} {next : Option call.Answer → Program sig (Except Fault Result)}
    {reply : Option call.Answer} (asked : e.program = .ask call next)
    (plain : ∀ port, call ≠ .call port)
    (credible : (protocol coordinator intentId).credible ⟨call, reply⟩)
    (stops : e.stopped = true → ¬ Checked (⟨call, reply⟩ :: past)) :
    Traced coordinator intentId (⟨call, reply⟩ :: past) { e with program := next reply } := by
  have idle := traced.idle_of_read asked plain
  have silent : settled ⟨call, reply⟩ = none ∧ startedBy ⟨call, reply⟩ = none := by
    cases call with
    | call port => exact absurd rfl (plain port)
    | _ => exact ⟨rfl, rfl⟩
  have obeys := traced.obeys
  rw [asked] at obeys
  refine ⟨obeys.2 reply credible, ?_, ?_, ?_, ?_, traced.aborts, traced.due⟩
  · intro waiting
    have waiting : e.waiting = true := waiting
    rw [idle] at waiting
    cases waiting
  · rw [List.filterMap_cons_none silent.1]
    exact traced.settles
  · have starts := traced.starts
    rw [idle] at starts
    rw [List.filterMap_cons_none silent.2]
    simpa [idle] using starts
  · intro stopped _ checked
    exact absurd checked (stops stopped)

/-- A call that settles or is given up adds its step. -/
theorem called {port : Port} {next : Option port.Outcome → Program sig (Except Fault Result)}
    {reply : Option port.Outcome} (asked : e.program = .ask (.call port) next)
    (started : e.waiting = true) {events : List Event}
    (settles : events.filter Event.isSettle =
      (⟨.call port, reply⟩ :: past : Past).filterMap settled)
    (starts : events.filterMap Event.started = e.events.filterMap Event.started)
    (aborts : e.stopped = false → Event.abort ∉ events)
    (due : ∀ later event earlier, events = later ++ event :: earlier →
      event.Due coordinator intentId earlier) :
    Traced coordinator intentId (⟨.call port, reply⟩ :: past)
      { e with program := next reply, waiting := false, events := events } := by
  have obeys := traced.obeys
  rw [asked] at obeys
  refine ⟨obeys.2 reply trivial, fun wrong => (by cases wrong), settles, ?_, fun _ _ checked => checked.elim, aborts, due⟩
  rw [starts, traced.starts, started, asked]
  rfl

theorem moves (moved : e.Moves e') : ∃ past', Traced coordinator intentId past' e' := by
  cases moved with
  | abort running suspended =>
      refine ⟨past, traced.obeys, traced.waits, traced.settles, traced.starts, ?_, ?_,
        due_cons traced.due trivial⟩
      · intro _ idle _
        rcases suspended with ⟨-, reading⟩ | ⟨started, -⟩
        · exact reading
        · have idle : e.waiting = false := idle
          rw [started] at idle
          cases idle
      · intro wrong
        cases wrong
  | poll asked =>
      refine ⟨_, traced.read asked (fun _ => Call.noConfusion) trivial ?_⟩
      intro stopped checked
      have checked : e.stopped = false := checked
      rw [stopped] at checked
      cases checked
  | tick reply asked =>
      refine ⟨_, traced.read asked (fun _ => Call.noConfusion) trivial ?_⟩
      exact fun stopped checked => traced.not_checked asked (fun _ => Call.noConfusion)
        Call.noConfusion stopped checked
  | draw reply asked =>
      refine ⟨_, traced.read asked (fun _ => Call.noConfusion) trivial ?_⟩
      exact fun stopped checked => traced.not_checked asked (fun _ => Call.noConfusion)
        Call.noConfusion stopped checked
  | start asked unstarted =>
      refine ⟨past, traced.obeys, fun _ => ⟨_, _, asked⟩, traced.settles, ?_,
        fun _ wrong => (by cases wrong), ?_,
        due_cons traced.due (traced.due_start asked unstarted)⟩
      · have starts := traced.starts
        rw [unstarted] at starts
        simp [Event.started, starts, asked]
      · intro running member
        rcases List.mem_cons.mp member with wrong | old
        · cases wrong
        · exact traced.aborts running old
  | settle outcome asked started running =>
      refine ⟨_, traced.called asked started ?_ rfl ?_ (due_cons traced.due trivial)⟩
      · show Event.settle _ outcome :: e.events.filter Event.isSettle =
          Event.settle _ outcome :: past.filterMap settled
        rw [traced.settles]
      · intro running member
        rcases List.mem_cons.mp member with wrong | old
        · cases wrong
        · exact traced.aborts running old
  | expire asked started stopped =>
      exact ⟨_, traced.called asked started traced.settles rfl traced.aborts traced.due⟩

end Traced

theorem traced_of_reached (reached : Execution.Reached (coordinator.run intentId).run e) :
    ∃ past, Traced coordinator intentId past e := by
  induction reached with
  | start => exact ⟨[], traced_begin (run_follows coordinator intentId) rfl⟩
  | step label _ stepped ih =>
      obtain ⟨past, traced⟩ := ih
      exact traced.moves (Execution.moves_of_step stepped)

/-- **The order of a run.**  For any outcomes of the ports and an abort at any moment, every
event was due when it happened: nothing is started after the abort; `publish` only after the
claim of a verified publish lease, `isCurrent`, `inspect` with the answer absent and `isCurrent`
again; `removeExact` only for a retire lease after `inspect` with the answer matching;
`commitReady` only after a match or an acknowledged publish; each of the three at most once.
And the result of the run rests on an answer of the repository. -/
theorem run_keeps_order (coordinator : Coordinator) (intentId : JsString)
    {e : Execution (Except Fault Result)}
    (reached : Execution.Reached (coordinator.run intentId).run e) :
    (∀ later event earlier, e.events = later ++ event :: earlier →
      event.Due coordinator intentId earlier) ∧
    ∀ result, e.program = .done (.ok result) → result.Backed e.events := by
  obtain ⟨past, traced⟩ := traced_of_reached reached
  refine ⟨traced.due, fun result finished => ?_⟩
  have rests := traced.obeys
  rw [finished] at rests
  cases result with
  | ready =>
      obtain ⟨lease, now, there⟩ := rests
      exact ⟨lease, now, traced.mem there rfl⟩
  | retired =>
      obtain ⟨lease, code, next, there⟩ := rests
      exact ⟨lease, code, next, traced.mem there rfl⟩
  | blocked =>
      obtain ⟨lease, code, next, there⟩ := rests
      exact ⟨lease, code, next, traced.mem there rfl⟩
  | idle => trivial
  | pending => trivial
  | lost => trivial

end Steps

/-! ## A run that publishes -/

def smallSha256 : JsString :=
  js "b3cc0475bb78a5026098858e9889acf666d31062d513d303314eca31d36e72f2"

/-- The digests of the one source, the one generation and the one descriptor used here. -/
def smallPlatform : Platform where
  publicationHash text :=
    if text.head? = some 0x5B then
      js "3e14c84541e5a525ead3576db46599570f3cf0c2b76deb241b6e139ee4de41bf"
    else js "95d5b194e419448f02717805363b4c3a2b8ac94eecf304619ebc981e4c42546b"
  parseUrl text := some ⟨js "https:", [], [], [], [], text ++ [slash]⟩

def smallConfig : Config where
  environment := js "test"
  keyPrefix := []
  modulePrefixes := [(js "asset", js "asset")]
  cdnBaseUrl := some (js "https://cdn.example.test")
  external := true

def smallBinding : Binding := ⟨js "test", js "asset", js "s", js "logo", js "v1"⟩

def smallSource : Source :=
  ⟨js "source", js "v1", js "private-source", smallSha256, .finite 9, js "image/png"⟩

def smallKey : JsString :=
  js "test/asset/public/s/" ++
    js "3e14c84541e5a525ead3576db46599570f3cf0c2b76deb241b6e139ee4de41bf" ++ [slash] ++
    smallSha256

def smallIntent : Intent where
  id := js "i"
  binding := smallBinding
  source := smallSource
  target := ⟨smallKey, js "https://cdn.example.test/" ++ smallKey⟩
  descriptorHash := js "95d5b194e419448f02717805363b4c3a2b8ac94eecf304619ebc981e4c42546b"
  createdAt := .finite 0

def smallLease : Lease := ⟨smallIntent, js "token", .finite 1, .finite 1000, .publish⟩

def smallCoordinator : Coordinator :=
  ⟨smallPlatform, smallConfig, .finite 1000, .finite 1000, by decide +kernel⟩

/-- A call after its two checks of the signal. -/
def calling (port : Port) (outcome : port.Outcome) : List Label :=
  [.poll, .poll, .start, .settle port outcome]

def published : List Label :=
  [.tick (some (.finite 0)), .poll, .poll, .draw (some (js "token")), .start,
    .settle (.claim (js "i") (js "token") (.finite 0) (.finite 1000)) (.ok (some smallLease)),
    .tick (some (.finite 1))] ++
    calling (.isCurrent smallLease) (.ok true) ++
    calling (.inspect smallIntent) (.ok .absent) ++
    calling (.isCurrent smallLease) (.ok true) ++
    calling (.publish smallIntent) (.ok .acknowledged) ++
    [.poll, .poll, .tick (some (.finite 2)), .start,
      .settle (.commitReady smallLease (.finite 2)) (.ok .ready)]

/-- The result of a finished execution. -/
def Execution.result? {α : Type} (e : Execution α) : Option α :=
  match e.program with
  | .done value => some value
  | _ => none

/-- The run publishes and is ready; every one of its twelve events was due. -/
theorem run_keeps_order_published : ∃ e : Execution (Except Fault Result),
    Execution.Reached (smallCoordinator.run (js "i")).run e ∧
    e.result? = some (.ok .ready) ∧ e.events.length = 12 ∧
    (∀ later event earlier, e.events = later ++ event :: earlier →
      event.Due smallCoordinator (js "i") earlier) ∧
    ∀ result, e.program = .done (.ok result) → result.Backed e.events := by
  have observed : ((Execution.begin_ (smallCoordinator.run (js "i")).run).follow published).map
      (fun e => (e.result?, e.events.length)) = some (some (.ok .ready), 12) := by
    decide +kernel
  obtain ⟨e, followed, seen⟩ := Option.map_eq_some_iff.mp observed
  obtain ⟨ready, twelve⟩ := Prod.mk.inj seen
  have reached := Execution.reached_follow .start followed
  exact ⟨e, reached, ready, twelve, run_keeps_order smallCoordinator (js "i") reached⟩

end SdcoreNest.Publication
