/-
# Theory.Interleaving -- many programs over one shared world

A `Machine` says what each call does to a shared world.  Any number of workers
run programs over it, one call at a time, in any order.  A call can end in four
ways (`Mode`):

* `answer`: it takes effect and its answer arrives;
* `refuse`: it throws and has no effect;
* `lose`: it throws although it took effect;
* `defer`: it throws, and what is left of it (`Machine.residue`) may take effect
  at any later moment, or never.

A worker may also stop for good between two calls (`crash`), and the environment
may move.  `Config.step` is executable; `Reach` collects the configurations that
some schedule reaches, all of whose shared acts meet a run condition.

The history of a core determines every worker's own steps (`Core.pastOf`), so an
invariant of the shared part can say what each worker knows.  The invariant rule is
`Reach.keeps`: an invariant kept by every act that the conduct allows its worker
holds in every reachable configuration.
-/
import SdcoreNest.Theory.Program

namespace SdcoreNest.Theory

set_option autoImplicit false

/-- A worker: one request or job run by one process. -/
structure Worker where
  process : Nat
  thread : Nat
deriving DecidableEq

/-- What calls do to a shared world.  `sure` calls never throw; `residue` is what
may still take effect of a call that threw. -/
structure Machine (S : Signature) where
  World : Type
  Move : Type
  exec : World → Worker → (call : S.Call) → S.Answer call × World
  sure : S.Call → Bool
  residue : S.Call → List S.Call
  move : World → Move → Option World

/-- How a call ends. -/
inductive Mode where
  | answer
  | refuse
  | lose
  | defer
deriving DecidableEq

namespace Machine

variable {S : Signature} (M : Machine S)

/-- What happens to the shared part in one step. -/
inductive Act where
  | issue (mode : Mode) (worker : Worker) (call : S.Call)
  | land (worker : Worker) (call : S.Call)
  | crash (worker : Worker)
  | move (m : M.Move)

/-- An act together with the world it met. -/
structure Event where
  act : Act M
  before : M.World

/-- The shared part: the world, the calls that may still land, and all past
events, newest first. -/
structure Core where
  world : M.World
  deferred : List (Worker × S.Call)
  history : List (Event M)

variable {M}

namespace Core

/-- The world after a call that ended in `mode`; a call without residue has no
effect to lose. -/
def worldAfter (core : Core M) (worker : Worker) (call : S.Call) : Mode → M.World
  | .answer => (M.exec core.world worker call).2
  | .lose => if (M.residue call).isEmpty then core.world else (M.exec core.world worker call).2
  | .refuse | .defer => core.world

/-- What may still land after a call that ended in `mode`. -/
def deferredAfter (core : Core M) (worker : Worker) (call : S.Call) :
    Mode → List (Worker × S.Call)
  | .defer => (M.residue call).map (worker, ·) ++ core.deferred
  | .answer | .refuse | .lose => core.deferred

theorem worldAfter_cases (core : Core M) (worker : Worker) (call : S.Call) (mode : Mode) :
    (mode ≠ .answer ∧ core.worldAfter worker call mode = core.world) ∨
      (mode ≠ .defer ∧ core.worldAfter worker call mode = (M.exec core.world worker call).2) := by
  cases mode with
  | answer => exact .inr ⟨by simp, rfl⟩
  | refuse => exact .inl ⟨by simp, rfl⟩
  | defer => exact .inl ⟨by simp, rfl⟩
  | lose =>
      simp only [worldAfter]
      split
      · exact .inl ⟨by simp, rfl⟩
      · exact .inr ⟨by simp, rfl⟩

def issue (core : Core M) (mode : Mode) (worker : Worker) (call : S.Call) : Core M where
  world := core.worldAfter worker call mode
  deferred := core.deferredAfter worker call mode
  history := ⟨.issue mode worker call, core.world⟩ :: core.history

def land (core : Core M) (worker : Worker) (call : S.Call)
    (deferred : List (Worker × S.Call)) : Core M where
  world := (M.exec core.world worker call).2
  deferred := deferred
  history := ⟨.land worker call, core.world⟩ :: core.history

def crash (core : Core M) (worker : Worker) : Core M :=
  { core with history := ⟨.crash worker, core.world⟩ :: core.history }

def move (core : Core M) (m : M.Move) (world : M.World) : Core M :=
  { core with world := world, history := ⟨.move m, core.world⟩ :: core.history }

end Core

/-- What a worker sees of a call that met `world` and ended in `mode`. -/
def replyIn (world : M.World) (worker : Worker) (call : S.Call) :
    Mode → Option (S.Answer call)
  | .answer => some (M.exec world worker call).1
  | .refuse | .lose | .defer => none

/-- A step with an answer was answered, by the call it names. -/
theorem answered_of_step {world : M.World} {worker : Worker} {mode : Mode}
    {call issued : S.Call} {answer : S.Answer call}
    (same : (⟨call, some answer⟩ : Step S) = ⟨issued, replyIn world worker issued mode⟩) :
    mode = .answer ∧ issued = call ∧ answer = (M.exec world worker call).1 := by
  obtain ⟨rfl, replied⟩ := Step.mk.inj same
  have replied := eq_of_heq replied
  cases mode with
  | answer => exact ⟨rfl, rfl, Option.some.inj replied⟩
  | refuse => cases replied
  | lose => cases replied
  | defer => cases replied

/-- The step that an event is for a worker. -/
def Event.stepOf (worker : Worker) (event : Event M) : Option (Step S) :=
  match event.act with
  | .issue mode issuer call =>
      if issuer = worker then some ⟨call, replyIn event.before worker call mode⟩ else none
  | _ => none

/-- The worker of an event, if it has one that runs. -/
def Act.worker : Act M → Option Worker
  | .issue _ worker _ => some worker
  | .crash worker => some worker
  | .land _ _ | .move _ => none

namespace Core

/-- A worker's own steps, newest first. -/
def pastOf (core : Core M) (worker : Worker) : List (Step S) :=
  core.history.filterMap (Event.stepOf worker)

@[simp] theorem pastOf_issue_self (core : Core M) (mode : Mode) (worker : Worker)
    (call : S.Call) :
    (core.issue mode worker call).pastOf worker =
      ⟨call, replyIn core.world worker call mode⟩ :: core.pastOf worker := by
  simp [pastOf, issue, Event.stepOf]

theorem pastOf_issue_of_ne (core : Core M) (mode : Mode) {worker other : Worker}
    (call : S.Call) (different : other ≠ worker) :
    (core.issue mode worker call).pastOf other = core.pastOf other := by
  simp [pastOf, issue, Event.stepOf, different.symm]

theorem pastOf_issue_suffix (core : Core M) (mode : Mode) (worker other : Worker)
    (call : S.Call) : core.pastOf other <:+ (core.issue mode worker call).pastOf other := by
  by_cases same : other = worker
  · rw [same, pastOf_issue_self]
    exact List.suffix_cons _ _
  · have kept := pastOf_issue_of_ne core mode call same
    exact kept ▸ List.suffix_refl _

/-- An answer in a worker's past is an old one or the answer of the call just issued. -/
theorem mem_pastOf_issue {core : Core M} {mode : Mode} {worker other : Worker}
    {call issued : S.Call} {answer : S.Answer call}
    (member : (⟨call, some answer⟩ : Step S) ∈ (core.issue mode worker issued).pastOf other) :
    (⟨call, some answer⟩ : Step S) ∈ core.pastOf other ∨
      (other = worker ∧ mode = .answer ∧ issued = call ∧
        answer = (M.exec core.world worker call).1) := by
  by_cases same : other = worker
  · rw [same, pastOf_issue_self] at member
    rcases List.mem_cons.mp member with new | old
    · exact .inr ⟨same, answered_of_step new⟩
    · exact .inl (same ▸ old)
  · rw [pastOf_issue_of_ne core mode issued same] at member
    exact .inl member

@[simp] theorem pastOf_land (core : Core M) (worker other : Worker) (call : S.Call)
    (rest : List (Worker × S.Call)) :
    (core.land worker call rest).pastOf other = core.pastOf other :=
  List.filterMap_cons_none rfl

@[simp] theorem pastOf_crash (core : Core M) (worker other : Worker) :
    (core.crash worker).pastOf other = core.pastOf other :=
  List.filterMap_cons_none rfl

@[simp] theorem pastOf_move (core : Core M) (m : M.Move) (world : M.World) (other : Worker) :
    (core.move m world).pastOf other = core.pastOf other :=
  List.filterMap_cons_none rfl

/-- An answered step of a worker: the event issued the call and was answered. -/
theorem answered_of_stepOf {event : Event M} {worker : Worker} {call : S.Call}
    {answer : S.Answer call} (step : event.stepOf worker = some ⟨call, some answer⟩) :
    event.act = .issue .answer worker call ∧ answer = (M.exec event.before worker call).1 := by
  unfold Event.stepOf at step
  split at step
  · rename_i mode issuer issued acted
    split at step
    · rename_i same
      obtain ⟨rfl, rfl, read⟩ := answered_of_step (Option.some.inj step).symm
      exact ⟨by rw [acted, same], read⟩
    · cases step
  · cases step

/-- An answer in a worker's past was given at some moment of the history; the worker's steps
before it were taken before that moment. -/
theorem event_of_suffix {core : Core M} {worker : Worker} {call : S.Call}
    {answer : S.Answer call} {earlier : List (Step S)}
    (suffix : ⟨call, some answer⟩ :: earlier <:+ core.pastOf worker) :
    ∃ event older, event :: older <:+ core.history ∧ event.act = .issue .answer worker call ∧
      answer = (M.exec event.before worker call).1 ∧
      older.filterMap (Event.stepOf worker) = earlier := by
  obtain ⟨newer, split⟩ := suffix
  obtain ⟨first, rest, history, -, kept⟩ := List.filterMap_eq_append_iff.mp split.symm
  obtain ⟨between, event, older, whole, -, step, same⟩ := List.filterMap_eq_cons_iff.mp kept
  obtain ⟨acted, read⟩ := answered_of_stepOf step
  refine ⟨event, older, ⟨first ++ between, ?_⟩, acted, read, same⟩
  rw [history, whole, List.append_assoc]

theorem event_of_answer {core : Core M} {worker : Worker} {call : S.Call}
    {answer : S.Answer call} (member : (⟨call, some answer⟩ : Step S) ∈ core.pastOf worker) :
    ∃ event older, event :: older <:+ core.history ∧ event.act = .issue .answer worker call ∧
      answer = (M.exec event.before worker call).1 := by
  obtain ⟨newer, earlier, split⟩ := List.append_of_mem member
  obtain ⟨event, older, suffix, acted, read, -⟩ := event_of_suffix ⟨newer, split.symm⟩
  exact ⟨event, older, suffix, acted, read⟩

/-- The worker stopped for good. -/
def Crashed (core : Core M) (worker : Worker) : Prop :=
  ∃ event ∈ core.history, event.act = .crash worker

@[simp] theorem crashed_issue (core : Core M) (mode : Mode) (worker other : Worker)
    (call : S.Call) : (core.issue mode worker call).Crashed other ↔ core.Crashed other := by
  simp [Crashed, issue]

@[simp] theorem crashed_land (core : Core M) (worker other : Worker) (call : S.Call)
    (rest : List (Worker × S.Call)) :
    (core.land worker call rest).Crashed other ↔ core.Crashed other := by
  simp [Crashed, land]

@[simp] theorem crashed_crash (core : Core M) (worker other : Worker) :
    (core.crash worker).Crashed other ↔ worker = other ∨ core.Crashed other := by
  simp [Crashed, crash]

@[simp] theorem crashed_move (core : Core M) (m : M.Move) (world : M.World) (other : Worker) :
    (core.move m world).Crashed other ↔ core.Crashed other := by
  simp [Crashed, move]

theorem pastOf_eq_nil {core : Core M} {worker : Worker}
    (unused : ∀ event ∈ core.history, event.act.worker ≠ some worker) :
    core.pastOf worker = [] := by
  refine List.filterMap_eq_nil_iff.mpr fun event member => ?_
  have other := unused event member
  unfold Event.stepOf
  split
  · rename_i mode issuer call acted
    refine if_neg fun same => other ?_
    rw [acted, same, Act.worker]
  · rfl

end Core

/-- What is left of a running program, and what was started. -/
structure Thread (S : Signature) (α Op : Type) where
  worker : Worker
  origin : Op
  program : Program S α

/-- The shared part and the threads; thread numbers from `size` on are unused. -/
structure Config (M : Machine S) (α Op : Type) where
  core : Core M
  threads : Nat → Option (Thread S α Op)
  size : Nat

/-- The scheduler's choices. -/
inductive Label (M : Machine S) (Op : Type) where
  | spawn (process : Nat) (op : Op)
  | issue (mode : Mode) (thread : Nat)
  | crash (thread : Nat)
  | land (index : Nat)
  | move (m : M.Move)

section Run

variable {α Op : Type} (launch : Op → Program S α)

namespace Config

def setThread (config : Config M α Op) (number : Nat) (thread : Option (Thread S α Op)) :
    Nat → Option (Thread S α Op) :=
  fun other => if other = number then thread else config.threads other

/-- One step of the whole system; `none` when the label is not enabled. -/
def step (config : Config M α Op) : Label M Op → Option (Config M α Op)
  | .spawn process op => some
      { config with
        threads := config.setThread config.size (some ⟨⟨process, config.size⟩, op, launch op⟩)
        size := config.size + 1 }
  | .issue mode number =>
      match config.threads number with
      | some ⟨worker, op, .ask call next⟩ =>
          if mode = .answer ∨ M.sure call = false then
            some { config with
              core := config.core.issue mode worker call
              threads := config.setThread number
                (some ⟨worker, op, next (replyIn config.core.world worker call mode)⟩) }
          else none
      | _ => none
  | .crash number =>
      match config.threads number with
      | some thread => some
          { config with
            core := config.core.crash thread.worker
            threads := config.setThread number none }
      | none => none
  | .land index =>
      match config.core.deferred[index]? with
      | some (worker, call) => some
          { config with
            core := config.core.land worker call (config.core.deferred.eraseIdx index) }
      | none => none
  | .move m => (M.move config.core.world m).map fun world =>
      { config with core := config.core.move m world }

/-- The act of a step on the shared part; spawning has none. -/
def act (config : Config M α Op) : Label M Op → Option (Act M)
  | .spawn _ _ => none
  | .issue mode number =>
      match config.threads number with
      | some ⟨worker, _, .ask call _⟩ => some (.issue mode worker call)
      | _ => none
  | .crash number => (config.threads number).map fun thread => .crash thread.worker
  | .land index => config.core.deferred[index]?.map fun (worker, call) => .land worker call
  | .move m => some (.move m)

/-- Nothing is running yet. -/
def start (world : M.World) : Config M α Op where
  core := ⟨world, [], []⟩
  threads := fun _ => none
  size := 0

/-- Follow a schedule; `none` when a label of it is not enabled or its act fails the check. -/
def follow (check : Core M → Act M → Bool) (config : Config M α Op) :
    List (Label M Op) → Option (Config M α Op)
  | [] => some config
  | label :: labels =>
      match config.step launch label with
      | some next =>
          if (config.act label).all (check config.core) then next.follow check labels else none
      | none => none

end Config

/-- The configurations reached from `world` by schedules all of whose shared acts
meet `ok`. -/
inductive Reach (ok : Core M → Act M → Prop) (world : M.World) : Config M α Op → Prop where
  | start : Reach ok world (.start world)
  | step {config config' : Config M α Op} (label : Label M Op) :
      Reach ok world config →
      (∀ act, config.act label = some act → ok config.core act) →
      config.step launch label = some config' →
      Reach ok world config'

section Symbolic

variable {launch} {ok : Core M → Act M → Prop} {world : M.World} {config : Config M α Op}

/-- Start one more thread. -/
theorem Reach.spawn (reached : Reach launch ok world config) (process : Nat) (op : Op) :
    ∃ config', Reach launch ok world config' ∧ config'.core = config.core ∧
      config'.size = config.size + 1 ∧
      config'.threads config.size = some ⟨⟨process, config.size⟩, op, launch op⟩ := by
  refine ⟨_, .step (.spawn process op) reached (fun _ acted => by cases acted) rfl, rfl, rfl, ?_⟩
  exact if_pos rfl

/-- Answer the call that a thread waits for. -/
theorem Reach.answer (reached : Reach launch ok world config) {number : Nat} {worker : Worker}
    {op : Op} {call : S.Call} {next : Option (S.Answer call) → Program S α}
    (found : config.threads number = some ⟨worker, op, .ask call next⟩)
    (met : ok config.core (.issue .answer worker call)) :
    ∃ config', Reach launch ok world config' ∧
      config'.core = config.core.issue .answer worker call ∧ config'.size = config.size ∧
      config'.threads number =
        some ⟨worker, op, next (some (M.exec config.core.world worker call).1)⟩ := by
  refine ⟨{ config with
    core := config.core.issue .answer worker call
    threads := config.setThread number
      (some ⟨worker, op, next (some (M.exec config.core.world worker call).1)⟩) },
    .step (.issue .answer number) reached ?_ ?_, rfl, rfl, if_pos rfl⟩
  · simpa [Config.act, found] using met
  · simp [Config.step, found, replyIn]

/-- Let the environment move. -/
theorem Reach.move (reached : Reach launch ok world config) {m : M.Move} {moved : M.World}
    (moves : M.move config.core.world m = some moved) (met : ok config.core (.move m)) :
    ∃ config', Reach launch ok world config' ∧ config'.core = config.core.move m moved ∧
      config'.size = config.size := by
  refine ⟨{ config with core := config.core.move m moved }, .step (.move m) reached ?_ ?_,
    rfl, rfl⟩
  · simpa [Config.act] using met
  · simp [Config.step, moves]

end Symbolic

theorem reach_follow {ok : Core M → Act M → Prop} {check : Core M → Act M → Bool}
    (meets : ∀ core act, check core act = true → ok core act) {world : M.World}
    {labels : List (Label M Op)} {config config' : Config M α Op}
    (reached : Reach launch ok world config)
    (followed : config.follow launch check labels = some config') :
    Reach launch ok world config' := by
  induction labels generalizing config with
  | nil =>
      cases followed
      exact reached
  | cons label labels ih =>
      simp only [Config.follow] at followed
      split at followed
      · rename_i next stepped
        split at followed
        · rename_i checked
          refine ih (.step label reached (fun act acted => meets _ act ?_) stepped) followed
          simpa [acted] using checked
        · cases followed
      · cases followed

/-! ## The invariant rule -/

/-- The acts that a conduct and a run condition admit, as a relation on cores. -/
inductive Core.Admits (C : Conduct S) (ok : Core M → Act M → Prop) :
    Core M → Act M → Core M → Prop where
  | issue {core : Core M} {mode : Mode} {worker : Worker} {call : S.Call} :
      C.allows (core.pastOf worker) call → ¬ core.Crashed worker →
      (mode = .answer ∨ M.sure call = false) → ok core (.issue mode worker call) →
      Core.Admits C ok core (.issue mode worker call) (core.issue mode worker call)
  | land {core : Core M} {worker : Worker} {call : S.Call} {index : Nat} :
      core.deferred[index]? = some (worker, call) → ok core (.land worker call) →
      Core.Admits C ok core (.land worker call)
        (core.land worker call (core.deferred.eraseIdx index))
  | crash {core : Core M} {worker : Worker} : ok core (.crash worker) →
      Core.Admits C ok core (.crash worker) (core.crash worker)
  | move {core : Core M} {m : M.Move} {world : M.World} :
      M.move core.world m = some world → ok core (.move m) →
      Core.Admits C ok core (.move m) (core.move m world)

/-- An act that a conduct admits is admitted by a laxer one. -/
theorem Core.Admits.lax {C D : Conduct S} {ok : Core M → Act M → Prop} {core core' : Core M}
    {act : Act M} (admitted : Core.Admits C ok core act core')
    (allows : ∀ past call, C.allows past call → D.allows past call) :
    Core.Admits D ok core act core' := by
  cases admitted with
  | issue allowed alive enabled met => exact .issue (allows _ _ allowed) alive enabled met
  | land found met => exact .land found met
  | crash met => exact .crash met
  | move moved met => exact .move moved met

/-! ## What an act carries out -/

/-- The call that takes effect in an act, and whose call it is. -/
def Act.performed : Act M → Option (Worker × S.Call)
  | .issue .answer worker call => some (worker, call)
  | .issue .lose worker call => if (M.residue call).isEmpty then none else some (worker, call)
  | .land worker call => some (worker, call)
  | .issue .refuse _ _ | .issue .defer _ _ | .crash _ | .move _ => none

section Performed

variable {C : Conduct S} {ok : Core M → Act M → Prop} {core core' : Core M} {act : Act M}

theorem Core.Admits.world_of_performed (admitted : Core.Admits C ok core act core')
    {worker : Worker} {call : S.Call} (performed : act.performed = some (worker, call)) :
    core'.world = (M.exec core.world worker call).2 := by
  cases admitted with
  | @issue mode _ _ allows alive enabled met =>
      cases mode with
      | answer =>
          cases performed
          rfl
      | lose =>
          simp only [Act.performed] at performed
          split at performed
          · cases performed
          · rename_i leaves
            cases performed
            exact if_neg leaves
      | refuse => cases performed
      | defer => cases performed
  | land found met =>
      cases performed
      rfl
  | crash met => cases performed
  | move moved met => cases performed

/-- An act that carries nothing out leaves the world alone, unless the environment moves. -/
theorem Core.Admits.world_of_idle (admitted : Core.Admits C ok core act core')
    (idle : act.performed = none) :
    core'.world = core.world ∨ ∃ m, act = .move m ∧ M.move core.world m = some core'.world := by
  cases admitted with
  | @issue mode _ _ allows alive enabled met =>
      cases mode with
      | answer => cases idle
      | lose =>
          simp only [Act.performed] at idle
          split at idle
          · rename_i nothing
            exact .inl (if_pos nothing)
          · cases idle
      | refuse => exact .inl rfl
      | defer => exact .inl rfl
  | land found met => cases idle
  | crash met => exact .inl rfl
  | move moved met => exact .inr ⟨_, rfl, moved⟩

theorem Core.Admits.history (admitted : Core.Admits C ok core act core') :
    core'.history = ⟨act, core.world⟩ :: core.history := by
  cases admitted <;> rfl

theorem Core.Admits.met (admitted : Core.Admits C ok core act core') : ok core act := by
  cases admitted <;> assumption

/-- A worker's past stays, or grows by the call just issued. -/
theorem Core.Admits.pastOf_cases (admitted : Core.Admits C ok core act core')
    (worker : Worker) :
    core'.pastOf worker = core.pastOf worker ∨ ∃ mode call, act = .issue mode worker call ∧
      core'.pastOf worker =
        ⟨call, replyIn core.world worker call mode⟩ :: core.pastOf worker ∧
      C.allows (core.pastOf worker) call := by
  cases admitted with
  | @issue mode issuer call allows alive enabled met =>
      by_cases same : worker = issuer
      · subst same
        exact .inr ⟨mode, call, rfl, Core.pastOf_issue_self core mode worker call, allows⟩
      · exact .inl (Core.pastOf_issue_of_ne core mode call same)
  | land found met => exact .inl (by simp)
  | crash met => exact .inl (by simp)
  | move moved met => exact .inl (by simp)

/-- A step of a worker is an old one or the call just issued. -/
theorem Core.Admits.mem_pastOf (admitted : Core.Admits C ok core act core') {step : Step S}
    {worker : Worker} (member : step ∈ core'.pastOf worker) :
    step ∈ core.pastOf worker ∨ ∃ mode, act = .issue mode worker step.call ∧
      step.reply = replyIn core.world worker step.call mode ∧
      C.allows (core.pastOf worker) step.call := by
  rcases admitted.pastOf_cases worker with same | ⟨mode, call, acted, grown, allows⟩
  · exact .inl (same ▸ member)
  · rw [grown] at member
    rcases List.mem_cons.mp member with rfl | old
    · exact .inr ⟨mode, acted, rfl, allows⟩
    · exact .inl old

/-- A worker's own steps only get more. -/
theorem Core.Admits.pastOf_suffix (admitted : Core.Admits C ok core act core')
    (worker : Worker) : core.pastOf worker <:+ core'.pastOf worker := by
  rcases admitted.pastOf_cases worker with same | ⟨mode, call, -, grown, -⟩
  · exact same ▸ List.suffix_refl _
  · rw [grown]
    exact List.suffix_cons _ _

/-- An answer of a worker is an old one or the answer just given. -/
theorem Core.Admits.answered (admitted : Core.Admits C ok core act core') {worker : Worker}
    {call : S.Call} {answer : S.Answer call}
    (member : (⟨call, some answer⟩ : Step S) ∈ core'.pastOf worker) :
    (⟨call, some answer⟩ : Step S) ∈ core.pastOf worker ∨
      (act = .issue .answer worker call ∧ answer = (M.exec core.world worker call).1 ∧
        C.allows (core.pastOf worker) call ∧
        core'.world = (M.exec core.world worker call).2) := by
  rcases admitted.mem_pastOf member with old | ⟨mode, rfl, replied, allows⟩
  · exact .inl old
  · cases mode with
    | answer =>
        exact .inr ⟨rfl, Option.some.inj replied, allows, admitted.world_of_performed rfl⟩
    | refuse => cases replied
    | lose => cases replied
    | defer => cases replied

/-- What may still land is old, or was just issued and threw. -/
theorem Core.Admits.mem_deferred (admitted : Core.Admits C ok core act core') {worker : Worker}
    {call : S.Call} (member : (worker, call) ∈ core'.deferred) :
    (worker, call) ∈ core.deferred ∨ ∃ issued, act = .issue .defer worker issued ∧
      call ∈ M.residue issued ∧ C.allows (core.pastOf worker) issued ∧
      ¬ core.Crashed worker := by
  cases admitted with
  | @issue mode issuer issued allows alive enabled met =>
      cases mode with
      | defer =>
          rcases List.mem_append.mp member with new | there
          · obtain ⟨call', residual, same⟩ := List.mem_map.mp new
            cases same
            exact .inr ⟨issued, rfl, residual, allows, alive⟩
          · exact .inl there
      | answer => exact .inl member
      | refuse => exact .inl member
      | lose => exact .inl member
  | land found met => exact .inl (List.mem_of_mem_eraseIdx member)
  | crash met => exact .inl member
  | move moved met => exact .inl member

/-- What may still land was allowed when its worker issued it, and threw. -/
def Core.Due (C : Conduct S) (core : Core M) : Prop :=
  ∀ worker call, (worker, call) ∈ core.deferred →
    ∃ past issued, ⟨issued, none⟩ :: past <:+ core.pastOf worker ∧ C.allows past issued ∧
      call ∈ M.residue issued

theorem Core.Due.admits (due : core.Due C) (admitted : Core.Admits C ok core act core') :
    core'.Due C := by
  intro worker call member
  rcases admitted.mem_deferred member with old | ⟨issued, rfl, residual, allows, -⟩
  · obtain ⟨past, issued, suffix, allows, residual⟩ := due worker call old
    exact ⟨past, issued, suffix.trans (admitted.pastOf_suffix worker), allows, residual⟩
  · refine ⟨core.pastOf worker, issued, ?_, allows, residual⟩
    cases admitted with
    | issue =>
        rw [Core.pastOf_issue_self]
        exact List.suffix_refl _

/-- Every step of every worker was allowed when it was taken. -/
def Core.Lawful (C : Conduct S) (core : Core M) : Prop :=
  ∀ worker step past, step :: past <:+ core.pastOf worker → C.allows past step.call

theorem Core.Lawful.admits (lawful : core.Lawful C) (admitted : Core.Admits C ok core act core') :
    core'.Lawful C := by
  intro worker step past suffix
  rcases admitted.pastOf_cases worker with same | ⟨mode, call, -, grown, allows⟩
  · exact lawful worker step past (same ▸ suffix)
  · rw [grown] at suffix
    rcases List.suffix_cons_iff.mp suffix with whole | old
    · cases whole
      exact allows
    · exact lawful worker step past old

/-- What is carried out was asked for just now, or lands late. -/
theorem Core.Admits.performed_cases (admitted : Core.Admits C ok core act core')
    {worker : Worker} {call : S.Call} (performed : act.performed = some (worker, call)) :
    (C.allows (core.pastOf worker) call ∧ ¬ core.Crashed worker ∧
      (act = .issue .answer worker call ∨
        (act = .issue .lose worker call ∧ M.residue call ≠ []))) ∨
      (act = .land worker call ∧ (worker, call) ∈ core.deferred) := by
  cases admitted with
  | @issue mode issuer issued allows alive enabled met =>
      left
      cases mode with
      | answer =>
          cases performed
          exact ⟨allows, alive, .inl rfl⟩
      | lose =>
          simp only [Act.performed] at performed
          split at performed
          · cases performed
          · rename_i leaves
            cases performed
            exact ⟨allows, alive, .inr ⟨rfl, fun none => leaves (by simp [none])⟩⟩
      | refuse => cases performed
      | defer => cases performed
  | land found met =>
      cases performed
      exact .inr ⟨rfl, List.mem_of_getElem? found⟩
  | crash met => cases performed
  | move moved met => cases performed

/-- What is carried out was allowed when its worker issued it. -/
theorem Core.Admits.allowed_of_performed (due : core.Due C)
    (admitted : Core.Admits C ok core act core') {worker : Worker} {call : S.Call}
    (performed : act.performed = some (worker, call)) :
    ∃ past issued, past <:+ core.pastOf worker ∧ C.allows past issued ∧
      (call = issued ∨ call ∈ M.residue issued) := by
  rcases admitted.performed_cases performed with ⟨allows, -, -⟩ | ⟨-, member⟩
  · exact ⟨core.pastOf worker, call, List.suffix_refl _, allows, .inl rfl⟩
  · obtain ⟨past, issued, suffix, allows, residual⟩ := due worker call member
    exact ⟨past, issued, (List.suffix_cons _ _).trans suffix, allows, .inr residual⟩

/-- A worker that stopped stays stopped. -/
theorem Core.Admits.crashed (admitted : Core.Admits C ok core act core') {worker : Worker}
    (crashed : core.Crashed worker) : core'.Crashed worker := by
  obtain ⟨event, member, acted⟩ := crashed
  refine ⟨event, ?_, acted⟩
  rw [admitted.history]
  exact List.mem_cons_of_mem _ member

/-- A past of a worker is an old one or its whole past after the call just issued. -/
theorem Core.Admits.suffix_cases (admitted : Core.Admits C ok core act core') {worker : Worker}
    {past : List (Step S)} (suffix : past <:+ core'.pastOf worker) :
    past <:+ core.pastOf worker ∨ ∃ mode call, act = .issue mode worker call ∧
      past = ⟨call, replyIn core.world worker call mode⟩ :: core.pastOf worker ∧
      C.allows (core.pastOf worker) call := by
  rcases admitted.pastOf_cases worker with same | ⟨mode, call, acted, grown, allows⟩
  · exact .inl (same ▸ suffix)
  · rw [grown] at suffix
    rcases List.suffix_cons_iff.mp suffix with whole | old
    · exact .inr ⟨mode, call, acted, whole, allows⟩
    · exact .inl old

/-- A call that leaves nothing behind takes effect only when it is answered. -/
theorem Core.Admits.answer_of_performed (due : core.Due C)
    (admitted : Core.Admits C ok core act core') {worker : Worker} {call : S.Call}
    (performed : act.performed = some (worker, call)) (leaves : M.residue call = [])
    (left : ∀ issued, call ∉ M.residue issued) : act = .issue .answer worker call := by
  rcases admitted.performed_cases performed with ⟨-, -, answered | ⟨-, some⟩⟩ | ⟨-, member⟩
  · exact answered
  · exact absurd leaves some
  · obtain ⟨_, issued, -, -, residual⟩ := due worker call member
    exact absurd residual (left issued)

end Performed

/-- What the rule asks of an invariant: every admitted act keeps it, and every
reply is credible where it holds. -/
structure Keeps (C : Conduct S) (ok : Core M → Act M → Prop) (Inv : Core M → Prop) : Prop where
  admits : ∀ {core act core'}, Inv core → Core.Admits C ok core act core' → Inv core'
  credible : ∀ {core mode worker call}, Inv core → C.allows (core.pastOf worker) call →
    (mode = .answer ∨ M.sure call = false) →
      C.credible ⟨call, replyIn core.world worker call mode⟩

/-- What the rule maintains of a configuration. -/
structure Maintained (C : Conduct S) (Inv : Core M → Prop) (config : Config M α Op) : Prop where
  inv : Inv config.core
  credited : ∀ worker, ∀ step ∈ config.core.pastOf worker, C.credible step
  runs : ∀ number thread, config.threads number = some thread →
    Program.After (launch thread.origin) (config.core.pastOf thread.worker) thread.program ∧
      Program.Obeys C thread.program (config.core.pastOf thread.worker) fun _ _ => True
  numbered : ∀ number thread, config.threads number = some thread →
    thread.worker.thread = number ∧ number < config.size
  recorded : ∀ event ∈ config.core.history, ∀ worker, event.act.worker = some worker →
    worker.thread < config.size
  alive : ∀ number thread, config.threads number = some thread →
    ¬ config.core.Crashed thread.worker

variable {launch} {C : Conduct S} {ok : Core M → Act M → Prop} {Inv : Core M → Prop}

theorem Maintained.spawn {config : Config M α Op} (held : Maintained launch C Inv config)
    (process : Nat) {op : Op} (launches : Program.Obeys C (launch op) [] fun _ _ => True) :
    Maintained launch C Inv
      { config with
        threads := config.setThread config.size (some ⟨⟨process, config.size⟩, op, launch op⟩)
        size := config.size + 1 } := by
  have unused : config.core.pastOf ⟨process, config.size⟩ = [] := by
    refine Core.pastOf_eq_nil fun event member same => ?_
    exact Nat.lt_irrefl _ (held.recorded event member _ same)
  refine ⟨held.inv, held.credited, ?_, ?_, fun event member worker same =>
    Nat.lt_succ_of_lt (held.recorded event member worker same), ?_⟩ <;>
    intro number thread found <;> simp only [Config.setThread] at found <;> split at found
  · cases found
    rw [unused]
    exact ⟨.start, launches⟩
  · exact held.runs _ _ found
  · rename_i same
    cases found
    exact ⟨same.symm, same ▸ Nat.lt_succ_self _⟩
  · exact ⟨(held.numbered _ _ found).1, Nat.lt_succ_of_lt (held.numbered _ _ found).2⟩
  · cases found
    rintro ⟨event, member, acted⟩
    exact Nat.lt_irrefl _ (held.recorded event member _ (by rw [acted]; rfl))
  · exact held.alive _ _ found

theorem Maintained.issue (keeps : Keeps C ok Inv) {config : Config M α Op} {mode : Mode}
    {number : Nat} {worker : Worker} {op : Op} {call : S.Call}
    {next : Option (S.Answer call) → Program S α} (held : Maintained launch C Inv config)
    (found : config.threads number = some ⟨worker, op, .ask call next⟩)
    (enabled : mode = .answer ∨ M.sure call = false)
    (met : ok config.core (.issue mode worker call)) :
    Maintained launch C Inv
      { config with
        core := config.core.issue mode worker call
        threads := config.setThread number
          (some ⟨worker, op, next (replyIn config.core.world worker call mode)⟩) } := by
  obtain ⟨after, obeys⟩ := held.runs _ _ found
  have numbered := held.numbered _ _ found
  have alive := held.alive _ _ found
  have credible := keeps.credible held.inv obeys.1 enabled
  refine ⟨keeps.admits held.inv (.issue obeys.1 alive enabled met), ?_, ?_, ?_, ?_, ?_⟩
  · intro other step member
    by_cases same : other = worker
    · rw [same, Core.pastOf_issue_self] at member
      rcases List.mem_cons.mp member with rfl | old
      · exact credible
      · exact held.credited worker step old
    · rw [Core.pastOf_issue_of_ne _ _ _ same] at member
      exact held.credited other step member
  · intro other thread found'
    simp only [Config.setThread] at found'
    split at found'
    · cases found'
      rw [Core.pastOf_issue_self]
      exact ⟨after.step _, obeys.2 _ credible⟩
    · rename_i different
      have apart : thread.worker ≠ worker := by
        intro same
        apply different
        rw [← (held.numbered _ _ found').1, ← numbered.1, same]
      rw [Core.pastOf_issue_of_ne _ _ _ apart]
      exact held.runs _ _ found'
  · intro other thread found'
    simp only [Config.setThread] at found'
    split at found'
    · rename_i same
      cases found'
      exact same ▸ numbered
    · exact held.numbered _ _ found'
  · intro event member issuer same
    rcases List.mem_cons.mp member with rfl | older
    · cases same
      exact numbered.1 ▸ numbered.2
    · exact held.recorded event older issuer same
  · intro other thread found'
    simp only [Config.setThread] at found'
    rw [Core.crashed_issue]
    split at found'
    · cases found'
      exact alive
    · exact held.alive _ _ found'

/-- An act outside the threads' programs that leaves every worker's past alone. -/
theorem Maintained.outside {config : Config M α Op} (held : Maintained launch C Inv config)
    {core : Core M} (inv : Inv core)
    (pasts : ∀ worker, core.pastOf worker = config.core.pastOf worker)
    (recorded : ∀ event ∈ core.history, ∀ worker, event.act.worker = some worker →
      worker.thread < config.size)
    {threads : Nat → Option (Thread S α Op)}
    (fewer : ∀ number thread, threads number = some thread →
      config.threads number = some thread)
    (alive : ∀ number thread, threads number = some thread → ¬ core.Crashed thread.worker) :
    Maintained launch C Inv { config with core := core, threads := threads } where
  inv := inv
  credited worker step member := held.credited worker step (pasts worker ▸ member)
  runs number thread found := by
    rw [pasts]
    exact held.runs number thread (fewer number thread found)
  numbered number thread found := held.numbered number thread (fewer number thread found)
  recorded := recorded
  alive := alive

theorem Maintained.step (keeps : Keeps C ok Inv)
    (launches : ∀ op, Program.Obeys C (launch op) [] fun _ _ => True)
    {config config' : Config M α Op} (label : Label M Op)
    (held : Maintained launch C Inv config)
    (met : ∀ act, config.act label = some act → ok config.core act)
    (stepped : config.step launch label = some config') :
    Maintained launch C Inv config' := by
  cases label with
  | spawn process op =>
      cases stepped
      exact held.spawn process (launches op)
  | issue mode number =>
      simp only [Config.step, Config.act] at stepped met
      split at stepped
      · rename_i worker op call next found
        split at stepped
        · rename_i enabled
          cases stepped
          simp only [found, Option.some.injEq, forall_eq'] at met
          exact held.issue keeps found enabled met
        · cases stepped
      · cases stepped
  | crash number =>
      simp only [Config.step, Config.act] at stepped met
      split at stepped
      · rename_i thread found
        cases stepped
        simp only [found, Option.map_some, Option.some.injEq, forall_eq'] at met
        refine held.outside (keeps.admits held.inv (.crash met)) (by simp) ?_ ?_ ?_
        · intro event member worker same
          rcases List.mem_cons.mp member with rfl | older
          · cases same
            exact (held.numbered _ _ found).1 ▸ (held.numbered _ _ found).2
          · exact held.recorded event older worker same
        · intro other thread' found'
          simp only [Config.setThread] at found'
          split at found'
          · cases found'
          · exact found'
        · intro other thread' found'
          simp only [Config.setThread] at found'
          split at found'
          · cases found'
          · rename_i different
            rw [Core.crashed_crash, not_or]
            refine ⟨fun same => different ?_, held.alive _ _ found'⟩
            rw [← (held.numbered _ _ found').1, ← (held.numbered _ _ found).1, same]
      · cases stepped
  | land index =>
      simp only [Config.step, Config.act] at stepped met
      split at stepped
      · rename_i worker call found
        cases stepped
        simp only [found, Option.map_some, Option.some.injEq, forall_eq'] at met
        refine held.outside (keeps.admits held.inv (.land found met)) (by simp) ?_
          (fun _ _ same => same) (by simpa using held.alive)
        intro event member issuer same
        rcases List.mem_cons.mp member with rfl | older
        · cases same
        · exact held.recorded event older issuer same
      · cases stepped
  | move m =>
      simp only [Config.step, Config.act, Option.map_eq_some_iff] at stepped met
      obtain ⟨world, moved, rfl⟩ := stepped
      refine held.outside (keeps.admits held.inv (.move moved (met _ rfl))) (by simp) ?_
        (fun _ _ same => same) (by simpa using held.alive)
      intro event member issuer same
      rcases List.mem_cons.mp member with rfl | older
      · cases same
      · exact held.recorded event older issuer same

/-- A step of a maintained configuration is an admitted act, or starts a thread. -/
theorem Maintained.admits {config config' : Config M α Op} (label : Label M Op)
    (held : Maintained launch C Inv config)
    (met : ∀ act, config.act label = some act → ok config.core act)
    (stepped : config.step launch label = some config') :
    (config.act label = none ∧ config'.core = config.core) ∨
      ∃ act, config.act label = some act ∧ Core.Admits C ok config.core act config'.core := by
  cases label with
  | spawn process op =>
      cases stepped
      exact .inl ⟨rfl, rfl⟩
  | issue mode number =>
      simp only [Config.step] at stepped
      split at stepped
      · rename_i worker op call next found
        split at stepped
        · rename_i enabled
          cases stepped
          have acted : config.act (.issue mode number : Label M Op) =
              some (.issue mode worker call) := by simp [Config.act, found]
          have obeys := (held.runs _ _ found).2
          have alive := held.alive _ _ found
          exact .inr ⟨_, acted, .issue obeys.1 alive enabled (met _ acted)⟩
        · cases stepped
      · cases stepped
  | crash number =>
      simp only [Config.step] at stepped
      split at stepped
      · rename_i thread found
        cases stepped
        have acted : config.act (.crash number : Label M Op) = some (.crash thread.worker) := by
          simp [Config.act, found]
        exact .inr ⟨_, acted, .crash (met _ acted)⟩
      · cases stepped
  | land index =>
      simp only [Config.step] at stepped
      split at stepped
      · rename_i worker call found
        cases stepped
        have acted : config.act (.land index : Label M Op) = some (.land worker call) := by
          simp [Config.act, found]
        exact .inr ⟨_, acted, .land found (met _ acted)⟩
      · cases stepped
  | move m =>
      simp only [Config.step, Option.map_eq_some_iff] at stepped
      obtain ⟨world, moved, rfl⟩ := stepped
      exact .inr ⟨.move m, rfl, .move moved (met _ rfl)⟩

/-- The **invariant rule**. -/
theorem Reach.keeps (keeps : Keeps C ok Inv)
    (launches : ∀ op, Program.Obeys C (launch op) [] fun _ _ => True)
    {world : M.World} (start : Inv ⟨world, [], []⟩) {config : Config M α Op}
    (reached : Reach launch ok world config) : Maintained launch C Inv config := by
  induction reached with
  | start =>
      refine ⟨start, ?_, ?_, ?_, ?_, ?_⟩
      · intro worker step member
        cases member
      · intro number thread found
        cases found
      · intro number thread found
        cases found
      · intro event member
        cases member
      · intro number thread found
        cases found
  | step label _ met stepped ih => exact ih.step keeps launches label met stepped

/-- A stronger run condition keeps no less. -/
theorem Keeps.weaken {ok' : Core M → Act M → Prop} (keeps : Keeps C ok Inv)
    (implies : ∀ core act, ok' core act → ok core act) : Keeps C ok' Inv where
  credible := keeps.credible
  admits inv admitted := by
    cases admitted with
    | issue allows alive enabled met =>
        exact keeps.admits inv (.issue allows alive enabled (implies _ _ met))
    | land found met => exact keeps.admits inv (.land found (implies _ _ met))
    | crash met => exact keeps.admits inv (.crash (implies _ _ met))
    | move moved met => exact keeps.admits inv (.move moved (implies _ _ met))

/-- Add an invariant on top of one that is kept. -/
theorem Keeps.and {Inv' : Core M → Prop} (keeps : Keeps C ok Inv)
    (more : ∀ {core act core'}, Inv core → Inv' core → Core.Admits C ok core act core' →
      Inv core' → Inv' core') :
    Keeps C ok fun core => Inv core ∧ Inv' core where
  credible inv := keeps.credible inv.1
  admits inv admitted :=
    ⟨keeps.admits inv.1 admitted, more inv.1 inv.2 admitted (keeps.admits inv.1 admitted)⟩

/-- The rule for **one thread alone**: while nothing else happens and its calls end in any
modes, what its allowed calls keep holds however far it gets. -/
theorem follow_alone (Kept : Core M → Prop) {world : M.World} {worker : Worker} {op : Op} {number : Nat}
    {check : Core M → Act M → Bool}
    (step : ∀ {config : Config M α Op} {past call mode},
      Reach launch (fun _ _ => True) world config → Kept config.core → C.allows past call →
      mode = .answer ∨ M.sure call = false →
        C.credible ⟨call, replyIn config.core.world worker call mode⟩ ∧
          Kept (config.core.issue mode worker call))
    (modes : List Mode) {config config' : Config M α Op} {program : Program S α}
    {past : List (Step S)} (reached : Reach launch (fun _ _ => True) world config)
    (found : config.threads number = some ⟨worker, op, program⟩)
    (obeys : Program.Obeys C program past fun _ _ => True) (kept : Kept config.core)
    (followed : config.follow launch check (modes.map (.issue · number)) = some config') :
    Kept config'.core := by
  induction modes generalizing config program past with
  | nil =>
      cases followed
      exact kept
  | cons mode modes ih =>
      simp only [List.map_cons, Config.follow] at followed
      split at followed
      · rename_i next stepped
        split at followed
        · have reached' := Reach.step (.issue mode number) reached (fun _ _ => trivial) stepped
          simp only [Config.step, found] at stepped
          cases program with
          | done value => cases stepped
          | ask call rest =>
              simp only [Option.ite_none_right_eq_some] at stepped
              obtain ⟨enabled, same⟩ := stepped
              obtain ⟨credible, kept'⟩ := step reached kept obeys.1 enabled
              cases same
              exact ih reached' (if_pos rfl) (obeys.2 _ credible) kept' followed
        · cases followed
      · cases followed

end Run

end Machine

end SdcoreNest.Theory
