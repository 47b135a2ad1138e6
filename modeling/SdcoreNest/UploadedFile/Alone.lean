/-
# UploadedFile.Alone -- one request at a time

A request that runs while nothing else does: its calls are executed one after the other on
the world.  `Faults` decides which of them throw and what still takes effect of those;
`working` is the installation in which none does.
-/
import SdcoreNest.UploadedFile.System

namespace SdcoreNest.UploadedFile

open SdcoreNest.Theory
open SdcoreNest.Theory.Program

set_option autoImplicit false

/-- The world and the steps of the request so far, newest first. -/
structure Solo where
  world : World
  log : List (Step sig)

/-- Which calls throw, by what was done before: `none` if the call is answered, else what still
takes effect of it. -/
abbrev Faults := List (Step sig) → Call → Option (List Call)

def Faults.working : Faults := fun _ _ => none

/-- What throws may throw, and only parts of it take effect. -/
def Faults.Possible (faults : Faults) : Prop :=
  ∀ log call landed, faults log call = some landed →
    sure call = false ∧ landed.Sublist (residue call)

section

variable (deployment : Deployment) (worker : Worker) (faults : Faults)

/-- Some calls take effect, one after the other. -/
def landAll (world : World) (calls : List Call) : World :=
  calls.foldl (fun world call => (exec deployment world worker call).2) world

def serve (solo : Solo) (call : Call) : Option call.Answer × Solo :=
  match faults solo.log call with
  | none =>
      let (answer, world) := exec deployment solo.world worker call
      (some answer, ⟨world, ⟨call, some answer⟩ :: solo.log⟩)
  | some landed =>
      (none, ⟨landAll deployment worker solo.world landed, ⟨call, none⟩ :: solo.log⟩)

/-- Run a request to its end. -/
def runAlone {α : Type} (body : Service α) (solo : Solo) : Except ServiceError α × Solo :=
  run (serve deployment worker faults) body.run solo

end

variable {deployment : Deployment} {worker : Worker} {faults : Faults} {solo solo' : Solo}
  {α β : Type}

/-! ## Runs, by the shape of the request -/

@[simp] theorem runAlone_pure (value : α) :
    runAlone deployment worker faults (pure value) solo = (.ok value, solo) := rfl

@[simp] theorem runAlone_throw (error : ServiceError) :
    runAlone deployment worker faults (throw error : Service α) solo = (.error error, solo) := rfl

@[simp] theorem runAlone_check (result : Except ServiceError α) :
    runAlone deployment worker faults (check result) solo = (result, solo) := rfl

theorem runAlone_bind (body : Service α) (next : α → Service β) :
    runAlone deployment worker faults (body >>= next) solo =
      andThen (runAlone deployment worker faults body solo) fun value solo' =>
        runAlone deployment worker faults (next value) solo' := run_seq body next solo

theorem runAlone_tryCatch (body : Service α) (handler : ServiceError → Service α) :
    runAlone deployment worker faults (tryCatch body handler) solo =
      orHandle (runAlone deployment worker faults body solo) fun error solo' =>
        runAlone deployment worker faults (handler error) solo' := run_tryCatch body handler solo

theorem runAlone_swallow (body : Service α) :
    runAlone deployment worker faults (swallow body) solo =
      (.ok (), (runAlone deployment worker faults body solo).2) := by
  unfold swallow
  rw [runAlone_tryCatch, runAlone_bind]
  rcases runAlone deployment worker faults body solo with ⟨error | value, solo'⟩ <;> rfl

/-- What a call does to the request: it goes on with the answer or the call threw. -/
def answered (served : Option α × Solo) : Except ServiceError α × Solo :=
  match served with
  | (some answer, solo) => (.ok answer, solo)
  | (none, solo) => (.error .thrown, solo)

theorem runAlone_ask (call : Call) :
    runAlone deployment worker faults (ask call) solo =
      answered (serve deployment worker faults solo call) := by
  unfold runAlone ask perform
  refine (run_ask (S := sig) call _ solo).trans ?_
  rcases serve deployment worker faults solo call with ⟨_ | _, _⟩ <;> rfl

theorem runAlone_tryAsk (call : Call) :
    runAlone deployment worker faults (tryAsk call) solo =
      (.ok (serve deployment worker faults solo call).1,
        (serve deployment worker faults solo call).2) := rfl

/-- A check in front of a request. -/
@[simp] theorem runAlone_check_bind (result : Except ServiceError α) (next : α → Service β) :
    runAlone deployment worker faults (check result >>= next) solo =
      andThen (result, solo) fun value solo' => runAlone deployment worker faults (next value) solo' :=
  runAlone_bind (check result) next

/-- A call in front of a request. -/
theorem runAlone_ask_bind (call : Call) (next : call.Answer → Service β) :
    runAlone deployment worker faults (ask call >>= next) solo =
      andThen (answered (serve deployment worker faults solo call)) fun answer solo' =>
        runAlone deployment worker faults (next answer) solo' := by
  rw [runAlone_bind, runAlone_ask]

theorem serve_working (call : Call) :
    serve deployment worker .working solo call =
      (some (exec deployment solo.world worker call).1,
        ⟨(exec deployment solo.world worker call).2,
          ⟨call, some (exec deployment solo.world worker call).1⟩ :: solo.log⟩) := rfl

/-- Where nothing throws, a call in front of a request is answered. -/
@[simp] theorem runAlone_working_ask_bind (call : Call) (next : call.Answer → Service β) :
    runAlone deployment worker .working (ask call >>= next) solo =
      runAlone deployment worker .working (next (exec deployment solo.world worker call).1)
        ⟨(exec deployment solo.world worker call).2,
          ⟨call, some (exec deployment solo.world worker call).1⟩ :: solo.log⟩ := by
  rw [runAlone_ask_bind, serve_working]
  rfl

theorem runAlone_find (query : Query) (next : List Row → Service β) :
    ∃ log, runAlone deployment worker .working (ask (.find query) >>= next) solo =
      runAlone deployment worker .working
        (next (query.select deployment.keyText solo.world.table.rows)) ⟨solo.world, log⟩ :=
  ⟨_, runAlone_working_ask_bind (.find query) next⟩

/-- A transaction over as many rows as it expects. -/
theorem runAlone_transact {statement : Statement} {count : Nat}
    (whole : solo.world.affected statement = count) (next : Bool → Service β) :
    ∃ log, runAlone deployment worker .working (ask (.transact statement count) >>= next) solo =
      runAlone deployment worker .working (next true) ⟨solo.world.apply statement, log⟩ := by
  have committed : exec deployment solo.world worker (.transact statement count) =
      (true, solo.world.apply statement) := if_pos whole
  refine ⟨⟨.transact statement count, some true⟩ :: solo.log, ?_⟩
  rw [runAlone_working_ask_bind, committed]

/-- A call that was answered, with what it left behind. -/
theorem answered_of_serve {call : Call} {answer : call.Answer}
    (served : serve deployment worker faults solo call = (some answer, solo')) :
    answer = (exec deployment solo.world worker call).1 ∧
      solo'.world = (exec deployment solo.world worker call).2 := by
  unfold serve at served
  split at served
  · cases served
    exact ⟨rfl, rfl⟩
  · cases served

/-- The steps of a request that returned, one at a time. -/
theorem of_runAlone_bind {body : Service α} {next : α → Service β} {result : β}
    (ran : runAlone deployment worker faults (body >>= next) solo = (.ok result, solo')) :
    ∃ value between, runAlone deployment worker faults body solo = (.ok value, between) ∧
      runAlone deployment worker faults (next value) between = (.ok result, solo') :=
  of_run_seq ran

theorem of_runAlone_check {checked : Except ServiceError α} {next : α → Service β} {result : β}
    (ran : runAlone deployment worker faults (check checked >>= next) solo = (.ok result, solo')) :
    ∃ value, checked = .ok value ∧
      runAlone deployment worker faults (next value) solo = (.ok result, solo') := by
  obtain ⟨value, between, passed, rest⟩ := of_runAlone_bind ran
  cases passed
  exact ⟨value, rfl, rest⟩

theorem of_runAlone_answer {call : Call} {answer : call.Answer}
    (ran : runAlone deployment worker faults (ask call) solo = (.ok answer, solo')) :
    answer = (exec deployment solo.world worker call).1 ∧
      solo'.world = (exec deployment solo.world worker call).2 := by
  rw [runAlone_ask] at ran
  rcases served : serve deployment worker faults solo call with ⟨_ | answer', between⟩
  · rw [served] at ran
    cases ran
  · rw [served] at ran
    cases ran
    exact answered_of_serve served

theorem of_runAlone_ask {call : Call} {next : call.Answer → Service β} {result : β}
    (ran : runAlone deployment worker faults (ask call >>= next) solo = (.ok result, solo')) :
    ∃ between : Solo, between.world = (exec deployment solo.world worker call).2 ∧
      runAlone deployment worker faults (next (exec deployment solo.world worker call).1) between =
        (.ok result, solo') := by
  obtain ⟨answer, between, asked, rest⟩ := of_runAlone_bind ran
  obtain ⟨rfl, same⟩ := of_runAlone_answer asked
  exact ⟨between, same, rest⟩

end SdcoreNest.UploadedFile
