/-
# Publication.Execution -- one run against arbitrary ports and a deadline

An execution steps a program of the coordinator.  Port calls are started and later settle
with any outcome, or never; the signal may abort at any moment the program is not in the
middle of synchronous code, that is, while a call is outstanding or before the signal is
read.  A call that is outstanding when the signal aborts is given up (`expire`).  The events
are what an observer of the ports sees.
-/
import SdcoreNest.Publication.Coordinator

namespace SdcoreNest.Publication

open SdcoreNest.Theory

set_option autoImplicit false

inductive Event where
  | start (port : Port)
  | settle (port : Port) (outcome : port.Outcome)
  | abort

structure Execution (α : Type) where
  program : Program sig α
  /-- The call the program is at has been started. -/
  waiting : Bool
  /-- The signal is aborted. -/
  stopped : Bool
  /-- Newest first. -/
  events : List Event

inductive Label where
  | abort
  | poll
  | tick (reply : Option JsNumber)
  | draw (reply : Option JsString)
  | start
  | settle (port : Port) (outcome : port.Outcome)
  | expire

namespace Execution

variable {α : Type}

def begin_ (program : Program sig α) : Execution α := ⟨program, false, false, []⟩

def step (e : Execution α) : Label → Option (Execution α)
  | .abort =>
      match e.program, e.waiting, e.stopped with
      | .ask .aborted _, false, false
      | .ask (.call _) _, true, false =>
          some { e with stopped := true, events := .abort :: e.events }
      | _, _, _ => none
  | .poll =>
      match e.program with
      | .ask .aborted next => some { e with program := next (some e.stopped) }
      | _ => none
  | .tick reply =>
      match e.program with
      | .ask .clock next => some { e with program := next reply }
      | _ => none
  | .draw reply =>
      match e.program with
      | .ask .newId next => some { e with program := next reply }
      | _ => none
  | .start =>
      match e.program, e.waiting with
      | .ask (.call port) _, false =>
          some { e with waiting := true, events := .start port :: e.events }
      | _, _ => none
  | .settle port outcome =>
      match e.program, e.waiting, e.stopped with
      | .ask (.call asked) next, true, false =>
          if same : port = asked then
            some
              { e with
                program := next (some (same ▸ outcome))
                waiting := false
                events := .settle port outcome :: e.events }
          else none
      | _, _, _ => none
  | .expire =>
      match e.program, e.waiting, e.stopped with
      | .ask (.call _) next, true, true =>
          some { e with program := next none, waiting := false }
      | _, _, _ => none

def follow (e : Execution α) : List Label → Option (Execution α)
  | [] => some e
  | label :: labels =>
      match e.step label with
      | some e' => e'.follow labels
      | none => none

/-- What some schedule of outcomes, with or without an abort, leads to. -/
inductive Reached (program : Program sig α) : Execution α → Prop where
  | start : Reached program (begin_ program)
  | step {e e' : Execution α} (label : Label) (reached : Reached program e)
      (stepped : e.step label = some e') : Reached program e'

theorem reached_follow {program : Program sig α} {labels : List Label} {e e' : Execution α}
    (reached : Reached program e) (followed : e.follow labels = some e') :
    Reached program e' := by
  induction labels generalizing e with
  | nil =>
      cases followed
      exact reached
  | cons label labels ih =>
      simp only [follow] at followed
      split at followed
      · rename_i e'' stepped
        exact ih (.step label reached stepped) followed
      · cases followed

/-- What one step can be. -/
inductive Moves (e : Execution α) : Execution α → Prop where
  | abort (running : e.stopped = false)
      (suspended : (e.waiting = false ∧ ∃ next, e.program = .ask .aborted next) ∨
        (e.waiting = true ∧ ∃ port next, e.program = .ask (.call port) next)) :
      Moves e { e with stopped := true, events := .abort :: e.events }
  | poll {next : Option Bool → Program sig α} (asked : e.program = .ask .aborted next) :
      Moves e { e with program := next (some e.stopped) }
  | tick {next : Option JsNumber → Program sig α} (reply : Option JsNumber)
      (asked : e.program = .ask .clock next) : Moves e { e with program := next reply }
  | draw {next : Option JsString → Program sig α} (reply : Option JsString)
      (asked : e.program = .ask .newId next) : Moves e { e with program := next reply }
  | start {port : Port} {next : Option port.Outcome → Program sig α}
      (asked : e.program = .ask (.call port) next) (unstarted : e.waiting = false) :
      Moves e { e with waiting := true, events := .start port :: e.events }
  | settle {port : Port} {next : Option port.Outcome → Program sig α} (outcome : port.Outcome)
      (asked : e.program = .ask (.call port) next) (started : e.waiting = true)
      (running : e.stopped = false) :
      Moves e
        { e with
          program := next (some outcome)
          waiting := false
          events := .settle port outcome :: e.events }
  | expire {port : Port} {next : Option port.Outcome → Program sig α}
      (asked : e.program = .ask (.call port) next) (started : e.waiting = true)
      (stopped : e.stopped = true) : Moves e { e with program := next none, waiting := false }

theorem moves_of_step {e e' : Execution α} {label : Label} (stepped : e.step label = some e') :
    e.Moves e' := by
  obtain ⟨program, waiting, stopped, events⟩ := e
  cases label with
  | abort =>
      simp only [step] at stepped
      split at stepped
      · cases stepped
        exact .abort rfl (.inl ⟨rfl, _, rfl⟩)
      · cases stepped
        exact .abort rfl (.inr ⟨rfl, _, _, rfl⟩)
      · cases stepped
  | poll =>
      simp only [step] at stepped
      split at stepped
      · cases stepped
        exact .poll rfl
      · cases stepped
  | tick reply =>
      simp only [step] at stepped
      split at stepped
      · cases stepped
        exact .tick reply rfl
      · cases stepped
  | draw reply =>
      simp only [step] at stepped
      split at stepped
      · cases stepped
        exact .draw reply rfl
      · cases stepped
  | start =>
      simp only [step] at stepped
      split at stepped
      · cases stepped
        exact .start rfl rfl
      · cases stepped
  | settle port outcome =>
      simp only [step] at stepped
      split at stepped
      · split at stepped
        · rename_i same
          subst same
          cases stepped
          exact .settle outcome rfl rfl rfl
        · cases stepped
      · cases stepped
  | expire =>
      simp only [step] at stepped
      split at stepped
      · cases stepped
        exact .expire rfl rfl rfl
      · cases stepped

end Execution

end SdcoreNest.Publication
