/-
# UploadedFile.History -- what holds between two moments of one run

Every event of a run carries the world it met, so a statement about two moments of a
run is a statement about the history of a state.  `Chronicle` says that each world of
the history leads forward to the present one; what never goes back between them is
`World.Forward`.

`statementOf` is the statement an event carried out on the table.  `table_step` says
once what an act does to the table: it carries out one statement that its worker was
entitled to (`Entitled`), or inserts one new row, or does nothing.
-/
import SdcoreNest.UploadedFile.Knowledge

namespace SdcoreNest.UploadedFile

open SdcoreNest.Theory
open SdcoreNest.Theory.Machine

set_option autoImplicit false

variable {config : Config}

/-- The statement a call carries out on the table: a transaction with a wrong count is
rolled back. -/
def ran (world : World) : Worker × Call → Option (Worker × Statement)
  | (worker, .update statement) => some (worker, statement)
  | (worker, .transact statement count) =>
      if world.affected statement = count then some (worker, statement) else none
  | _ => none

/-- The statement an event carried out, and whose it was. -/
def statementOf (event : Event (system config)) : Option (Worker × Statement) :=
  event.act.performed.bind (ran event.before)

/-- The worker's own steps, at some moment up to now, allowed it the statement. -/
def Entitled (core : SystemCore config) (worker : Worker) (statement : Statement) : Prop :=
  ∃ past, past <:+ core.pastOf worker ∧ statement.Allowed config.driver past

/-- The world met by every past event leads forward to the present one. -/
structure Chronicle (core : SystemCore config) : Prop extends Known core where
  due : core.Due (discipline config.toDeployment)
  forward : ∀ event ∈ core.history, World.Forward event.before core.world

theorem chronicle_keeps (config : Config) :
    Keeps (discipline config.toDeployment) (fun _ _ => True) (@Chronicle config) where
  credible chronicle := (known_keeps config).credible chronicle.toKnown
  admits chronicle admitted := by
    have forward := chronicle.toKnown.forward admitted
    refine ⟨(known_keeps config).admits chronicle.toKnown admitted,
      chronicle.due.admits admitted, fun event member => ?_⟩
    rw [admitted.history] at member
    rcases List.mem_cons.mp member with rfl | older
    · exact forward
    · exact (chronicle.forward event older).trans forward

theorem chronicle_initial (time : Int) :
    Chronicle (⟨World.initial time, [], []⟩ : SystemCore config) where
  toKnown := known_initial time
  due _ _ member := absurd member List.not_mem_nil
  forward _ member := absurd member List.not_mem_nil

theorem chronicle_of_reachable {time : Int} {state : SystemConfig config}
    (reached : Reachable config time state) : Chronicle state.core :=
  (Reach.keeps (chronicle_keeps config) (launch_follows config) (chronicle_initial time)
    reached).inv

section Step

variable {core core' : SystemCore config} {act : Act (system config)}
  {ok : SystemCore config → Act (system config) → Prop}

/-- What is left of a call is the call itself, or one object of a multi-object delete. -/
theorem mem_residue {call issued : Call} (residual : call ∈ residue issued) :
    call = issued ∨ ∃ keys key, issued = .delete keys ∧ key ∈ keys ∧ call = .deleteObject key := by
  cases issued with
  | delete keys =>
      obtain ⟨key, inside, rfl⟩ := List.mem_map.mp residual
      exact .inr ⟨keys, key, rfl, inside, rfl⟩
  | _ =>
      first
        | exact absurd residual List.not_mem_nil
        | exact .inl (List.mem_singleton.mp residual)

/-- What an act carries out was allowed to its worker at some moment up to now. -/
theorem Chronicle.allowed_of_performed (chronicle : Chronicle core)
    (admitted : Core.Admits (discipline config.toDeployment) ok core act core')
    {worker : Worker} {call : Call} (performed : act.performed = some (worker, call))
    (single : ∀ key, call ≠ .deleteObject key) :
    ∃ past, past <:+ core.pastOf worker ∧ allowed config.driver past call := by
  obtain ⟨past, issued, suffix, allows, origin⟩ :=
    admitted.allowed_of_performed chronicle.due performed
  have asked : call = issued := by
    rcases origin with same | residual
    · exact same
    · rcases mem_residue residual with same | ⟨keys, key, -, -, object⟩
      · exact same
      · exact absurd object (single key)
  exact ⟨past, suffix, asked ▸ allows⟩

/-- An act that carries out a statement applies it, and its worker was entitled to it. -/
theorem Chronicle.applied (chronicle : Chronicle core)
    (admitted : Core.Admits (discipline config.toDeployment) ok core act core')
    {worker : Worker} {statement : Statement}
    (carried : statementOf ⟨act, core.world⟩ = some (worker, statement)) :
    core'.world = core.world.apply statement ∧ Entitled core worker statement := by
  obtain ⟨⟨author, call⟩, performed, running⟩ := Option.bind_eq_some_iff.mp carried
  have world := admitted.world_of_performed performed
  cases call with
  | update statement' =>
      cases running
      obtain ⟨past, suffix, allows⟩ :=
        chronicle.allowed_of_performed admitted performed fun _ same => (by cases same)
      exact ⟨world, past, suffix, allows⟩
  | transact statement' count =>
      obtain ⟨past, suffix, allows⟩ :=
        chronicle.allowed_of_performed admitted performed fun _ same => (by cases same)
      simp only [ran] at running
      split at running
      · rename_i counted
        cases running
        refine ⟨?_, past, suffix, allows.1⟩
        rw [world]
        show (exec config.toDeployment core.world worker (.transact statement count)).2 = _
        simp only [exec]
        rw [if_pos counted]
      · cases running
  | _ => cases running

/-- What an act carries out is fit to be carried out. -/
theorem Known.late_of_performed (known : Known core)
    (admitted : Core.Admits (discipline config.toDeployment) ok core act core')
    {worker : Worker} {call : Call} (performed : act.performed = some (worker, call)) :
    core.world.Late call := by
  rcases admitted.performed_cases performed with ⟨allows, -, -⟩ | ⟨-, member⟩
  · exact (known.late_of_allowed allows).1
  · exact known.late worker call member

/-- A call that runs no statement and inserts nothing leaves the table alone. -/
theorem exec_table {deployment : Deployment} {world : World} {worker : Worker} {call : Call}
    (quiet : ran world (worker, call) = none) (kept : ∀ row, call ≠ .save row) :
    (exec deployment world worker call).2.table = world.table := by
  cases call with
  | save row => exact absurd rfl (kept row)
  | update statement => cases quiet
  | transact statement count =>
      simp only [ran] at quiet
      split at quiet
      · cases quiet
      · rename_i miscounted
        simp only [exec]
        rw [if_neg miscounted]
  | putObject key object =>
      simp only [exec]
      split <;> rfl
  | uploadSigned key object =>
      simp only [exec]
      split <;> rfl
  | copyObject source destination sourceEtag =>
      simp only [exec]
      split
      · split <;> rfl
      · rfl
  | link source destination =>
      simp only [exec]
      split <;> rfl
  | unlink key =>
      simp only [exec]
      split <;> rfl
  | _ => rfl

/-- An act that carries out no statement leaves the rows alone; it may add a new one. -/
theorem Chronicle.unapplied (chronicle : Chronicle core)
    (admitted : Core.Admits (discipline config.toDeployment) ok core act core')
    (carried : statementOf ⟨act, core.world⟩ = none) :
    core'.world.table = core.world.table ∨
      ∃ row, row.Newborn ∧ (∀ other ∈ core.world.table, other.id ≠ row.id) ∧
        core'.world = core.world.insert row := by
  cases performed : act.performed with
  | none =>
      rcases admitted.world_of_idle performed with same | ⟨m, -, moved⟩
      · exact .inl (by rw [same])
      · exact .inl (chronicle.toKnown.move_cases moved).2.2.1
  | some done =>
      obtain ⟨worker, call⟩ := done
      have world : core'.world = (exec config.toDeployment core.world worker call).2 :=
        admitted.world_of_performed performed
      have late := chronicle.toKnown.late_of_performed admitted performed
      have quiet : ran core.world (worker, call) = none := by
        simpa [statementOf, performed] using carried
      rw [world]
      by_cases saving : ∃ row, call = .save row
      · obtain ⟨row, rfl⟩ := saving
        exact .inr ⟨row, late.1, late.2.2, rfl⟩
      · exact .inl (exec_table quiet fun row same => saving ⟨row, same⟩)

/-- Where a row after an act comes from: it was there, one statement made it from a row it
chose, or it is new. -/
theorem Chronicle.row_cases (chronicle : Chronicle core)
    (admitted : Core.Admits (discipline config.toDeployment) ok core act core') {row' : Row}
    (member' : row' ∈ core'.world.table) :
    (row' ∈ core.world.table ∧ ∀ worker statement,
      statementOf ⟨act, core.world⟩ = some (worker, statement) → statement.chosen row' = false) ∨
    (∃ row ∈ core.world.table, ∃ worker statement,
      statementOf ⟨act, core.world⟩ = some (worker, statement) ∧
      statement.chosen row = true ∧ Entitled core worker statement ∧
      row' = statement.patch core.world.timestamp row) ∨
    (row'.Newborn ∧ ∀ other ∈ core.world.table, other.id ≠ row'.id) := by
  cases carried : statementOf ⟨act, core.world⟩ with
  | none =>
      rcases chronicle.unapplied admitted carried with table | ⟨row, newborn, absent, world⟩
      · exact .inl ⟨table ▸ member', fun _ _ wrong => (by cases wrong)⟩
      · rw [world] at member'
        rcases (World.mem_insert absent).mp member' with rfl | there
        · exact .inr (.inr ⟨World.stamped_newborn newborn, absent⟩)
        · exact .inl ⟨there, fun _ _ wrong => (by cases wrong)⟩
  | some done =>
      obtain ⟨worker, statement⟩ := done
      obtain ⟨world, entitled⟩ := chronicle.applied admitted carried
      rw [world] at member'
      obtain ⟨row, there, rfl⟩ := World.mem_apply.mp member'
      split
      · rename_i chosen
        exact .inr (.inl ⟨row, there, worker, statement, rfl, chosen, entitled, rfl⟩)
      · rename_i passed
        refine .inl ⟨there, fun _ _ same => ?_⟩
        cases same
        simpa using passed

/-- What an act does to one row: one statement that chose it, or nothing. -/
theorem Chronicle.row_step (chronicle : Chronicle core)
    (admitted : Core.Admits (discipline config.toDeployment) ok core act core') {row : Row}
    (member : row ∈ core.world.table) {row' : Row} (member' : row' ∈ core'.world.table)
    (same : row'.id = row.id) :
    row' = row ∨ ∃ worker statement,
      statementOf ⟨act, core.world⟩ = some (worker, statement) ∧
      statement.chosen row = true ∧ Entitled core worker statement ∧
      row' = statement.patch core.world.timestamp row := by
  rcases chronicle.row_cases admitted member' with ⟨there, -⟩ |
    ⟨old, there, worker, statement, carried, chosen, entitled, rfl⟩ | ⟨-, absent⟩
  · exact .inl (Keyed.eq_of_key there member same)
  · have itself : old = row := Keyed.eq_of_key there member (by rw [← same]; simp)
    subst itself
    exact .inr ⟨worker, statement, carried, chosen, entitled, rfl⟩
  · exact absurd same.symm (absent row member)

end Step

/-- A step from a state of an unrestricted run. -/
theorem admits_of_step {Inv : SystemCore config → Prop} {state state' : SystemConfig config}
    {label : SystemLabel config}
    (held : Maintained (launch config) (discipline config.toDeployment) Inv state)
    (stepped : state.step (launch config) label = some state') :
    state'.core = state.core ∨ ∃ act, state.act label = some act ∧
      Core.Admits (discipline config.toDeployment) (fun _ _ => True) state.core act state'.core :=
  (held.admits label (fun _ _ => trivial) stepped).imp_left And.right

/-- Two versions of a row at two moments. -/
theorem Chronicle.later {core : SystemCore config} (chronicle : Chronicle core)
    {event : Event (system config)} (member : event ∈ core.history) {row current : Row}
    (then_ : row ∈ World.table event.before) (now : current ∈ core.world.table)
    (same : current.id = row.id) : row.Later current := by
  obtain ⟨current', member', later⟩ := (chronicle.forward event member).later row then_
  rw [Keyed.eq_of_key now member' (same.trans later.sameFile.id.symm)]
  exact later

/-- A row that has ever been deleted or claimed for deletion is not visible. -/
def HiddenOnceDeleted (core : SystemCore config) : Prop :=
  ∀ event ∈ core.history, ∀ row ∈ World.table event.before,
    row.deletionPendingAt ≠ none ∨ row.deletedAt ≠ none →
    ∀ current ∈ core.world.table, current.id = row.id →
      ¬ (current.deletedAt = none ∧ current.uploadPendingAt = none ∧
        current.deletionPendingAt = none)

/-- The object of every visible ready row is in the store. -/
def VisibleIsStored (world : World) : Prop :=
  ∀ row ∈ world.table, row.deletedAt = none → row.uploadPendingAt = none →
    row.deletionPendingAt = none → row.status = .ready →
      ∃ object, world.objects row.key = some object

/-- **No resurrection, and a visible file has its bytes**, in every reachable state. -/
theorem hiddenOnceDeleted_and_visibleIsStored {time : Int} {state : SystemConfig config}
    (reached : Reachable config time state) :
    HiddenOnceDeleted state.core ∧ VisibleIsStored state.core.world := by
  have chronicle := chronicle_of_reachable reached
  constructor
  · intro event member row then_ begun current now same visible
    have later := chronicle.later member then_ now same
    have touched := later.touched (Row.touched_eq_true.mpr begun.symm)
    have hidden := Row.not_visible_of_touched touched
    rw [Row.visible_eq_true.mpr visible] at hidden
    cases hidden
  · intro row member deleted uploading deleting ready
    have visible := Row.visible_eq_true.mpr ⟨deleted, uploading, deleting⟩
    exact Option.ne_none_iff_exists'.mp (chronicle.good.backed row member visible ready)

/-- Two files are uploaded; the second is claimed for deletion and its object removed. -/
def twoUploads : List (SystemLabel (smallConfig .s3)) :=
  .spawn 0 (.uploadLegacy smallCaller [1, 2] (some "a.txt") {} none {}) :: answering 0 5 ++
    .spawn 0 (.uploadLegacy smallCaller [3] (some "b.txt") {} none {}) :: answering 1 5 ++
    .spawn 1 (.deleteById smallCaller (some 1)) :: answering 2 4

theorem hiddenOnceDeleted_and_visibleIsStored_twoUploads :
    ∃ state : SystemConfig (smallConfig .s3), Reachable (smallConfig .s3) 0 state ∧
      state.core.world.table.rows.map (fun row => (row.id, row.visible, row.touched)) =
        [(0, true, false), (1, false, true)] ∧
      HiddenOnceDeleted state.core ∧ VisibleIsStored state.core.world := by
  have observed : (after (smallConfig .s3) twoUploads).map (fun state => state.core.world.table.rows.map
        fun row => (row.id, row.visible, row.touched)) =
      some [(0, true, false), (1, false, true)] := by
    decide +kernel
  obtain ⟨state, followed, rows⟩ := Option.map_eq_some_iff.mp observed
  have reached := reachable_after followed
  exact ⟨state, reached, rows, hiddenOnceDeleted_and_visibleIsStored reached⟩

end SdcoreNest.UploadedFile
