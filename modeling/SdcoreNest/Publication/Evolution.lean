/-
# Publication.Evolution -- what one act does to the rows

`Becomes` lists once what can happen to a row in one act, with what the act's worker was
entitled to: nothing, a retirement by an assignment change, a claim, a commit or a record.
`evolve` says that every row has a successor, that every row has an origin or is the one
new row of a transaction, and what happens to the current binding.
-/
import SdcoreNest.Publication.Conduct

namespace SdcoreNest.Publication

open SdcoreNest.Theory SdcoreNest.Theory.Machine

set_option autoImplicit false

variable {deployment : Deployment}

abbrev SystemCore (deployment : Deployment) := Core (machine deployment)

/-- The world of a core, under its own name. -/
abbrev worldOf (core : SystemCore deployment) : World := core.world

abbrev rowsOf (core : SystemCore deployment) : Rows := (worldOf core).repository.rows

/-- What can happen to one row in an act. -/
inductive Becomes (core : SystemCore deployment) (act : Act (machine deployment)) (row : Row) :
    Row → Prop where
  | same : Becomes core act row row
  | retired (m : Move) (moved : act = .move m) : Becomes core act row row.retireRow
  | claimed (worker : Worker) (token : JsString) (now leaseUntil : JsNumber)
      (performed : act.performed = some (worker, .call (.claim row.id token now leaseUntil)))
      (due : row.due now = true) : Becomes core act row (row.claimed token leaseUntil)
  | committed (worker : Worker) (lease : Lease) (now : JsNumber) (past : Past)
      (performed : act.performed = some (worker, .call (.commitReady lease now)))
      (suffix : past <:+ core.pastOf worker) (publishes : lease.action = .publish)
      (observed : Observed past lease)
      (owned : (worldOf core).repository.owned lease = some row)
      (unexpired : row.leaseUntil.le (worldOf core).now = false)
      (current : (worldOf core).repository.current = some lease.intent.binding)
      (effective : row.committed ∈ (exec deployment (worldOf core) worker
        (.call (.commitReady lease now))).2.repository.rows) :
      Becomes core act row row.committed
  | recorded (worker : Worker) (lease : Lease) (state : State) (code : JsString)
      (next : JsNumber) (past : Past)
      (performed : act.performed = some (worker, .call (.record lease state code next)))
      (suffix : past <:+ core.pastOf worker) (granted : Granted past lease)
      (unready : state ≠ .ready) (ending : lease.action = .retire → state.ending = true)
      (owned : (worldOf core).repository.owned lease = some row) :
      Becomes core act row (row.recorded state next)

theorem owned_eq_some {repository : Repository} {lease : Lease} {row : Row}
    (owned : repository.owned lease = some row) :
    row ∈ repository.rows ∧ row.id = lease.intent.id ∧ row.token = some lease.token ∧
      .finite row.revision = lease.revision := by
  obtain ⟨found, fits⟩ := Option.filter_eq_some_iff.mp owned
  obtain ⟨member, named⟩ := Keyed.get?_eq_some.mp found
  simp only [Row.ownedBy, Bool.and_eq_true, decide_eq_true_eq] at fits
  exact ⟨member, named, fits.1.1, fits.1.2⟩

namespace Becomes

variable {core : SystemCore deployment} {act : Act (machine deployment)} {row row' : Row}

/-- A row keeps its intent, and every change raises its revision. -/
theorem later (becomes : Becomes core act row row') :
    row'.intent = row.intent ∧ (row' = row ∨ row.revision < row'.revision) := by
  cases becomes with
  | same => exact ⟨rfl, .inl rfl⟩
  | retired => exact ⟨rfl, .inr (Nat.lt_succ_self _)⟩
  | claimed => exact ⟨rfl, .inr (Nat.lt_succ_self _)⟩
  | committed => exact ⟨rfl, .inr (Nat.lt_succ_self _)⟩
  | recorded => exact ⟨rfl, .inr (Nat.lt_succ_self _)⟩

theorem id (becomes : Becomes core act row row') : row'.id = row.id := by
  rw [Row.id, becomes.later.1]

end Becomes

/-- A row that a transaction inserted: pending, with an id drawn just now and a binding that
had no row. -/
structure Fresh (core core' : SystemCore deployment) (row : Row) : Prop where
  pending : row.state = .pending
  drawn : ∃ number, ((worldOf core).nextId ≤ number ∧ number < (worldOf core').nextId) ∧
    row.id = deployment.uuid number
  absent : ∀ other ∈ rowsOf core, other.intent.binding ≠ row.intent.binding

/-- What an act does to the rows as a whole. -/
structure Evolves (core : SystemCore deployment) (act : Act (machine deployment))
    (core' : SystemCore deployment) : Prop where
  forward : ∀ row ∈ rowsOf core, ∃ row' ∈ rowsOf core', Becomes core act row row'
  backward : ∃ new : Option Row, (∀ row' ∈ rowsOf core',
      (∃ row ∈ rowsOf core, Becomes core act row row') ∨ new = some row') ∧
    ∀ row', new = some row' → Fresh core core' row'
  ids : (worldOf core).nextId ≤ (worldOf core').nextId
  current : (worldOf core').repository.current = (worldOf core).repository.current ∨
    ∃ binding transaction, act = .move (.withAssignment binding transaction) ∧
      (worldOf core').repository.current = binding

theorem evolves_of_same {core core' : SystemCore deployment} {act : Act (machine deployment)}
    {world : World} (after : worldOf core' = world)
    (same : world.repository = (worldOf core).repository)
    (ids : (worldOf core).nextId ≤ world.nextId) : Evolves core act core' := by
  have repository : (worldOf core').repository = (worldOf core).repository := by rw [after, same]
  refine ⟨fun row member => ⟨row, ?_, .same⟩, ⟨none, fun row' member => .inl ⟨row', ?_, .same⟩,
    fun _ wrong => by cases wrong⟩, by rw [after]; exact ids, .inl (by rw [repository])⟩
  · rw [rowsOf, repository]
    exact member
  · rw [rowsOf, repository] at member
    exact member

/-- One row is replaced by what it became. -/
theorem evolves_of_save {core core' : SystemCore deployment} {act : Act (machine deployment)}
    {world : World} {row row' : Row} (after : worldOf core' = world)
    (saved : world.repository = (worldOf core).repository.save row')
    (ids : (worldOf core).nextId ≤ world.nextId) (member : row ∈ rowsOf core)
    (becomes : Becomes core act row row') : Evolves core act core' := by
  have rows : rowsOf core' = (rowsOf core).save row' := by
    rw [rowsOf, after, saved]
    rfl
  refine ⟨fun other there => ?_, ⟨none, fun other there => ?_, fun _ wrong => by cases wrong⟩,
    by rw [after]; exact ids, .inl (by rw [after, saved]; rfl)⟩
  · rw [rows]
    by_cases same : other.id = row'.id
    · have itself : other = row := Keyed.eq_of_key there member (same.trans becomes.id)
      exact ⟨row', Keyed.mem_save.mpr (.inl rfl), itself ▸ becomes⟩
    · exact ⟨other, Keyed.mem_save.mpr (.inr ⟨there, same⟩), .same⟩
  · rw [rows] at there
    rcases Keyed.mem_save.mp there with rfl | ⟨old, -⟩
    · exact .inl ⟨row, member, becomes⟩
    · exact .inl ⟨other, old, .same⟩

/-! ## What the repository does -/

theorem claim_cases (repository : Repository) (id token : JsString) (now leaseUntil : JsNumber) :
    repository.claim id token now leaseUntil = (none, repository) ∨
      ∃ row ∈ repository.rows, row.id = id ∧ row.due now = true ∧
        repository.claim id token now leaseUntil =
          (some (row.lease token leaseUntil), repository.save (row.claimed token leaseUntil)) := by
  unfold Repository.claim
  split
  · rename_i row found
    obtain ⟨member, named⟩ := Keyed.get?_eq_some.mp found
    split
    · rename_i due
      exact .inr ⟨row, member, named, due, rfl⟩
    · exact .inl rfl
  · exact .inl rfl

theorem commitReady_cases (repository : Repository) (clock : JsNumber) (lease : Lease)
    (now : JsNumber) :
    (repository.commitReady clock lease now).2 = repository ∨
      ∃ row, repository.owned lease = some row ∧ row.leaseUntil.le clock = false ∧
        repository.current = some lease.intent.binding ∧
        (repository.commitReady clock lease now).2 = repository.save row.committed := by
  unfold Repository.commitReady
  split
  · rename_i row owned
    split
    · exact .inl rfl
    · rename_i unexpired
      split
      · exact .inl rfl
      · rename_i current
        simp only [Bool.or_eq_true, not_or, Bool.not_eq_true] at unexpired
        exact .inr ⟨row, owned, unexpired.2, not_not.mp current, rfl⟩
  · exact .inl rfl

theorem record_cases (repository : Repository) (lease : Lease) (state : State)
    (next : JsNumber) :
    (repository.record lease state next).2 = repository ∨
      ∃ row, repository.owned lease = some row ∧
        (repository.record lease state next).2 = repository.save (row.recorded state next) := by
  unfold Repository.record
  split
  · rename_i row owned
    exact .inr ⟨row, owned, rfl⟩
  · exact .inl rfl

/-! ## Port calls -/

/-- A port call takes effect or leaves the world alone. -/
theorem call_world (world : World) (port : Port) :
    (world.call port).2 = world ∨ (world.call port).2 = (world.serve port).2 := by
  unfold World.call
  split
  · exact .inr rfl
  · split
    · exact .inr rfl
    · exact .inl rfl

/-- A lease that a worker was granted is the lease of a due row, which is then claimed. -/
theorem granted_of_claim {world : World} {id token : JsString} {now leaseUntil : JsNumber}
    {lease : Lease}
    (answer : (world.call (.claim id token now leaseUntil)).1 = .ok (some lease)) :
    ∃ row ∈ world.repository.rows, row.due now = true ∧ lease = row.lease token leaseUntil ∧
      row.claimed token leaseUntil ∈
        (world.call (.claim id token now leaseUntil)).2.repository.rows := by
  cases mishap : world.mishap with
  | some mishap => simp [World.call, mishap] at answer
  | none =>
      have served : world.call (.claim id token now leaseUntil) =
          world.serve (.claim id token now leaseUntil) := by
        simp only [World.call, mishap]
      rw [served] at answer ⊢
      rcases claim_cases world.repository id token now leaseUntil with
        nothing | ⟨row, member, -, due, granted⟩
      · simp [World.serve, nothing] at answer
      · simp only [World.serve, granted, Except.ok.injEq, Option.some.injEq] at answer
        refine ⟨row, member, due, answer.symm, ?_⟩
        simp only [World.serve, World.setRepository, granted]
        exact Keyed.mem_save.mpr (.inl rfl)

section Performed

variable {core core' : SystemCore deployment} {act : Act (machine deployment)} {worker : Worker}
  {past : Past}

/-- A call of a thread changes at most one row, as it is entitled to. -/
theorem evolves_of_call {call : Call}
    (performed : act.performed = some (worker, call)) (suffix : past <:+ core.pastOf worker)
    (allows : publishing.allows past call)
    (after : worldOf core' = (exec deployment (worldOf core) worker call).2) :
    Evolves core act core' := by
  cases call with
  | clock => exact evolves_of_same after rfl (Nat.le_refl _)
  | aborted => exact evolves_of_same after rfl (Nat.le_refl _)
  | newId => exact evolves_of_same after rfl (Nat.le_succ _)
  | call port =>
      have after : worldOf core' = ((worldOf core).call port).2 := after
      rcases call_world (worldOf core) port with idle | served
      · exact evolves_of_same (after.trans idle) rfl (Nat.le_refl _)
      · have after := after.trans served
        cases port with
        | claim id token now leaseUntil =>
            rcases claim_cases (worldOf core).repository id token now leaseUntil with
              none | ⟨row, member, named, due, some⟩
            · exact evolves_of_same after (congrArg Prod.snd none) (Nat.le_refl _)
            · subst named
              exact evolves_of_save after (congrArg Prod.snd some) (Nat.le_refl _) member
                (.claimed worker token now leaseUntil performed due)
        | commitReady lease now =>
            rcases commitReady_cases (worldOf core).repository (worldOf core).now lease now with
              none | ⟨row, owned, unexpired, current, some⟩
            · exact evolves_of_same after none (Nat.le_refl _)
            · refine evolves_of_save after some (Nat.le_refl _) (owned_eq_some owned).1
                (.committed worker lease now past performed suffix allows.1 allows.2 owned
                  unexpired current ?_)
              show row.committed ∈ ((worldOf core).call (.commitReady lease now)).2.repository.rows
              rw [served]
              show row.committed ∈ Repository.rows _
              rw [show ((worldOf core).serve (.commitReady lease now)).2.repository = _ from some]
              exact Keyed.mem_save.mpr (.inl rfl)
        | record lease state code next =>
            rcases record_cases (worldOf core).repository lease state next with
              none | ⟨row, owned, some⟩
            · exact evolves_of_same after none (Nat.le_refl _)
            · exact evolves_of_save after some (Nat.le_refl _) (owned_eq_some owned).1
                (.recorded worker lease state code next past performed suffix allows.1 allows.2.1
                  allows.2.2 owned)
        | stage intent => exact allows.elim
        | retireLogicalBinding binding => exact allows.elim
        | retire binding => exact allows.elim
        | _ => exact evolves_of_same after rfl (Nat.le_refl _)

/-- An assignment change retires rows and inserts at most one. -/
theorem evolves_of_assignment (distinct : Function.Injective deployment.uuid)
    (drawn : ∀ row ∈ rowsOf core, ∃ number < (worldOf core).nextId,
      row.id = deployment.uuid number)
    {binding : Option Binding} {transaction : Transaction}
    (acted : act = .move (.withAssignment binding transaction))
    (after : worldOf core' = withAssignment deployment (worldOf core) binding transaction) :
    Evolves core act core' := by
  obtain ⟨ids, outcome, current⟩ := withAssignment_outcome (worldOf core) binding transaction
  rw [← after] at ids outcome current
  have current' : (worldOf core').repository.current = (worldOf core).repository.current ∨
      ∃ binding transaction, act = .move (.withAssignment binding transaction) ∧
        (worldOf core').repository.current = binding := by
    rcases current with set | restored
    · exact .inr ⟨binding, transaction, acted, set⟩
    · exact .inl (by rw [restored])
  have updated : ∀ (chosen : Row → Bool), ∀ row ∈ rowsOf core,
      ∃ row' ∈ (rowsOf core).update chosen Row.retireRow (fun _ => rfl),
        Becomes core act row row' := by
    intro chosen row member
    refine ⟨_, (Keyed.mem_update _).mpr ⟨row, member, rfl⟩, ?_⟩
    split
    · exact .retired _ acted
    · exact .same
  have origin : ∀ (chosen : Row → Bool),
      ∀ row' ∈ (rowsOf core).update chosen Row.retireRow (fun _ => rfl),
        ∃ row ∈ rowsOf core, Becomes core act row row' := by
    intro chosen row' member
    obtain ⟨row, there, rfl⟩ := (Keyed.mem_update _).mp member
    refine ⟨row, there, ?_⟩
    split
    · exact .retired _ acted
    · exact .same
  generalize rows : (worldOf core').repository.rows = rows' at outcome
  cases outcome with
  | same =>
      refine ⟨fun row member => ⟨row, ?_, .same⟩, ⟨none, fun row member => .inl ⟨row, ?_, .same⟩,
        fun _ wrong => by cases wrong⟩, ids, current'⟩
      · rw [rowsOf, rows]
        exact member
      · rw [rowsOf, rows] at member
        exact member
  | retired chosen =>
      refine ⟨fun row member => ?_, ⟨none, fun row member => .inl ?_, fun _ wrong => by cases wrong⟩,
        ids, current'⟩
      · rw [rowsOf, rows]
        exact updated chosen row member
      · rw [rowsOf, rows] at member
        exact origin chosen row member
  | staged intent number range named absent =>
      have unlike : ∀ row ∈ rowsOf core, row.id ≠ intent.id := by
        intro row member same
        obtain ⟨older, below, called⟩ := drawn row member
        have equal : older = number := distinct (called.symm.trans (same.trans named))
        exact absurd range.1 (Nat.not_le_of_lt (equal ▸ below))
      refine ⟨fun row member => ?_, ⟨some (Row.staged intent), fun row member => ?_, ?_⟩, ids,
        current'⟩
      · obtain ⟨row', there, becomes⟩ := updated _ row member
        rw [rowsOf, rows]
        refine ⟨row', Keyed.mem_save.mpr (.inr ⟨there, ?_⟩), becomes⟩
        rw [becomes.id]
        exact unlike row member
      · rw [rowsOf, rows] at member
        rcases Keyed.mem_save.mp member with rfl | ⟨old, -⟩
        · exact .inr rfl
        · exact .inl (origin _ row old)
      · rintro _ ⟨⟩
        exact ⟨rfl, ⟨number, range, named⟩, absent⟩

/-- What an admitted act does to the rows. -/
theorem evolve {ok : SystemCore deployment → Act (machine deployment) → Prop}
    (distinct : Function.Injective deployment.uuid)
    (drawn : ∀ row ∈ rowsOf core, ∃ number < (worldOf core).nextId,
      row.id = deployment.uuid number)
    (due : core.Due publishing) (admitted : Core.Admits publishing ok core act core') :
    Evolves core act core' := by
  cases performed : act.performed with
  | none =>
      rcases admitted.world_of_idle performed with same | ⟨m, acted, moved⟩
      · exact evolves_of_same same rfl (Nat.le_refl _)
      · cases m with
        | advance ms => exact evolves_of_same (Option.some.inj moved).symm rfl (Nat.le_refl _)
        | abort worker => exact evolves_of_same (Option.some.inj moved).symm rfl (Nat.le_refl _)
        | storage observation acknowledgement =>
            exact evolves_of_same (Option.some.inj moved).symm rfl (Nat.le_refl _)
        | mishap mishap =>
            exact evolves_of_same (Option.some.inj moved).symm rfl (Nat.le_refl _)
        | withAssignment binding transaction =>
            exact evolves_of_assignment distinct drawn acted (Option.some.inj moved).symm
  | some done =>
      obtain ⟨worker, call⟩ := done
      obtain ⟨past, issued, suffix, allows, origin⟩ := admitted.allowed_of_performed due performed
      have asked : call = issued := by
        rcases origin with same | residual
        · exact same
        · cases issued with
          | call port => exact List.mem_singleton.mp residual
          | clock => exact absurd residual List.not_mem_nil
          | newId => exact absurd residual List.not_mem_nil
          | aborted => exact absurd residual List.not_mem_nil
      subst asked
      exact evolves_of_call performed suffix allows (admitted.world_of_performed performed)

end Performed

end SdcoreNest.Publication
