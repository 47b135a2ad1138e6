/-
# UploadedFile.Orphans -- no bytes without a row that remembers them

The bytes of a server-side upload are written outside the database transaction, so
they may appear after the row was deleted.  `uploadPendingAt` is what remembers such a
write.  `SettledWrites` is the run condition that it is given up for a deletion only when
the write can no longer take effect (`WriteOver`): that is what
`unsafeSystemRetireUploadTombstone` asks of its operator.  Under it no object of a
server-side upload is ever forgotten (`no_orphaned_bytes`).

The other statements that clear `uploadPendingAt` for a deletion do not ask:
`orphaned_by_deleteById` is a run in which a user deletes the file between the INSERT
and the write.
-/
import SdcoreNest.UploadedFile.Leases

namespace SdcoreNest.UploadedFile

open SdcoreNest.Theory
open SdcoreNest.Theory.Machine

set_option autoImplicit false

variable {config : Config}

/-- No write of the key is under way, and its writer has issued it or stopped. -/
def WriteOver (core : SystemCore config) (key : StorageKey) : Prop :=
  (∀ worker object, (worker, .putObject key object) ∉ core.deferred) ∧
    ∀ worker saved, Saved (core.pastOf worker) saved → saved.key = key →
      (∃ object reply, (⟨.putObject key object, reply⟩ : Step sig) ∈ core.pastOf worker) ∨
        core.Crashed worker

/-- The run condition: an UPDATE that gives up the upload marker of a server-side upload for a
deletion is carried out only when the write of the upload is over. -/
def SettledWrites (core : SystemCore config) (act : Act (system config)) : Prop :=
  ∀ worker statement, statementOf ⟨act, core.world⟩ = some (worker, statement) →
    ∀ row ∈ core.world.table, statement.chosen row = true → row.uploadExpiredAt = none →
      row.uploadPendingAt ≠ none →
      (statement.patch core.world.timestamp row).uploadPendingAt = none →
      (statement.patch core.world.timestamp row).touched = true →
        WriteOver core row.key

/-! ## What statements do to the markers -/

namespace Statement

variable (clock : Moment) {statement : Statement} {row : Row}

/-- A statement that drops the upload marker and begins no deletion activates the row. -/
theorem activates_patch (chosen : statement.chosen row = true)
    (marked : row.uploadPendingAt ≠ none)
    (dropped : (statement.patch clock row).uploadPendingAt = none)
    (untouched : (statement.patch clock row).touched = false) :
    statement.activates = true := by
  rw [Row.touched_eq_false] at untouched
  cases statement <;>
    simp_all [Statement.activates, Statement.chosen, patch, pendingDeletionWhere_eq_true]

/-- Only `clearFinalizedDeletionClaim` leaves a deleted row without any marker. -/
theorem cleared_patch (chosen : statement.chosen row = true)
    (deleted : (statement.patch clock row).deletedAt ≠ none)
    (settled : (statement.patch clock row).uploadPendingAt = none)
    (unclaimed : (statement.patch clock row).deletionPendingAt = none) :
    (row.deletedAt ≠ none ∧ row.uploadPendingAt = none ∧ row.deletionPendingAt = none) ∨
      ∃ rows claim access, statement = .clearFinalizedDeletionClaim rows claim access := by
  cases statement <;>
    simp_all [Statement.chosen, patch, Access.lifecycleWhere_eq_true,
      Access.pendingUploadWhere_eq_true, pendingDeletionWhere_eq_true]

end Statement

/-! ## The invariant -/

structure Remembered (core : SystemCore config) : Prop extends Clocked core where
  ended : ∀ row ∈ core.world.table, row.uploadExpiredAt = none → row.uploadPendingAt = none →
    WriteOver core row.key
  writer : ∀ worker key object reply, key.space ≠ .pending →
    (⟨.putObject key object, reply⟩ : Step sig) ∈ core.pastOf worker →
      ∃ saved, Saved (core.pastOf worker) saved ∧ saved.key = key
  answered : ∀ worker key object, key.space ≠ .pending →
    (⟨.putObject key object, some true⟩ : Step sig) ∈ core.pastOf worker →
    ∀ other object', (other, .putObject key object') ∉ core.deferred
  erased : ∀ worker past hold, past <:+ core.pastOf worker → holding past = some hold →
    hold.phase ≠ .claimed → ∀ row ∈ hold.rows, row.uploadExpiredAt = none →
      row.uploadPendingAt = none → ¬ core.world.Stores row.key
  cleared : ∀ row ∈ core.world.table, row.uploadExpiredAt = none → row.deletedAt ≠ none →
    row.uploadPendingAt = none → row.deletionPendingAt = none → ¬ core.world.Stores row.key

/-- A write that is over is not asked for any more. -/
theorem WriteOver.not_allowed {core : SystemCore config} {key : StorageKey}
    (ended : WriteOver core key) (final : key.space ≠ .pending) {worker : Worker}
    (alive : ¬ core.Crashed worker) (object : StoredObject) :
    ¬ allowed config.driver (core.pastOf worker) (.putObject key object) := by
  rintro (⟨staging, -⟩ | ⟨⟨saved, mine, keyed, -⟩, fresh⟩)
  · exact final staging
  · rcases ended.2 worker saved mine keyed with ⟨object', reply, wrote⟩ | crashed
    · exact fresh object' reply wrote
    · exact alive crashed

namespace Clocked

variable {core core' : SystemCore config} {act : Act (system config)}
  {ok : SystemCore config → Act (system config) → Prop} (clocked : Clocked core)

include clocked

/-- The final key of a row names the worker that saved it. -/
theorem worker_of_finalKey {worker other : Worker} {saved saved' : Row}
    (mine : Saved (core.pastOf worker) saved) (theirs : Saved (core.pastOf other) saved')
    (same : saved.key = saved'.key) : worker = other := by
  have named : saved.id = saved'.id := by
    rw [← (clocked.shape worker saved (.inl mine)).keyId, same,
      (clocked.shape other saved' (.inl theirs)).keyId]
  have drawn := clocked.savedBy worker saved mine
  rw [named, clocked.savedBy other saved' theirs] at drawn
  exact (Option.some.inj drawn).symm

/-- A signed URL is made for staging keys only. -/
theorem staging_of_issued {key : StorageKey} (issued : key ∈ core.world.issued) :
    key.space = .pending := by
  obtain ⟨worker, url, signed⟩ := clocked.issuedTo key issued
  obtain ⟨-, saved, mine, staging⟩ := clocked.signing worker key _ signed
  rw [((clocked.shape worker saved (.inl mine)).staging key staging).1]

variable (admitted : Core.Admits (discipline config.toDeployment) ok core act core')

include admitted

/-- A write that is over stays over. -/
theorem writeOver_step {row : Row} (member : row ∈ core.world.table)
    (ended : WriteOver core row.key) : WriteOver core' row.key := by
  have final := (clocked.good.sound row member).keySpace
  constructor
  · intro worker object member'
    rcases admitted.mem_deferred member' with old | ⟨issued, -, residual, allows, alive⟩
    · exact ended.1 worker object old
    · have asked : issued = .putObject row.key object := by
        rcases mem_residue residual with same | ⟨_, _, -, -, wrong⟩
        · exact same.symm
        · cases wrong
      subst asked
      exact ended.not_allowed final alive object allows
  · intro worker saved mine keyed
    obtain ⟨given, step⟩ := mine
    rcases admitted.answered step with old | ⟨acted, rfl, -, -⟩
    · rcases ended.2 worker saved ⟨given, old⟩ keyed with ⟨object, reply, wrote⟩ | crashed
      · exact .inl ⟨object, reply, (admitted.pastOf_suffix worker).subset wrote⟩
      · exact .inr (admitted.crashed crashed)
    · -- a row saved just now has a new id, hence a new key
      have performed : act.performed = some (worker, .save given) := by
        rw [acted]
        rfl
      have late := clocked.toKnown.late_of_performed admitted performed
      have sameId : row.id = given.id := by
        rw [← (clocked.good.sound row member).keyId, ← keyed]
        exact late.1.sound.keyId
      exact absurd sameId (late.2.2 row member)

/-- The object of a server-side upload does not come back once its write is over. -/
theorem gone_step {row : Row} (member : row ∈ core.world.table)
    (server : row.uploadExpiredAt = none) (ended : WriteOver core row.key)
    (gone : ¬ core.world.Stores row.key) : ¬ core'.world.Stores row.key := by
  have final := (clocked.good.sound row member).keySpace
  intro stored
  cases performed : act.performed with
  | none =>
      rcases admitted.world_of_idle performed with same | ⟨m, -, moved⟩
      · exact gone (same ▸ stored)
      · rcases move_stores moved stored with there | issued
        · exact gone there
        · exact final (clocked.staging_of_issued issued)
  | some done =>
      obtain ⟨worker, call⟩ := done
      have world : core'.world = (exec config.toDeployment core.world worker call).2 :=
        admitted.world_of_performed performed
      rw [world] at stored
      rcases exec_stores stored with there | ⟨writes, signed⟩
      · exact gone there
      · have single : ∀ key', call ≠ .deleteObject key' := by
          rintro key' rfl
          exact writes
        obtain ⟨past, suffix, allows⟩ :=
          clocked.allowed_of_performed admitted performed single
        have direct : ¬ DirectKey past row.key := by
          rintro ⟨read, reading, managed, keyed⟩
          obtain ⟨current, present, later⟩ :=
            clocked.seen worker read (.inr (reading.mono suffix))
          have itself := clocked.good.eq_of_key present member (later.sameFile.key.trans keyed)
          rw [← later.sameFile.uploadExpiredAt, itself] at managed
          exact managed server
        cases call with
        | putObject key' object =>
            cases writes
            rcases admitted.performed_cases performed with ⟨asks, alive, -⟩ | ⟨-, late⟩
            · exact ended.not_allowed final alive object asks
            · exact ended.1 worker object late
        | uploadSigned key' object =>
            cases writes
            exact final allows
        | copyObject source destination sourceEtag =>
            cases writes
            exact direct allows
        | link source destination =>
            cases writes
            exact direct allows
        | _ => exact writes

end Clocked

namespace Remembered

variable {core core' : SystemCore config} {act : Act (system config)}
  (remembered : Remembered core)
  (admitted : Core.Admits (discipline config.toDeployment) SettledWrites core act core')

include remembered

/-- An acknowledged write is over. -/
theorem over_of_wrote {worker : Worker} {saved : Row} (mine : Saved (core.pastOf worker) saved)
    (wrote : Wrote (core.pastOf worker) saved.key) : WriteOver core saved.key := by
  obtain ⟨object, step⟩ := wrote
  have final := remembered.toKnown.keySpace (.inl mine)
  refine ⟨remembered.answered worker saved.key object final step, ?_⟩
  intro other saved' theirs keyed
  cases remembered.worker_of_finalKey mine theirs keyed.symm
  exact .inl ⟨object, some true, step⟩

include admitted

theorem over_step {row : Row} (member : row ∈ core'.world.table)
    (server : row.uploadExpiredAt = none) (settled : row.uploadPendingAt = none) :
    WriteOver core' row.key := by
  rcases remembered.row_cases admitted member with ⟨there, -⟩ |
    ⟨old, there, worker, statement, carried, chosen, ⟨past, suffix, allowed⟩, rfl⟩ | ⟨newborn, -⟩
  · exact remembered.writeOver_step admitted there (remembered.ended row there server settled)
  · have same := Statement.patch_sameFile core.world.timestamp statement old
    have server : old.uploadExpiredAt = none := same.uploadExpiredAt ▸ server
    rw [same.key]
    refine remembered.writeOver_step admitted there ?_
    by_cases before : old.uploadPendingAt = none
    · exact remembered.ended old there server before
    · cases touched : (statement.patch core.world.timestamp old).touched with
      | true =>
          have met : SettledWrites core act := by
            cases admitted <;> assumption
          exact met worker statement carried old there chosen server before settled touched
      | false =>
          -- an activation: the worker's own write was acknowledged
          have active := Statement.activates_patch _ chosen before settled touched
          have fits := World.fits_of_rooted (remembered.toKnown.rooted suffix allowed) there chosen
          have wrote : ∀ saved, Saved past saved → Wrote past saved.key → old.id = saved.id →
              WriteOver core old.key := by
            intro saved mine wrote named
            obtain ⟨current, present, later⟩ :=
              remembered.seen worker saved (.inl (mine.mono suffix))
            rw [Keyed.eq_of_key there present (named.trans later.sameFile.id.symm),
              later.sameFile.key]
            exact remembered.over_of_wrote (mine.mono suffix) (wrote.mono suffix)
          cases statement with
          | activatePendingUpload saved access marker =>
              exact wrote saved allowed.1 allowed.2.2.2.2
                (Access.pendingUploadWhere_eq_true.mp chosen).1
          | activateTemporaryPendingUpload saved access marker completedAt =>
              exact wrote saved allowed.1 allowed.2.2.2.2
                (Access.pendingUploadWhere_eq_true.mp chosen).1
          | finalizeCompletion snapshot access marker completedAt etag checksum drop =>
              -- rows the server writes itself are never completing
              simp only [Statement.chosen, Bool.and_eq_true, decide_eq_true_eq] at chosen
              have sound := remembered.good.sound old there
              cases temporary : old.isTemporary with
              | false => simp [(sound.permanent server temporary).1] at chosen
              | true => exact absurd chosen.1.2 (sound.temporary server temporary).1
          | _ => cases active
  · exact absurd settled newborn.marked

theorem writer_step {worker : Worker} {key : StorageKey} {object : StoredObject}
    {reply : Option Bool} (final : key.space ≠ .pending)
    (step : (⟨.putObject key object, reply⟩ : Step sig) ∈ core'.pastOf worker) :
    ∃ saved, Saved (core'.pastOf worker) saved ∧ saved.key = key := by
  have longer := admitted.pastOf_suffix worker
  rcases admitted.mem_pastOf step with old | ⟨-, -, -, staging | ⟨⟨saved, mine, keyed, -⟩, -⟩⟩
  · obtain ⟨saved, mine, keyed⟩ := remembered.writer worker key object reply final old
    exact ⟨saved, mine.mono longer, keyed⟩
  · exact absurd staging.1 final
  · exact ⟨saved, mine.mono longer, keyed⟩

theorem answered_step {worker : Worker} {key : StorageKey} {object : StoredObject}
    (final : key.space ≠ .pending)
    (step : (⟨.putObject key object, some true⟩ : Step sig) ∈ core'.pastOf worker)
    {other : Worker} {object' : StoredObject} :
    (other, .putObject key object') ∉ core'.deferred := by
  have itself : ∀ issued, Call.putObject key object' ∈ residue issued →
      issued = .putObject key object' := by
    intro issued residual
    rcases mem_residue residual with same | ⟨_, _, -, -, wrong⟩
    · exact same.symm
    · cases wrong
  intro member
  rcases admitted.answered step with old | ⟨acted, -, allows, -⟩
  · rcases admitted.mem_deferred member with there | ⟨issued, -, residual, allows, -⟩
    · exact remembered.answered worker key object final old other object' there
    · -- the worker of the acknowledged write is the only one that may write, and only once
      cases itself issued residual
      obtain ⟨saved, mine, keyed⟩ := remembered.writer worker key object _ final old
      rcases allows with ⟨staging, -⟩ | ⟨⟨saved', theirs, keyed', -⟩, fresh⟩
      · exact final staging
      · cases remembered.worker_of_finalKey mine theirs (keyed.trans keyed'.symm)
        exact fresh object _ old
  · rcases admitted.mem_deferred member with there | ⟨issued, acted', -, -, -⟩
    · obtain ⟨past, issued, suffix, -, residual⟩ := remembered.due other _ there
      cases itself issued residual
      have late := suffix.subset List.mem_cons_self
      obtain ⟨saved', theirs, keyed'⟩ := remembered.writer other key object' none final late
      rcases allows with ⟨staging, -⟩ | ⟨⟨saved, mine, keyed, -⟩, fresh⟩
      · exact final staging
      · cases remembered.worker_of_finalKey mine theirs (keyed.trans keyed'.symm)
        exact fresh object' none late
    · rw [acted] at acted'
      cases acted'

theorem erased_step {worker : Worker} {past : Past} {hold : Hold}
    (suffix : past <:+ core'.pastOf worker) (held : holding past = some hold)
    (phase : hold.phase ≠ .claimed) {row : Row} (inside : row ∈ hold.rows)
    (server : row.uploadExpiredAt = none) (settled : row.uploadPendingAt = none) :
    ¬ core'.world.Stores row.key := by
  -- what was gone before stays gone
  have stays : ∀ {past' hold'}, past' <:+ core.pastOf worker → holding past' = some hold' →
      row ∈ hold'.rows → hold'.phase ≠ .claimed → ¬ core'.world.Stores row.key := by
    intro past' hold' suffix' held' inside' phase'
    obtain ⟨current, present, claimed⟩ :=
      remembered.held worker past' hold' suffix' held' row inside'
    have gone := remembered.erased worker past' hold' suffix' held' phase' row inside' server settled
    have server : current.uploadExpiredAt = none := claimed.file.uploadExpiredAt.trans server
    rw [← claimed.file.key] at gone ⊢
    exact remembered.gone_step admitted present server
      (remembered.ended current present server (claimed.settled settled)) gone
  rcases admitted.suffix_cases suffix with old | ⟨mode, call, acted, rfl, allows⟩
  · exact stays old held inside phase
  · obtain ⟨old, before, rows, -, further⟩ := erased_cons allows held phase
    rcases further with phase' | ⟨keys, step⟩
    · exact stays (List.suffix_refl _) before (rows ▸ inside) phase'
    · -- the worker's own delete was answered just now
      obtain ⟨rfl, rfl, -⟩ := answered_of_step step.symm
      obtain ⟨hold', held', -, rfl⟩ := allows
      rw [before, Option.some.injEq] at held'
      subst held'
      have performed : act.performed = some (worker, .delete (objectKeys old.rows)) := by
        rw [acted]
        rfl
      have world : core'.world =
          (exec config.toDeployment core.world worker (.delete (objectKeys old.rows))).2 :=
        admitted.world_of_performed performed
      rw [world]
      have member : row.key ∈ objectKeys old.rows := by
        simp only [objectKeys, List.mem_eraseDups, List.mem_flatMap, Row.keys, List.mem_cons]
        exact ⟨row, rows ▸ inside, .inl rfl⟩
      simp [World.Stores, exec, World.setObjects, Objects.removeAll_of_mem _ member]

theorem cleared_step {row : Row} (member : row ∈ core'.world.table)
    (server : row.uploadExpiredAt = none) (deleted : row.deletedAt ≠ none)
    (settled : row.uploadPendingAt = none) (unclaimed : row.deletionPendingAt = none) :
    ¬ core'.world.Stores row.key := by
  rcases remembered.row_cases admitted member with ⟨there, -⟩ |
    ⟨old, there, worker, statement, carried, chosen, ⟨past, suffix, allowed⟩, rfl⟩ | ⟨newborn, -⟩
  · exact remembered.gone_step admitted there server (remembered.ended row there server settled)
      (remembered.cleared row there server deleted settled unclaimed)
  · have same := Statement.patch_sameFile core.world.timestamp statement old
    have server : old.uploadExpiredAt = none := same.uploadExpiredAt ▸ server
    rw [same.key]
    rcases Statement.cleared_patch _ chosen deleted settled unclaimed with
      ⟨deleted, settled, unclaimed⟩ | ⟨rows, claim, access, rfl⟩
    · exact remembered.gone_step admitted there server
        (remembered.ended old there server settled)
        (remembered.cleared old there server deleted settled unclaimed)
    · -- the worker that clears the claim has deleted the object before
      obtain ⟨held, settledRows⟩ := allowed
      simp only [Statement.chosen, Bool.and_eq_true, decide_eq_true_eq] at chosen
      obtain ⟨row, inside, named⟩ := List.mem_map.mp chosen.1.1.1.1
      obtain ⟨current, present, claimed⟩ := remembered.held worker past _ suffix held row inside
      have itself : current = old :=
        Keyed.eq_of_key present there (claimed.file.id.trans named)
      subst itself
      have gone := remembered.erased worker past _ suffix held (by simp) row inside
        (claimed.file.uploadExpiredAt ▸ server) (settledRows row inside)
      rw [claimed.file.key]
      rw [← claimed.file.key] at gone ⊢
      exact remembered.gone_step admitted present server
        (remembered.ended current present server (claimed.settled (settledRows row inside))) gone
  · have untouched := Row.touched_eq_false.mp newborn.untouched
    exact absurd untouched.1 deleted

end Remembered

theorem remembered_keeps (config : Config) :
    Keeps (discipline config.toDeployment) SettledWrites (@Remembered config) where
  credible remembered := (known_keeps config).credible remembered.toKnown
  admits remembered admitted :=
    { toClocked := ((clocked_keeps config).weaken fun _ _ _ => trivial).admits
        remembered.toClocked admitted
      ended := fun _ => remembered.over_step admitted
      writer := fun _ _ _ _ => remembered.writer_step admitted
      answered := fun _ _ _ final step _ _ => remembered.answered_step admitted final step
      erased := fun _ _ _ suffix held phase _ => remembered.erased_step admitted suffix held phase
      cleared := fun _ => remembered.cleared_step admitted }

theorem remembered_initial (time : Int) :
    Remembered (⟨World.initial time, [], []⟩ : SystemCore config) where
  toClocked := clocked_initial time
  ended row member := absurd member (Keyed.not_mem_empty row)
  writer _ _ _ _ _ step := absurd step List.not_mem_nil
  answered _ _ _ _ step := absurd step List.not_mem_nil
  erased _ past _ suffix held := by
    cases List.suffix_nil.mp suffix
    cases held
  cleared row member := absurd member (Keyed.not_mem_empty row)

/-! ## No orphaned bytes -/

/-- A maintenance sweep selects the row at every late enough time. -/
def Revisited (keyText : StorageKey → String) (row : Row) : Prop :=
  ∃ moment : Int, ∀ now, moment < now → ∀ take,
    (Query.settledDeletions now take).chosen keyText row = true ∨
      (Query.initialTombstones now take).chosen keyText row = true ∨
      (Query.retryTombstones now take).chosen keyText row = true

theorem revisited_of_marker {keyText : StorageKey → String} {row : Row}
    (marked : row.uploadPendingAt ≠ none ∨ row.deletionPendingAt ≠ none) :
    Revisited keyText row := by
  cases uploading : row.uploadPendingAt with
  | none =>
      obtain ⟨claim, deleting⟩ := Option.ne_none_iff_exists'.mp
        (marked.resolve_left (by simp [uploading]))
      refine ⟨claim, fun now passed take => .inl ?_⟩
      simp [Query.chosen, uploading, deleting, passed]
  | some marker =>
      cases deleting : row.deletionPendingAt with
      | none =>
          refine ⟨marker, fun now passed take => .inr (.inl ?_)⟩
          simp [Query.chosen, uploading, deleting, passed]
      | some claim =>
          refine ⟨max marker claim, fun now passed take => .inr (.inr ?_)⟩
          have passed : marker < now ∧ claim < now := by omega
          simp [Query.chosen, uploading, deleting, passed]

/-- **No orphaned bytes**: in every run in which an upload marker is given up for a deletion
only when the write is over, every server-side upload whose object is stored is active or
carries a marker that a sweep will revisit. -/
theorem no_orphaned_bytes {time : Int} {state : SystemConfig config}
    (reached : ReachableIf config SettledWrites time state) :
    ∀ row ∈ state.core.world.table, row.uploadExpiredAt = none →
      state.core.world.objects row.key ≠ none →
        (row.deletedAt = none ∧ row.uploadPendingAt = none ∧ row.deletionPendingAt = none) ∨
          ((row.uploadPendingAt ≠ none ∨ row.deletionPendingAt ≠ none) ∧
            Revisited config.keyText row) := by
  intro row member server stored
  have remembered := (Reach.keeps (remembered_keeps config) (launch_follows config)
    (remembered_initial time) reached).inv
  by_cases marked : row.uploadPendingAt ≠ none ∨ row.deletionPendingAt ≠ none
  · exact .inr ⟨marked, revisited_of_marker marked⟩
  · simp only [not_or, not_not] at marked
    refine .inl ⟨?_, marked.1, marked.2⟩
    by_contra deleted
    exact remembered.cleared row member server deleted marked.1 marked.2 stored

/-- A check that is enough for `WriteOver`: whoever inserted a row has put this object or stopped. -/
def writeIsOver (core : SystemCore config) (key : StorageKey) : Bool :=
  (core.deferred.all fun call => match call.2 with
    | .putObject other _ => other ≠ key
    | _ => true) &&
  core.history.all fun event => match event.act with
    | .issue _ worker (.save _) =>
        ((core.pastOf worker).any fun step => match step.call with
          | .putObject other _ => other = key
          | _ => false) ||
        core.history.any fun event => match event.act with
          | .crash other => other = worker
          | _ => false
    | _ => true

theorem writeOver_of_writeIsOver {core : SystemCore config} {key : StorageKey}
    (checked : writeIsOver core key = true) : WriteOver core key := by
  obtain ⟨landed, issued⟩ := Bool.and_eq_true_iff.mp checked
  refine ⟨fun worker object inside => ?_, ?_⟩
  · have other := List.all_eq_true.mp landed _ inside
    simp at other
  · rintro worker saved ⟨row, inside⟩ _
    obtain ⟨event, past, step⟩ := List.mem_filterMap.mp inside
    obtain ⟨acted, -⟩ := Core.answered_of_stepOf step
    have stopped := List.all_eq_true.mp issued event past
    rw [acted] at stopped
    rcases Bool.or_eq_true_iff.mp stopped with put | crashed
    · obtain ⟨⟨call, reply⟩, taken, isPut⟩ := List.any_eq_true.mp put
      cases call with
      | putObject other object =>
          obtain rfl := of_decide_eq_true isPut
          exact .inl ⟨object, reply, taken⟩
      | _ => cases isPut
    · obtain ⟨crash, taken, isCrash⟩ := List.any_eq_true.mp crashed
      refine .inr ⟨crash, taken, ?_⟩
      cases act : crash.act with
      | crash other =>
          rw [act] at isCrash
          rw [of_decide_eq_true isCrash]
      | _ =>
          rw [act] at isCrash
          cases isCrash

/-- A check that is enough for `SettledWrites`. -/
def settlesWrites (core : SystemCore config) (act : Act (system config)) : Bool :=
  match statementOf ⟨act, core.world⟩ with
  | none => true
  | some (_, statement) => core.world.table.rows.all fun row =>
      !(statement.chosen row && row.uploadPendingAt.isSome &&
        (statement.patch core.world.timestamp row).touched) || writeIsOver core row.key

theorem settlesWrites_sound {core : SystemCore config} {act : Act (system config)}
    (checked : settlesWrites core act = true) : SettledWrites core act := by
  intro worker statement carried row member chosen _ marked _ touched
  simp only [settlesWrites, carried, List.all_eq_true] at checked
  have settled := checked row member
  refine writeOver_of_writeIsOver ?_
  simpa [chosen, touched, Option.isSome_iff_ne_none.mpr marked] using settled

/-- A user deletes the file after it was written and before it is activated; the storage refuses. -/
def deletedAfterWrite : List (SystemLabel (smallConfig .s3)) :=
  .spawn 0 (.uploadLegacy smallCaller [1, 2] (some "a.txt") {} none {}) :: answering 0 4 ++
    .spawn 1 (.deleteById smallCaller (some 0)) :: answering 1 3 ++ .issue .refuse 1 :: answering 1 2

/-- The upload marker was given up for the deletion; the object is there, and so is the deletion. -/
theorem no_orphaned_bytes_deletedAfterWrite :
    ∃ state : SystemConfig (smallConfig .s3), ReachableIf (smallConfig .s3) SettledWrites 0 state ∧
      ∃ row ∈ state.core.world.table, row.uploadExpiredAt = none ∧
        state.core.world.objects row.key ≠ none ∧ row.uploadPendingAt = none ∧
        row.deletionPendingAt ≠ none ∧
        ((row.deletedAt = none ∧ row.uploadPendingAt = none ∧ row.deletionPendingAt = none) ∨
          ((row.uploadPendingAt ≠ none ∨ row.deletionPendingAt ≠ none) ∧
            Revisited (smallConfig .s3).keyText row)) := by
  have observed : (after (smallConfig .s3) deletedAfterWrite settlesWrites).any (fun state =>
      state.core.world.table.rows.any fun row =>
        row.uploadExpiredAt.isNone && (state.core.world.objects row.key).isSome &&
          row.uploadPendingAt.isNone && row.deletionPendingAt.isSome) = true := by
    decide +kernel
  obtain ⟨state, followed, seen⟩ := (Option.any_eq_true _ _).mp observed
  obtain ⟨row, member, facts⟩ := List.any_eq_true.mp seen
  simp only [Bool.and_eq_true, Option.isNone_iff_eq_none, Option.isSome_iff_ne_none, and_assoc] at facts
  obtain ⟨server, stored, given, deleting⟩ := facts
  have reached : ReachableIf (smallConfig .s3) SettledWrites 0 state :=
    reach_follow _ (fun _ _ => settlesWrites_sound) .start followed
  exact ⟨state, reached, row, member, server, stored, given, deleting,
    no_orphaned_bytes reached row member server stored⟩

/-- A user deletes the file by its id between the INSERT of the upload and its write. -/
def deletedBeforeWrite : List (SystemLabel (smallConfig .s3)) :=
  .spawn 0 (.uploadLegacy smallCaller [1, 2] (some "a.txt") {} none {}) :: answering 0 3 ++
    .spawn 1 (.deleteById smallCaller (some 0)) :: answering 1 6 ++ answering 0 1

/-- The row is deleted and carries no marker any more; the object is there. -/
theorem orphaned_by_deleteById :
    ∃ state : SystemConfig (smallConfig .s3), Reachable (smallConfig .s3) 0 state ∧
      ∃ row ∈ state.core.world.table, row.uploadExpiredAt = none ∧
        state.core.world.objects row.key ≠ none ∧ row.deletedAt ≠ none ∧
        row.uploadPendingAt = none ∧ row.deletionPendingAt = none := by
  have observed : (after (smallConfig .s3) deletedBeforeWrite).any (fun state =>
      state.core.world.table.rows.any fun row =>
        row.uploadExpiredAt.isNone && (state.core.world.objects row.key).isSome &&
          row.deletedAt.isSome && row.uploadPendingAt.isNone &&
          row.deletionPendingAt.isNone) = true := by
    decide +kernel
  obtain ⟨state, followed, seen⟩ := (Option.any_eq_true _ _).mp observed
  obtain ⟨row, member, facts⟩ := List.any_eq_true.mp seen
  simp only [Bool.and_eq_true, Option.isNone_iff_eq_none, Option.isSome_iff_ne_none,
    and_assoc] at facts
  exact ⟨state, reachable_after followed, row, member, facts⟩

end SdcoreNest.UploadedFile
