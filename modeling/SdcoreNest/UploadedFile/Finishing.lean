/-
# UploadedFile.Finishing -- uploads that the client can still finish

A direct upload that is pending or completing can be finished until `uploadExpiredAt`.  The
maintenance job `cleanupPendingUploads` runs three sweeps; two of them look at
`uploadExpiredAt` or at the status, the third one, `unsafeSystemRetryPendingDeletions`,
looks at `uploadPendingAt` alone.  So it takes a completing upload whose lease ran out or
was given back for a retry.  It takes no other upload that can still be finished.

The sweeps run alone here, with any fault at any call; `sparing` is what their calls have
in common: none of them touches the row or a key with its id.
-/
import SdcoreNest.UploadedFile.History
import SdcoreNest.UploadedFile.Routine

namespace SdcoreNest.UploadedFile

open SdcoreNest.Theory
open SdcoreNest.Theory.Machine

set_option autoImplicit false

variable {config : Config}

/-- The client can still finish the upload at `now`. -/
structure Row.Finishable (row : Row) (now : Int) : Prop where
  unfinished : row.status = .pending ∨ row.status = .completing
  unclaimed : row.deletionPendingAt = none
  valid : ∃ expiry, row.uploadExpiredAt = some expiry ∧ now < expiry

/-- `cleanupPendingUploads`, run by a process while nothing else happens, leaves the row and its
objects as they are, whatever its calls end in and however far it gets. -/
def SparedBySweeps (state : SystemConfig config) (process : Nat) (limit : Option Int)
    (row : Row) : Prop :=
  ∀ (modes : List Mode) state',
    state.follow (launch config) (fun _ _ => true)
      (.spawn process (.cleanupPendingUploads limit) :: modes.map (.issue · state.size)) =
        some state' →
    row ∈ state'.core.world.table ∧
      ∀ key ∈ row.keys, state'.core.world.objects key = state.core.world.objects key

/-! ## Calls that spare a row -/

/-- No call changes the row or an object with its id; the clock stands still, and the row is
found as it is. -/
def sparing (config : Config) (row : Row) (now : Int) : Conduct sig where
  allows _ call := match call with
    | .now | .nextDeletionClaim _ | .find _ => True
    | .update statement => statement.chosen row = false
    | .delete keys => ∀ key ∈ keys, key.id ≠ row.id
    | .deleteObject key => key.id ≠ row.id
    | _ => False
  credible step := match step with
    | ⟨.now, some time⟩ => time = now
    | ⟨.find query, some rows⟩ => ∀ found ∈ rows, query.chosen config.keyText found = true ∧
        found.Sound ∧ (found.id = row.id → found = row)
    | _ => True

section Sweeps

variable {row : Row} {now : Int} {past : Past}

/-- A row in a sweep that is not the spared one. -/
structure Row.Apart (row found : Row) : Prop where
  id : found.id ≠ row.id
  keys : ∀ key ∈ found.keys, key.id = found.id

theorem Row.Sound.keysId {found : Row} (sound : found.Sound) :
    ∀ key ∈ found.keys, key.id = found.id := by
  intro key member
  rcases List.mem_cons.mp member with rfl | staging
  · exact sound.keyId
  · exact sound.stagingId (Option.mem_toList.mp staging)

theorem releaseDeletionClaim_spares {found : Row} (apart : row.Apart found) (claim : Int) :
    Follows (sparing config row now) (releaseDeletionClaim [found] claim none) past anyhow := by
  unfold releaseDeletionClaim
  refine Follows.ask_bind trivial (fun time _ => ?_) fun _ => trivial
  refine Follows.ask_bind ?_ (fun _ _ => trivial) fun _ => trivial
  simp [sparing, Statement.chosen, pendingDeletionWhere, apart.id]

theorem clearFinalizedDeletionClaim_spares {found : Row} (apart : row.Apart found) (claim : Int) :
    Follows (sparing config row now) (clearFinalizedDeletionClaim [found] claim none) past
      anyhow := by
  unfold clearFinalizedDeletionClaim
  split
  · trivial
  · refine Follows.ask_bind ?_ (fun affected _ => ?_) fun _ => trivial
    · simp [sparing, Statement.chosen, apart.id]
    · split <;> trivial

theorem deleteClaimedRow_spares {found : Row} (apart : row.Apart found) (claim : Int) :
    Follows (sparing config row now) (deleteClaimedRow found claim) past anyhow := by
  unfold deleteClaimedRow deleteAndFinalizePendingRows
  refine Follows.catching ?_ (fun _ _ _ => trivial) fun _ _ _ => trivial
  refine Follows.catching ?_ (fun _ _ _ => trivial) fun error past' _ => ?_
  · refine Follows.ask_bind ?_ (fun _ _ => ?_) fun _ => trivial
    · intro key inside
      simp only [objectKeys, List.mem_eraseDups, List.flatMap_singleton] at inside
      rw [apart.keys key inside]
      exact apart.id
    · refine Follows.seq (fun _ _ => True) ?_ (fun finalized past' _ _ => ?_) fun _ _ _ => trivial
      · refine Follows.ask ?_ (fun _ _ => trivial) fun _ => trivial
        simp [sparing, Statement.chosen, pendingDeletionWhere, apart.id]
      · split
        · refine Follows.seq (fun _ _ => True) ?_ (fun _ _ _ _ => trivial) fun _ _ _ => trivial
          exact (clearFinalizedDeletionClaim_spares apart claim).swallowed fun _ _ => trivial
        · trivial
  · refine Follows.seq (fun _ _ => True) ?_ (fun _ _ _ _ => trivial) fun _ _ _ => trivial
    exact (releaseDeletionClaim_spares apart claim).swallowed fun _ _ => trivial

/-- A snapshot with other markers, or of another row, is not the spared row. -/
theorem sameMarkers_eq_false {found : Row} (different : found.id ≠ row.id) :
    found.sameMarkers row = false := by
  simp [Row.sameMarkers, different.symm]

theorem cleanupExpiredDirectRows_spares (rows : List Row) (finalized : Nat)
    (apart : ∀ found ∈ rows, row.Apart found) :
    Follows (sparing config row now) (cleanupExpiredDirectRows rows finalized) past anyhow := by
  induction rows generalizing past finalized with
  | nil => trivial
  | cons found rows ih =>
      obtain ⟨first, others⟩ := List.forall_mem_cons.mp apart
      unfold cleanupExpiredDirectRows
      split
      · exact ih finalized others
      · refine Follows.ask_bind trivial (fun claim _ => ?_) fun _ => trivial
        refine Follows.ask_bind ?_ (fun affected _ => ?_) fun _ => trivial
        · simp [sparing, Statement.chosen, sameMarkers_eq_false first.id]
        · split
          · refine Follows.seq (fun _ _ => True) (deleteClaimedRow_spares ?_ claim)
              (fun count past' _ _ => ih (finalized + count) others) fun _ _ _ => trivial
            exact ⟨first.id, first.keys⟩
          · exact ih finalized others

theorem cleanupCompletedStagingRows_spares (rows : List Row) (cleaned : Nat)
    (apart : ∀ found ∈ rows, row.Apart found) :
    Follows (sparing config row now) (cleanupCompletedStagingRows rows cleaned) past anyhow := by
  induction rows generalizing past cleaned with
  | nil => trivial
  | cons found rows ih =>
      obtain ⟨first, others⟩ := List.forall_mem_cons.mp apart
      unfold cleanupCompletedStagingRows
      split
      · exact ih cleaned others
      · rename_i pendingKey staging
        refine Follows.seq (fun _ _ => True) ?_ (fun count past' _ _ => ih _ others)
          fun _ _ _ => trivial
        refine Follows.catching ?_ (fun _ _ _ => trivial) fun _ _ _ => trivial
        refine Follows.ask_bind ?_ (fun _ _ => ?_) fun _ => trivial
        · show pendingKey.id ≠ row.id
          rw [first.keys pendingKey (by simp [Row.keys, staging])]
          exact first.id
        · refine Follows.ask ?_ (fun _ _ => trivial) fun _ => trivial
          simp [sparing, Statement.chosen, first.id.symm]

theorem retryPendingDeletionRows_spares (time : Int) (rows : List Row) (finalized : Nat)
    (apart : ∀ found ∈ rows, row.Apart found) :
    Follows (sparing config row now) (retryPendingDeletionRows time rows finalized) past
      anyhow := by
  induction rows generalizing past finalized with
  | nil => trivial
  | cons found rows ih =>
      obtain ⟨first, others⟩ := List.forall_mem_cons.mp apart
      unfold retryPendingDeletionRows
      split
      · exact ih finalized others
      · refine Follows.ask_bind trivial (fun claim _ => ?_) fun _ => trivial
        refine Follows.tryAsk_bind (sameMarkers_eq_false first.id) fun reply _ => ?_
        split
        · refine Follows.seq (fun _ _ => True) (deleteClaimedRow_spares ?_ claim)
            (fun count past' _ _ => ih (finalized + count) others) fun _ _ _ => trivial
          exact ⟨first.id, first.keys⟩
        · exact ih finalized others

/-- What a sweep finds is apart from a row that its query does not choose. -/
theorem apart_of_found {query : Query} {rows : List Row}
    (credits : (sparing config row now).credible ⟨.find query, some rows⟩)
    (passed : query.chosen config.keyText row = false) : ∀ found ∈ rows, row.Apart found := by
  intro found member
  obtain ⟨chosen, sound, same⟩ := credits found member
  refine ⟨fun named => ?_, sound.keysId⟩
  rw [same named, passed] at chosen
  cases chosen

/-- The sweeps choose no upload that can be finished and whose marker has not passed. -/
theorem cleanupPendingUploads_spares (limit : Option Int) (finishable : row.Finishable now)
    (held : before row.uploadPendingAt now = false) :
    Follows (sparing config row now) (cleanupPendingUploads limit) past anyhow := by
  obtain ⟨unfinished, unclaimed, expiry, expires, early⟩ := finishable
  have open_ : notAfter row.uploadExpiredAt now = false := by simp [notAfter, expires, early]
  have waiting : row.status ≠ .ready := by
    rcases unfinished with pending | completing
    · simp [pending]
    · simp [completing]
  unfold cleanupPendingUploads
  refine Follows.seq (fun _ _ => True) ?_ (fun expired _ _ _ => ?_) fun _ _ _ => trivial
  · unfold unsafeSystemCleanupExpiredDirectUploads
    refine Follows.ask_bind trivial (fun time credits => ?_) fun _ => trivial
    obtain rfl : time = now := credits
    refine Follows.ask_bind trivial (fun rows credits => ?_) fun _ => trivial
    refine cleanupExpiredDirectRows_spares rows 0 (apart_of_found credits ?_)
    simp [Query.chosen, open_]
  refine Follows.seq (fun _ _ => True) ?_ (fun staged _ _ _ => ?_) fun _ _ _ => trivial
  · unfold unsafeSystemCleanupCompletedStaging
    refine Follows.ask_bind trivial (fun time credits => ?_) fun _ => trivial
    refine Follows.ask_bind trivial (fun rows credits => ?_) fun _ => trivial
    refine cleanupCompletedStagingRows_spares rows 0 (apart_of_found credits ?_)
    simp [Query.chosen, waiting]
  refine Follows.seq (fun _ _ => True) ?_ (fun retried _ _ _ => trivial) fun _ _ _ => trivial
  unfold unsafeSystemRetryPendingDeletions
  refine Follows.ask_bind trivial (fun time credits => ?_) fun _ => trivial
  obtain rfl : time = now := credits
  refine Follows.ask_bind trivial (fun settled credits => ?_) fun _ => trivial
  have first := apart_of_found credits (by simp [Query.chosen, unclaimed, before])
  simp only
  split
  · exact retryPendingDeletionRows_spares time settled 0 first
  · refine Follows.ask_bind trivial (fun initial credits => ?_) fun _ => trivial
    have second := apart_of_found credits (by simp [Query.chosen, held])
    refine Follows.ask_bind trivial (fun retry credits => ?_) fun _ => trivial
    have third := apart_of_found credits (by simp [Query.chosen, held])
    refine retryPendingDeletionRows_spares time _ 0 fun found member => ?_
    rcases List.mem_append.mp member with inside | inside
    · exact first found inside
    · exact (mem_unresolvedTombstones inside).elim (second found) (third found)

end Sweeps

/-! ## A sweep alone -/

/-- The row, the objects with its id and the clock of the process, as they were. -/
structure Untouched (row : Row) (old : Objects) (process : Nat) (now : Int) (world : World) :
    Prop where
  member : row ∈ world.table
  objects : ∀ key, key.id = row.id → world.objects key = old key
  clock : world.clock (.process process) = now

variable {row : Row} {old : Objects} {process : Nat} {now : Int} {world : World} {past : Past}
  {call : Call}

/-- A sparing call leaves all that as it is. -/
theorem Untouched.exec (untouched : Untouched row old process now world) {worker : Worker}
    (allows : (sparing config row now).allows past call) :
    Untouched row old process now (exec config.toDeployment world worker call).2 := by
  obtain ⟨member, objects, clock⟩ := untouched
  cases call with
  | now => exact ⟨member, objects, clock⟩
  | nextDeletionClaim expected => exact ⟨member, objects, clock⟩
  | find query => exact ⟨member, objects, clock⟩
  | update statement =>
      have passed : statement.chosen row = false := allows
      refine ⟨World.mem_apply.mpr ⟨row, member, ?_⟩, objects, clock⟩
      rw [passed]
      rfl
  | delete keys =>
      refine ⟨member, fun key named => ?_, clock⟩
      refine (Objects.removeAll_of_not_mem _ fun inside => ?_).trans (objects key named)
      exact allows key inside named
  | deleteObject key' =>
      refine ⟨member, fun key named => ?_, clock⟩
      refine (Objects.remove_of_ne _ ?_).trans (objects key named)
      rintro rfl
      exact allows named
  | _ => cases allows

/-- What a sparing call is answered. -/
theorem Untouched.credible (untouched : Untouched row old process now world)
    (good : world.Good) {number : Nat} {mode : Mode} :
    (sparing config row now).credible
      ⟨call, replyIn (M := system config) world ⟨process, number⟩ call mode⟩ := by
  cases mode with
  | answer =>
      cases call with
      | now => exact untouched.clock
      | find query =>
          intro found selected
          obtain ⟨member, chosen⟩ := Query.mem_of_mem_select selected
          exact ⟨chosen, good.sound found member, fun same =>
            Keyed.eq_of_key member untouched.member same⟩
      | _ => trivial
  | refuse | lose | defer => cases call <;> trivial

/-- The same for a call that may have thrown, with or without its effect. -/
theorem Untouched.issue {core : SystemCore config} {worker : Worker} {mode : Mode}
    (untouched : Untouched row old process now core.world)
    (allows : (sparing config row now).allows past call) :
    Untouched row old process now (core.issue mode worker call).world := by
  rcases core.worldAfter_cases worker call mode with ⟨-, same⟩ | ⟨-, after⟩
  · show Untouched row old process now (core.worldAfter worker call mode)
    rw [same]
    exact untouched
  · show Untouched row old process now (core.worldAfter worker call mode)
    rw [after]
    exact untouched.exec allows

/-- **Unfinished uploads are spared** by the sweeps of pending uploads, in every reachable state,
as long as their upload marker has not passed. -/
theorem finishable_spared_by_sweeps {time : Int} {state : SystemConfig config}
    (reached : Reachable config time state) (process : Nat) (limit : Option Int) {row : Row}
    (member : row ∈ state.core.world.table)
    (finishable : row.Finishable (state.core.world.clock (.process process)))
    (held : before row.uploadPendingAt (state.core.world.clock (.process process)) = false) :
    SparedBySweeps state process limit row := by
  intro modes state' followed
  have spawned := Reach.step (.spawn process (.cleanupPendingUploads limit)) reached
    (fun _ _ => trivial) rfl
  have obeys : Program.Obeys (sparing config row (state.core.world.clock (.process process)))
      (launch config (.cleanupPendingUploads limit)) [] fun _ _ => True :=
    replying_obeys .count (cleanupPendingUploads_spares limit finishable held)
  have kept := follow_alone (fun core => Untouched row state.core.world.objects process
      (state.core.world.clock (.process process)) core.world)
    (fun reached' untouched allows _ => ⟨untouched.credible (known_of_reachable reached').good,
      untouched.issue allows⟩) modes spawned (if_pos rfl) obeys ⟨member, fun _ _ => rfl, rfl⟩
    (by simpa [Machine.Config.follow, Machine.Config.step, Machine.Config.act] using followed)
  refine ⟨kept.member, fun key inside => kept.objects key ?_⟩
  exact ((known_of_reachable reached).good.sound row member).keysId key inside

/-- A direct upload is initiated. -/
def oneUnfinished : List (SystemLabel (smallConfig .s3)) :=
  .spawn 0 (.initiateUpload smallCaller ⟨"a.txt", "text/plain", 2, none⟩) :: answering 0 4

theorem finishable_spared_by_sweeps_initiated :
    ∃ state : SystemConfig (smallConfig .s3), Reachable (smallConfig .s3) 0 state ∧
      ∃ row ∈ state.core.world.table,
        row.Finishable (state.core.world.clock (.process 1)) ∧
        before row.uploadPendingAt (state.core.world.clock (.process 1)) = false ∧
        SparedBySweeps state 1 none row := by
  have observed : (after (smallConfig .s3) oneUnfinished).any (fun state =>
      decide (state.core.world.clock (.process 1) = 0) &&
        state.core.world.table.rows.any fun row => decide (row.status = .pending) &&
          row.deletionPendingAt.isNone && decide (row.uploadExpiredAt = some 3600000) &&
          !before row.uploadPendingAt 0) = true := by
    decide +kernel
  obtain ⟨state, followed, seen⟩ := (Option.any_eq_true _ _).mp observed
  simp only [Bool.and_eq_true, decide_eq_true_eq, List.any_eq_true, Option.isNone_iff_eq_none,
    Bool.not_eq_true'] at seen
  obtain ⟨clock, row, member, ⟨⟨pending, unclaimed⟩, expires⟩, held⟩ := seen
  have reached := reachable_after followed
  have finishable : row.Finishable (state.core.world.clock (.process 1)) :=
    ⟨.inl pending, unclaimed, 3600000, expires, by rw [clock]; decide⟩
  rw [← clock] at held
  exact ⟨state, reached, row, member, finishable, held,
    finishable_spared_by_sweeps reached 1 none member finishable held⟩

/-- Its client stores the object; the completion fails at the copy and gives its lease back. -/
def oneRetryable : List (SystemLabel (smallConfig .s3)) :=
  oneUnfinished ++
    .move (.clientPut ⟨.pending, "t", 0, "a.txt"⟩
      { body := [1, 2], contentType := some "text/plain", uploadId := some 0 }) ::
    .spawn 0 (.completeUpload smallCaller (some 0)) :: answering 1 5 ++
    .issue .refuse 1 :: answering 1 2

/-- The sweeps delete the staging object of an upload whose completion may be retried. -/
theorem retryable_completion_swept :
    ∃ state : SystemConfig (smallConfig .s3), Reachable (smallConfig .s3) 0 state ∧
      ∃ row ∈ state.core.world.table,
        row.Finishable (state.core.world.clock (.process 1)) ∧
        ¬ SparedBySweeps state 1 none row := by
  have observed : (after (smallConfig .s3) oneRetryable).any (fun state =>
      decide (state.core.world.clock (.process 1) = 0) &&
        state.core.world.table.rows.any fun row => decide (row.status = .completing) &&
          row.deletionPendingAt.isNone && decide (row.uploadExpiredAt = some 3600000) &&
          (state.follow (launch (smallConfig .s3)) (fun _ _ => true)
            (.spawn 1 (.cleanupPendingUploads none) ::
              (List.replicate 11 .answer).map (.issue · state.size))).any fun state' =>
            row.keys.any fun key => decide
              (state'.core.world.objects key ≠ state.core.world.objects key)) = true := by
    decide +kernel
  obtain ⟨state, followed, seen⟩ := (Option.any_eq_true _ _).mp observed
  simp only [Bool.and_eq_true, decide_eq_true_eq, List.any_eq_true, Option.isNone_iff_eq_none,
    Option.any_eq_true] at seen
  obtain ⟨clock, row, member, ⟨⟨completing, unclaimed⟩, expires⟩, state', swept, key, inside,
    changed⟩ := seen
  refine ⟨state, reachable_after followed, row, member,
    ⟨.inr completing, unclaimed, 3600000, expires, by rw [clock]; decide⟩, fun spared => ?_⟩
  exact changed ((spared _ state' swept).2 key inside)

end SdcoreNest.UploadedFile
