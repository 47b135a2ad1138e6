/-
# JobScheduler.Fencing -- the owner token fences, and a run succeeds once

`lastAcquisition` reads off a history who acquired a lock key last.  `Fenced` is the
invariant: every row carries the token of its last acquisition, every token was minted by
the worker that acquired with it and acquired at most once, and after an UPDATE to `SUCCESS`
nothing changes the row any more.
-/
import SdcoreNest.JobScheduler.Conduct

namespace SdcoreNest.JobScheduler

open SdcoreNest.Theory SdcoreNest.Theory.Machine

set_option autoImplicit false

abbrev JobsEvent := Machine.Event machine

/-- The acquisition that an event is, if it took effect. -/
def acquisitionOf (event : JobsEvent) : Option Acquisition :=
  event.act.performed.bind fun (worker, call) => World.acquisition event.before worker call

/-- The acquisition of a lock key that took effect last; histories run backwards. -/
def lastAcquisition (lockKey : JsString) (history : List JobsEvent) : Option Acquisition :=
  history.findSome? fun event => (acquisitionOf event).filter (·.lockKey = lockKey)

/-- The event changed the row of the lock key by an UPDATE of an owned lease. -/
def Updates (event : JobsEvent) (lockKey : JsString) (lease : JobLease) (set : LeaseSet) : Prop :=
  ∃ worker row, event.act.performed = some (worker, .updateOwned lease set) ∧
    row ∈ World.table event.before ∧ row.lockKey = lockKey ∧ lease.owns row = true

def Completes (event : JobsEvent) (lockKey : JsString) : Prop :=
  ∃ lease data, Updates event lockKey lease (.success data)

def Acquires (event : JobsEvent) (lockKey : JsString) : Prop :=
  ∃ acquisition, acquisitionOf event = some acquisition ∧ acquisition.lockKey = lockKey

section LastAcquisition

variable {event : JobsEvent} {history : List JobsEvent} {lockKey : JsString}

theorem lastAcquisition_cons_of_acquires {acquisition : Acquisition}
    (acquired : acquisitionOf event = some acquisition) :
    lastAcquisition acquisition.lockKey (event :: history) = some acquisition := by
  simp [lastAcquisition, acquired]

theorem lastAcquisition_cons_of_not_acquires
    (other : ∀ acquisition, acquisitionOf event = some acquisition →
      acquisition.lockKey ≠ lockKey) :
    lastAcquisition lockKey (event :: history) = lastAcquisition lockKey history := by
  have skipped : (acquisitionOf event).filter (·.lockKey = lockKey) = none := by
    cases acquired : acquisitionOf event with
    | none => rfl
    | some acquisition => simp [other acquisition acquired]
  simp [lastAcquisition, skipped]

theorem acquisitionOf_of_performed {worker : Worker} {call : Call}
    (performed : event.act.performed = some (worker, call)) :
    acquisitionOf event = World.acquisition event.before worker call := by
  unfold acquisitionOf
  rw [performed]
  rfl

theorem acquisitionOf_of_idle (idle : event.act.performed = none) : acquisitionOf event = none := by
  unfold acquisitionOf
  rw [idle]
  rfl

end LastAcquisition

/-! ## Ownership -/

/-- Every row carries the token of its last acquisition. -/
def Owned (world : World) (history : List JobsEvent) : Prop :=
  ∀ row ∈ world.table, ∃ acquisition, lastAcquisition row.lockKey history = some acquisition ∧
    acquisition.ownerToken = row.ownerToken

section Step

variable {ok : JobsCore → Act machine → Prop} {core core' : JobsCore} {act : Act machine}

/-- What an act does to the rows: nothing, or what one call does. -/
theorem rows_of_admits (admitted : Core.Admits conduct ok core act core') {row : Row}
    (member : row ∈ World.table core'.world) :
    (act.performed = none ∧ row ∈ World.table core.world) ∨
      ∃ worker call, act.performed = some (worker, call) ∧
        row ∈ (World.exec core.world worker call).2.table := by
  cases performed : act.performed with
  | some done =>
      have world := admitted.world_of_performed performed
      exact .inr ⟨done.1, done.2, rfl, by rw [world] at member; exact member⟩
  | none =>
      refine .inl ⟨rfl, ?_⟩
      rcases admitted.world_of_idle performed with same | ⟨m, -, moved⟩
      · rwa [same] at member
      · have ticked : core'.world = World.tick core.world m := (Option.some.inj moved).symm
        rw [ticked] at member
        exact member

theorem Owned.admits (owned : Owned core.world core.history)
    (admitted : Core.Admits conduct ok core act core') : Owned core'.world core'.history := by
  intro row member
  rw [admitted.history]
  rcases rows_of_admits admitted member with ⟨idle, there⟩ | ⟨worker, call, performed, there⟩
  · rw [lastAcquisition_cons_of_not_acquires]
    · exact owned row there
    · intro acquisition acquired
      rw [acquisitionOf_of_idle idle] at acquired
      cases acquired
  · have read : acquisitionOf ⟨act, core.world⟩ = World.acquisition core.world worker call :=
      acquisitionOf_of_performed performed
    rcases World.exec_cases there with ⟨old, other, -⟩ | ⟨leaseMs, acquired, -, -⟩ |
      ⟨lease, set, old, there', rfl, -, rfl⟩
    · rw [lastAcquisition_cons_of_not_acquires fun acquisition acquired =>
        other acquisition (read ▸ acquired)]
      exact owned row old
    · exact ⟨_, lastAcquisition_cons_of_acquires (read.trans acquired), rfl⟩
    · rw [lastAcquisition_cons_of_not_acquires fun acquisition acquired => by
        rw [read] at acquired
        cases acquired]
      obtain ⟨acquisition, last, token⟩ := owned old there'
      exact ⟨acquisition, by simpa using last, by simpa using token⟩

end Step

/-! ## Tokens -/

/-- The token that a call acquires with. -/
def Call.token : Call → Option Uuid
  | .insertIgnore values _ => some values.ownerToken
  | .reclaim _ ownerToken _ => some ownerToken
  | .randomUUID | .updateOwned .. => none

theorem World.acquisition_eq_some {world : World} {worker : Worker} {call : Call}
    {acquisition : Acquisition} (acquired : world.acquisition worker call = some acquisition) :
    call.token = some acquisition.ownerToken ∧ acquisition.worker = worker := by
  cases call with
  | randomUUID => cases acquired
  | updateOwned lease set => cases acquired
  | insertIgnore values leaseMs =>
      simp only [World.acquisition] at acquired
      split at acquired
      · cases acquired
        exact ⟨rfl, rfl⟩
      · cases acquired
  | reclaim lockKey ownerToken leaseMs =>
      simp only [World.acquisition] at acquired
      split at acquired
      · cases acquired
        exact ⟨rfl, rfl⟩
      · cases acquired

/-- The tokens that acquired so far, newest first. -/
def acquiredTokens (history : List JobsEvent) : List Uuid :=
  history.filterMap fun event => (acquisitionOf event).map Acquisition.ownerToken

/-- The tokens that acquired, and those that calls still under way may acquire with. -/
def spent (core : JobsCore) : List Uuid :=
  acquiredTokens core.history ++ core.deferred.filterMap fun entry => Call.token entry.2

/-- The worker holds a token that it may still acquire with. -/
def Ready (past : Past) (token : Uuid) : Prop :=
  past = [⟨.randomUUID, some token⟩] ∨ ∃ values leaseMs,
    past = [⟨.insertIgnore values leaseMs, some none⟩, ⟨.randomUUID, some token⟩]

def Minted (past : Past) (token : Uuid) : Prop := ⟨.randomUUID, some token⟩ ∈ past

theorem Ready.minted {past : Past} {token : Uuid} (ready : Ready past token) :
    Minted past token := by
  unfold Minted
  rcases ready with rfl | ⟨values, leaseMs, rfl⟩ <;> simp

theorem ready_of_allows {past : Past} {call : Call} {token : Uuid}
    (allows : conduct.allows past call) (names : call.token = some token) : Ready past token := by
  rcases allows with owner | ⟨-, lease, set, rfl⟩
  · cases call with
    | randomUUID => cases names
    | updateOwned lease set => cases names
    | insertIgnore values leaseMs =>
        cases names
        exact .inl owner
    | reclaim lockKey ownerToken leaseMs =>
        cases names
        obtain ⟨values, -, same⟩ := owner
        exact .inr ⟨values, leaseMs, same⟩
  · cases names

theorem acquiredTokens_cons (event : JobsEvent) (history : List JobsEvent) :
    acquiredTokens (event :: history) =
      ((acquisitionOf event).map Acquisition.ownerToken).toList ++ acquiredTokens history := by
  unfold acquiredTokens
  cases acquired : acquisitionOf event with
  | none => simp [acquired]
  | some acquisition => simp [acquired]

/-- A call that is carried out as it is issued spends its token if it acquires. -/
theorem acquiredTokens_issue (core : JobsCore) {mode : Mode} (worker : Worker) (call : Call)
    (effective : mode = .answer ∨ mode = .lose) :
    acquiredTokens (core.issue mode worker call).history = acquiredTokens core.history ∨
      ∃ acquisition, World.acquisition core.world worker call = some acquisition ∧
        acquiredTokens (core.issue mode worker call).history =
          acquisition.ownerToken :: acquiredTokens core.history := by
  have consed := acquiredTokens_cons ⟨.issue mode worker call, core.world⟩ core.history
  cases performed : (Act.issue mode worker call : Act machine).performed with
  | none =>
      rw [acquisitionOf_of_idle performed] at consed
      exact .inl consed
  | some done =>
      have itself : done = (worker, call) := by
        rcases effective with rfl | rfl
        · cases performed
          rfl
        · simp only [Act.performed] at performed
          split at performed
          · cases performed
          · cases performed
            rfl
      subst itself
      rw [acquisitionOf_of_performed performed] at consed
      cases acquired : World.acquisition core.world worker call with
      | none =>
          rw [acquired] at consed
          exact .inl consed
      | some acquisition =>
          rw [acquired] at consed
          exact .inr ⟨acquisition, rfl, consed⟩

theorem filterMap_token_residue (worker : Worker) (call : Call) :
    ((machine.residue call).map (worker, ·)).filterMap (fun entry => Call.token entry.2) =
      call.token.toList := by
  cases call <;> rfl

/-- A call that is issued spends its token at most once, and only if it acquires or is left
under way. -/
theorem spent_issue (core : JobsCore) (mode : Mode) (worker : Worker) (call : Call) :
    spent (core.issue mode worker call) = spent core ∨ ∃ token, call.token = some token ∧
      (spent (core.issue mode worker call)).Perm (token :: spent core) ∧
      (mode = .answer → World.acquisition core.world worker call ≠ none) := by
  have carried (effective : mode = .answer ∨ mode = .lose)
      (kept : (core.issue mode worker call).deferred = core.deferred) :
      spent (core.issue mode worker call) = spent core ∨ ∃ token, call.token = some token ∧
        (spent (core.issue mode worker call)).Perm (token :: spent core) ∧
        (mode = .answer → World.acquisition core.world worker call ≠ none) := by
    unfold spent
    rw [kept]
    rcases acquiredTokens_issue core worker call effective with
      same | ⟨acquisition, acquired, grown⟩
    · exact .inl (by rw [same])
    · refine .inr ⟨acquisition.ownerToken, (World.acquisition_eq_some acquired).1, ?_, ?_⟩
      · rw [grown]
        exact .refl _
      · simp [acquired]
  cases mode with
  | answer => exact carried (.inl rfl) rfl
  | lose => exact carried (.inr rfl) rfl
  | refuse => exact .inl rfl
  | defer =>
      have late : spent (core.issue .defer worker call) =
          acquiredTokens core.history ++ (call.token.toList ++
            core.deferred.filterMap fun entry => Call.token entry.2) := by
        show acquiredTokens core.history ++
          ((machine.residue call).map (worker, ·) ++ core.deferred).filterMap _ = _
        rw [List.filterMap_append, filterMap_token_residue]
      rw [late]
      cases names : call.token with
      | none => exact .inl rfl
      | some token =>
          refine .inr ⟨token, rfl, List.perm_middle, ?_⟩
          intro impossible
          cases impossible

/-- A call that lands spends no further token. -/
theorem spent_land (core : JobsCore) {worker : Worker} {call : Call} {index : Nat}
    (found : core.deferred[index]? = some (worker, call)) :
    (spent (core.land worker call (core.deferred.eraseIdx index))).Subperm (spent core) := by
  obtain ⟨inside, entry⟩ := List.getElem?_eq_some_iff.mp found
  have perm : core.deferred.Perm ((worker, call) :: core.deferred.eraseIdx index) :=
    entry ▸ (List.getElem_cons_eraseIdx_perm inside).symm
  have tokens := perm.filterMap fun entry => Call.token entry.2
  have consed := acquiredTokens_cons ⟨.land worker call, core.world⟩ core.history
  rw [acquisitionOf_of_performed rfl] at consed
  have older : (acquiredTokens core.history ++
      (core.deferred.eraseIdx index).filterMap fun entry => Call.token entry.2).Subperm
        (spent core) := by
    refine (List.Sublist.append (List.Sublist.refl _) ?_).subperm
    exact (List.eraseIdx_sublist _ _).filterMap _
  cases acquired : World.acquisition core.world worker call with
  | none =>
      rw [acquired] at consed
      show (acquiredTokens (_ :: core.history) ++ _).Subperm (spent core)
      rw [consed]
      exact older
  | some acquisition =>
      rw [acquired] at consed
      have named : Call.token ((worker, call) : Worker × Call).2 = some acquisition.ownerToken :=
        (World.acquisition_eq_some acquired).1
      rw [List.filterMap_cons, named] at tokens
      show (acquiredTokens (_ :: core.history) ++ _).Subperm (spent core)
      rw [consed]
      refine List.Perm.subperm ?_
      exact (List.perm_middle.symm).trans (List.Perm.append_left _ tokens.symm)

/-- No token acquires twice. -/
structure Spending (core : JobsCore) : Prop where
  once : (spent core).Nodup
  unspent : ∀ {worker token}, Ready (core.pastOf worker) token → token ∉ spent core
  acquired : ∀ event ∈ core.history, ∀ acquisition, acquisitionOf event = some acquisition →
    Minted (core.pastOf acquisition.worker) acquisition.ownerToken
  deferred : ∀ worker call token, (worker, call) ∈ core.deferred → Call.token call = some token →
    Minted (core.pastOf worker) token
  fresh : ∀ {worker token}, Minted (core.pastOf worker) token → token < World.nextToken core.world
  unique : ∀ {worker other token}, Minted (core.pastOf worker) token →
    Minted (core.pastOf other) token → worker = other

theorem World.nextToken_le_exec (world : World) (worker : Worker) (call : Call) :
    world.nextToken ≤ (world.exec worker call).2.nextToken := by
  cases call with
  | randomUUID => exact Nat.le_succ _
  | insertIgnore values leaseMs =>
      simp only [World.exec]
      split <;> exact Nat.le_refl _
  | reclaim lockKey ownerToken leaseMs => exact Nat.le_refl _
  | updateOwned lease set => exact Nat.le_refl _

/-- An INSERT that answers that the key is taken did not acquire. -/
theorem World.acquisition_of_conflict {world : World} {worker : Worker} {values : Values}
    {leaseMs : Nat} (conflict : (world.exec worker (.insertIgnore values leaseMs)).1 = none) :
    world.acquisition worker (.insertIgnore values leaseMs) = none := by
  simp only [World.exec] at conflict
  split at conflict
  · cases conflict
  · rename_i none
    simp [World.acquisition, none]

section Spending

variable {ok : JobsCore → Act machine → Prop} {core core' : JobsCore} {act : Act machine}

theorem nextToken_le_of_admits (admitted : Core.Admits conduct ok core act core') :
    World.nextToken core.world ≤ World.nextToken core'.world := by
  cases performed : act.performed with
  | some done =>
      rw [admitted.world_of_performed performed]
      exact World.nextToken_le_exec core.world done.1 done.2
  | none =>
      rcases admitted.world_of_idle performed with same | ⟨m, -, moved⟩
      · exact Nat.le_of_eq (congrArg World.nextToken same.symm)
      · rw [show core'.world = World.tick core.world m from (Option.some.inj moved).symm]
        exact Nat.le_refl _

theorem minted_of_admits (admitted : Core.Admits conduct ok core act core') {worker : Worker}
    {token : Uuid} (minted : Minted (core.pastOf worker) token) :
    Minted (core'.pastOf worker) token :=
  (admitted.pastOf_suffix worker).subset minted

/-- The token of a call that is carried out was minted by its worker. -/
theorem Spending.minted_of_performed (spending : Spending core)
    (admitted : Core.Admits conduct ok core act core') {worker : Worker} {call : Call}
    {token : Uuid} (performed : act.performed = some (worker, call))
    (names : call.token = some token) : Minted (core.pastOf worker) token := by
  rcases admitted.performed_cases performed with ⟨allows, -, -⟩ | ⟨-, late⟩
  · exact (ready_of_allows allows names).minted
  · exact spending.deferred worker call token late names

theorem Spending.lt_of_spent (spending : Spending core) {token : Uuid}
    (member : token ∈ spent core) : token < World.nextToken core.world := by
  rcases List.mem_append.mp member with acquired | late
  · obtain ⟨event, there, read⟩ := List.mem_filterMap.mp acquired
    obtain ⟨acquisition, taken, rfl⟩ := Option.map_eq_some_iff.mp read
    exact spending.fresh (spending.acquired event there acquisition taken)
  · obtain ⟨⟨worker, call⟩, there, names⟩ := List.mem_filterMap.mp late
    exact spending.fresh (spending.deferred worker call token there names)

/-- What an act adds to the tokens spent. -/
theorem spent_of_admits (admitted : Core.Admits conduct ok core act core') :
    (spent core').Subperm (spent core) ∨ ∃ mode worker call token,
      act = .issue mode worker call ∧ Call.token call = some token ∧
      Ready (core.pastOf worker) token ∧ (spent core').Perm (token :: spent core) ∧
      (mode = .answer → World.acquisition core.world worker call ≠ none) := by
  cases admitted with
  | @issue mode worker call allows alive enabled met =>
      rcases spent_issue core mode worker call with same | ⟨token, names, grown, acquires⟩
      · exact .inl (same ▸ List.Subperm.refl _)
      · exact .inr ⟨mode, worker, call, token, rfl, names, ready_of_allows allows names, grown,
          acquires⟩
  | land found met => exact .inl (spent_land core found)
  | crash met => exact .inl (List.Subperm.refl _)
  | move moved met => exact .inl (List.Subperm.refl _)

theorem Spending.once_of_admits (spending : Spending core)
    (admitted : Core.Admits conduct ok core act core') : (spent core').Nodup := by
  rcases spent_of_admits admitted with ⟨between, perm, inside⟩ |
    ⟨mode, worker, call, token, -, -, ready, grown, -⟩
  · exact perm.nodup_iff.mp (spending.once.sublist inside)
  · exact grown.nodup_iff.mpr (List.nodup_cons.mpr ⟨spending.unspent ready, spending.once⟩)

theorem Spending.unspent_of_admits (spending : Spending core)
    (admitted : Core.Admits conduct ok core act core') {worker : Worker} {token : Uuid}
    (ready : Ready (core'.pastOf worker) token) : token ∉ spent core' := by
  intro member
  rcases admitted.pastOf_cases worker with same | ⟨mode, call, rfl, grown, allows⟩
  · rw [same] at ready
    rcases spent_of_admits admitted with fewer |
      ⟨mode, other, call, token', rfl, -, ready', grown, -⟩
    · exact spending.unspent ready (fewer.subset member)
    · rcases List.mem_cons.mp (grown.subset member) with rfl | older
      · -- the other worker minted the same token, so it is this one, whose past would have grown
        have itself := spending.unique ready.minted ready'.minted
        subst itself
        cases admitted with
        | issue =>
            rw [Core.pastOf_issue_self] at same
            exact List.cons_ne_self _ _ same
      · exact spending.unspent ready older
  · rw [grown] at ready
    have unacquired : mode = .answer ∧ World.acquisition core.world worker call = none ∧
        token ∉ spent core := by
      rcases ready with first | ⟨values, leaseMs, second⟩
      · obtain ⟨step, -⟩ := List.cons.inj first
        obtain ⟨answered, rfl, read⟩ := answered_of_step step.symm
        refine ⟨answered, rfl, fun old => Nat.lt_irrefl token ?_⟩
        exact Nat.lt_of_lt_of_eq (spending.lt_of_spent old) read.symm
      · obtain ⟨step, older⟩ := List.cons.inj second
        obtain ⟨answered, rfl, read⟩ := answered_of_step step.symm
        exact ⟨answered, World.acquisition_of_conflict read.symm, spending.unspent (.inl older)⟩
    rcases spent_of_admits admitted with fewer |
      ⟨mode', other, call', token', acted, -, -, -, acquires⟩
    · exact unacquired.2.2 (fewer.subset member)
    · cases acted
      exact acquires unacquired.1 unacquired.2.1

theorem Spending.admits (spending : Spending core)
    (admitted : Core.Admits conduct ok core act core') : Spending core' := by
  have minting : ∀ {worker token}, Minted (core'.pastOf worker) token →
      Minted (core.pastOf worker) token ∨ (act = .issue .answer worker .randomUUID ∧
        token = World.nextToken core.world ∧
        World.nextToken core'.world = World.nextToken core.world + 1) := by
    intro worker token minted
    rcases admitted.answered minted with old | ⟨acted, read, -, world⟩
    · exact .inl old
    · exact .inr ⟨acted, read, by rw [world]; rfl⟩
  refine ⟨spending.once_of_admits admitted, spending.unspent_of_admits admitted, ?_, ?_, ?_, ?_⟩
  · intro event member acquisition acquired
    rw [admitted.history] at member
    rcases List.mem_cons.mp member with rfl | older
    · cases performed : act.performed with
      | none =>
          rw [acquisitionOf_of_idle performed] at acquired
          cases acquired
      | some done =>
          rw [acquisitionOf_of_performed performed] at acquired
          obtain ⟨names, author⟩ := World.acquisition_eq_some acquired
          rw [author]
          exact minted_of_admits admitted (spending.minted_of_performed admitted performed names)
    · exact minted_of_admits admitted (spending.acquired event older acquisition acquired)
  · intro worker call token member names
    refine minted_of_admits admitted ?_
    rcases admitted.mem_deferred member with old | ⟨issued, rfl, residual, allows, -⟩
    · exact spending.deferred worker call token old names
    · cases issued with
      | randomUUID => cases residual
      | _ =>
          cases List.mem_singleton.mp residual
          exact (ready_of_allows allows names).minted
  · intro worker token minted
    rcases minting minted with old | ⟨-, rfl, next⟩
    · exact Nat.lt_of_lt_of_le (spending.fresh old) (nextToken_le_of_admits admitted)
    · exact Nat.lt_of_lt_of_eq (Nat.lt_succ_self _) next.symm
  · intro worker other token first second
    rcases minting first with old | ⟨acted, rfl, -⟩ <;>
      rcases minting second with old' | ⟨acted', same, -⟩
    · exact spending.unique old old'
    · exact absurd same (Nat.ne_of_lt (spending.fresh old))
    · exact absurd (spending.fresh old') (Nat.lt_irrefl _)
    · rw [acted] at acted'
      cases acted'
      rfl

end Spending

/-! ## Success -/

theorem World.mem_exec_of_success {world : World} (worker : Worker) (call : Call) {row : Row}
    (member : row ∈ world.table) (success : row.status = .success) :
    row ∈ (world.exec worker call).2.table := by
  cases call with
  | randomUUID => exact member
  | insertIgnore values leaseMs =>
      simp only [World.exec]
      split
      · rename_i table inserted
        exact ((Table.mem_insertIgnore inserted).2 row).mpr (.inl member)
      · exact member
  | reclaim lockKey ownerToken leaseMs =>
      refine World.mem_reclaim.mpr ⟨row, member, (if_neg ?_).symm⟩
      simp [success]
  | updateOwned lease set =>
      refine World.mem_updateOwned.mpr ⟨row, member, (if_neg ?_).symm⟩
      simp [success]

/-- A successful run found its row, and nothing changed it since. -/
structure Settled (core : JobsCore) : Prop where
  successful : ∀ event ∈ core.history, ∀ lockKey, Completes event lockKey →
    ∃ row ∈ World.table core.world, row.lockKey = lockKey ∧ row.status = .success
  untouched : core.history.Pairwise fun later earlier => ∀ lockKey, Completes earlier lockKey →
    ¬ Acquires later lockKey ∧ ∀ lease set, ¬ Updates later lockKey lease set

section Success

variable {ok : JobsCore → Act machine → Prop} {core core' : JobsCore} {act : Act machine}

/-- SUCCESS is terminal. -/
theorem mem_of_success (admitted : Core.Admits conduct ok core act core') {row : Row}
    (member : row ∈ World.table core.world) (success : row.status = .success) :
    row ∈ World.table core'.world := by
  cases performed : act.performed with
  | some done =>
      rw [admitted.world_of_performed performed]
      exact World.mem_exec_of_success done.1 done.2 member success
  | none =>
      rcases admitted.world_of_idle performed with same | ⟨m, -, moved⟩
      · rwa [same]
      · rw [show core'.world = World.tick core.world m from (Option.some.inj moved).symm]
        exact member

theorem not_touched_of_success {event : JobsEvent} {row : Row}
    (member : row ∈ World.table event.before) (success : row.status = .success) :
    ¬ Acquires event row.lockKey ∧ ∀ lease set, ¬ Updates event row.lockKey lease set := by
  constructor
  · rintro ⟨acquisition, acquired, key⟩
    cases performed : event.act.performed with
    | none =>
        rw [acquisitionOf_of_idle performed] at acquired
        cases acquired
    | some done =>
        rw [acquisitionOf_of_performed performed] at acquired
        have state := World.acquisition_found acquired member key.symm
        simp [success] at state
  · rintro lease set ⟨worker, other, -, there, key, owns⟩
    rw [Table.eq_of_lockKey there member key] at owns
    simp [success] at owns

theorem Settled.admits (settled : Settled core)
    (admitted : Core.Admits conduct ok core act core') : Settled core' := by
  constructor
  · intro event member lockKey completes
    rw [admitted.history] at member
    rcases List.mem_cons.mp member with rfl | older
    · obtain ⟨lease, data, worker, row, performed, there, key, owns⟩ := completes
      refine ⟨(LeaseSet.success data).apply (World.clock core.world) row, ?_, key, rfl⟩
      rw [admitted.world_of_performed performed]
      exact World.mem_updateOwned.mpr ⟨row, there, (if_pos owns).symm⟩
    · obtain ⟨row, there, key, success⟩ := settled.successful event older lockKey completes
      exact ⟨row, mem_of_success admitted there success, key, success⟩
  · rw [admitted.history]
    refine List.pairwise_cons.mpr ⟨fun earlier member lockKey completes => ?_, settled.untouched⟩
    obtain ⟨row, there, rfl, success⟩ := settled.successful earlier member lockKey completes
    exact not_touched_of_success there success

end Success

/-! ## The invariant -/

/-- The invariant of the job table. -/
structure Fenced (core : JobsCore) : Prop extends Spending core, Settled core where
  due : core.Due conduct
  lawful : core.Lawful conduct
  asked : ∀ event ∈ core.history, ∀ worker call, event.act.performed = some (worker, call) →
    ∃ reply, ⟨call, reply⟩ ∈ core.pastOf worker
  owned : Owned core.world core.history
  before : ∀ event older, event :: older <:+ core.history → Owned event.before older

theorem mem_residue {call issued : Call} (residual : call ∈ machine.residue issued) :
    call = issued := by
  cases issued with
  | randomUUID => cases residual
  | _ => exact List.mem_singleton.mp residual

theorem fenced_keeps : Keeps conduct (fun _ _ => True) Fenced where
  credible _ _ _ := trivial
  admits fenced admitted := by
    rename_i core act core'
    refine ⟨fenced.toSpending.admits admitted, fenced.toSettled.admits admitted,
      fenced.due.admits admitted, fenced.lawful.admits admitted, ?_,
      fenced.owned.admits admitted, ?_⟩
    · intro event member worker call performed
      rw [admitted.history] at member
      rcases List.mem_cons.mp member with rfl | older
      · rcases admitted.performed_cases performed with ⟨-, -, acted⟩ | ⟨-, late⟩
        · rcases acted with rfl | ⟨rfl, -⟩ <;> cases admitted with
          | issue =>
              rw [Core.pastOf_issue_self]
              exact ⟨_, List.mem_cons_self⟩
        · obtain ⟨past, issued, suffix, -, residual⟩ := fenced.due worker call late
          cases mem_residue residual
          exact ⟨none, (admitted.pastOf_suffix worker).subset
            (suffix.subset List.mem_cons_self)⟩
      · obtain ⟨reply, there⟩ := fenced.asked event older worker call performed
        exact ⟨reply, (admitted.pastOf_suffix worker).subset there⟩
    · intro event older suffix
      rw [admitted.history] at suffix
      rcases List.suffix_cons_iff.mp suffix with whole | inside
      · cases whole
        exact fenced.owned
      · exact fenced.before event older inside

theorem fenced_initial (time : Int) : Fenced (⟨World.initial time, [], []⟩ : JobsCore) where
  once := List.nodup_nil
  unspent _ member := absurd member List.not_mem_nil
  acquired _ member := absurd member List.not_mem_nil
  deferred _ _ _ member := absurd member List.not_mem_nil
  fresh minted := absurd minted List.not_mem_nil
  unique minted := absurd minted List.not_mem_nil
  successful _ member := absurd member List.not_mem_nil
  untouched := .nil
  due _ _ member := absurd member List.not_mem_nil
  lawful _ _ _ suffix := absurd suffix (by simp [Core.pastOf])
  asked _ member := absurd member List.not_mem_nil
  owned _ member := absurd member (Table.not_mem_empty _)
  before _ _ suffix := absurd suffix (by simp)

theorem fenced_of_reachable {digest : JsString → JsString} {time : Int} {state : JobsConfig}
    (reached : Reachable digest time state) :
    Maintained (launch digest) conduct Fenced state :=
  Reach.keeps fenced_keeps (launch_conducted digest) (fenced_initial time) reached

end SdcoreNest.JobScheduler
