/-
# Auth.Residue -- what earlier principals leave behind on a request

After any checks on a request, the last check is compared with the same check on a fresh
request.  Two things can be left behind: custom claims, which are only ever added to the
context, and permission codes, which are kept by user id alone.  What is left is told from the
principals alone, those that were entered before the last: `bagAfter` and `codesLeft`.  `Clean`
says when neither shows, and `no_identity_residue_iff` that nothing else can.

* `Tracks.check` -- what one check leaves on the request, and
* `tracks_checkAll` -- what any checks leave, by induction on them.
-/
import SdcoreNest.Auth.Guard

namespace SdcoreNest.Auth

open SdcoreNest.Theory

set_option autoImplicit false

variable {Principal Rest : Type}

/-! ## What earlier principals leave -/

/-- The gateway identity contradicts the principal. -/
def Conflicts (trusted : Option PartialIdentity) (verified : ResolvedContextIdentity) : Prop :=
  (trusted.any fun gateway => hasConflict gateway verified) = true

/-- The identity of a principal that is not refused. -/
def accepts (guard : Guard Principal Rest) (trusted : Option PartialIdentity) (user : Principal) :
    Option ResolvedContextIdentity :=
  (guard.verify user).filter fun verified => !trusted.any fun gateway => hasConflict gateway verified

theorem accepts_eq_some {guard : Guard Principal Rest} {trusted : Option PartialIdentity}
    {user : Principal} {verified : ResolvedContextIdentity} :
    accepts guard trusted user = some verified ↔
      guard.verify user = some verified ∧ ¬ Conflicts trusted verified := by
  simp only [accepts, Option.filter_eq_some_iff, Bool.not_eq_true', Conflicts, Bool.not_eq_true]

/-- A check whose principal was not refused. -/
structure Entered (Principal : Type) where
  check : Check Principal
  verified : ResolvedContextIdentity

/-- The checks whose principals were not refused, newest first. -/
def entered (guard : Guard Principal Rest) (trusted : Option PartialIdentity)
    (checks : List (Check Principal)) : List (Entered Principal) :=
  checks.reverse.filterMap fun check => (accepts guard trusted check.user).map (Entered.mk check)

theorem entered_cons (guard : Guard Principal Rest) (trusted : Option PartialIdentity)
    (check : Check Principal) (checks : List (Check Principal)) :
    entered guard trusted (check :: checks) = entered guard trusted checks ++
      ((accepts guard trusted check.user).map (Entered.mk check)).toList := by
  rw [entered, List.reverse_cons, List.filterMap_append]
  cases accepted : accepts guard trusted check.user <;> simp [entered, accepted]

/-- The custom bag after some principals, newest first, were entered. -/
def bagAfter (trusted : Option PartialIdentity) (bag : Option Record) :
    List (Entered Principal) → Option Record
  | [] => bag
  | newest :: older => bagWith (bagAfter trusted bag older) (mergedClaims trusted newest.verified)

/-- The value that a principal is entered with for a custom claim. -/
def claim (trusted : Option PartialIdentity) (verified : ResolvedContextIdentity) (key : JsString) :
    Option Value :=
  (mergedClaims trusted verified).bind fun custom => custom.lookup key

/-- The value that the last principal to state a custom claim states. -/
def lastClaim (trusted : Option PartialIdentity) (past : List (Entered Principal)) (key : JsString) :
    Option Value :=
  past.findSome? fun earlier => claim trusted earlier.verified key

theorem lookup_bagWith (bag claims : Option Record) (key : JsString) :
    ((bagWith bag claims).getD ∅).lookup key =
      (claims.bind fun custom => custom.lookup key).or ((bag.getD ∅).lookup key) := by
  cases claims with
  | none => rfl
  | some custom =>
      show (custom ∪ bag.getD ∅).lookup key = (custom.lookup key).or _
      by_cases states : key ∈ custom
      · obtain ⟨value, stated⟩ := Finmap.mem_iff.mp states
        rw [Finmap.lookup_union_left states, stated]
        rfl
      · rw [Finmap.lookup_union_right states, Finmap.lookup_eq_none.mpr states]
        rfl

theorem lookup_bagAfter (trusted : Option PartialIdentity) (bag : Option Record)
    (past : List (Entered Principal)) (key : JsString) :
    ((bagAfter trusted bag past).getD ∅).lookup key =
      (lastClaim trusted past key).or ((bag.getD ∅).lookup key) := by
  induction past with
  | nil => rfl
  | cons newest older ih =>
      have first : lastClaim trusted (newest :: older) key =
          (claim trusted newest.verified key).or (lastClaim trusted older key) := by
        rw [lastClaim, List.findSome?_cons]
        cases claim trusted newest.verified key <;> rfl
      rw [bagAfter, lookup_bagWith, ih, first, Option.or_assoc]
      rfl

theorem bagAfter_eq_none {trusted : Option PartialIdentity} {bag : Option Record}
    {past : List (Entered Principal)} :
    bagAfter trusted bag past = none ↔
      bag = none ∧ ∀ earlier ∈ past, mergedClaims trusted earlier.verified = none := by
  induction past with
  | nil => simp [bagAfter]
  | cons newest older ih =>
      rw [bagAfter, List.forall_mem_cons]
      cases claims : mergedClaims trusted newest.verified with
      | none => simpa [bagWith] using ih
      | some custom => simp [bagWith]

/-- Every claim that was entered last, and is not entered once more, has the value that the initial
bag gives it, and no bag was made where there would be none. -/
def ClaimsCovered (trusted : Option PartialIdentity) (bag : Option Record)
    (past : List (Entered Principal)) (last : ResolvedContextIdentity) : Prop :=
  (∀ key value, claim trusted last key = none → lastClaim trusted past key = some value →
    (bag.getD ∅).lookup key = some value) ∧
  (mergedClaims trusted last = none → bag = none →
    ∀ earlier ∈ past, mergedClaims trusted earlier.verified = none)

/-- The bag of a principal is the same with and without the earlier ones just when their claims are
covered. -/
theorem bagWith_bagAfter_iff {trusted : Option PartialIdentity} {bag : Option Record}
    {past : List (Entered Principal)} {last : ResolvedContextIdentity} :
    bagWith (bagAfter trusted bag past) (mergedClaims trusted last) =
      bagWith bag (mergedClaims trusted last) ↔ ClaimsCovered trusted bag past last := by
  have values : (bagWith (bagAfter trusted bag past) (mergedClaims trusted last)).getD ∅ =
      (bagWith bag (mergedClaims trusted last)).getD ∅ ↔
      ∀ key value, claim trusted last key = none → lastClaim trusted past key = some value →
        (bag.getD ∅).lookup key = some value := by
    constructor
    · intro same key value unclaimed entered
      have lookups := congrArg (Finmap.lookup key) same
      rw [lookup_bagWith, lookup_bagWith, lookup_bagAfter, entered] at lookups
      change (claim trusted last key).or _ = (claim trusted last key).or _ at lookups
      rw [unclaimed] at lookups
      exact lookups.symm
    · intro covered
      apply Finmap.ext_lookup
      intro key
      rw [lookup_bagWith, lookup_bagWith, lookup_bagAfter]
      change (claim trusted last key).or _ = (claim trusted last key).or _
      cases claimed : claim trusted last key with
      | some value => rfl
      | none =>
          cases entered : lastClaim trusted past key with
          | none => rfl
          | some value => exact (covered key value claimed entered).symm
  have made : (bagWith (bagAfter trusted bag past) (mergedClaims trusted last) = none ↔
      bagWith bag (mergedClaims trusted last) = none) ↔
      (mergedClaims trusted last = none → bag = none →
        ∀ earlier ∈ past, mergedClaims trusted earlier.verified = none) := by
    cases mergedClaims trusted last with
    | some custom => simp [bagWith]
    | none =>
        simp only [bagWith, bagAfter_eq_none, forall_true_left]
        exact ⟨fun same empty => (same.mpr empty).2, fun covered => ⟨And.left, fun empty => ⟨empty, covered empty⟩⟩⟩
  rw [ClaimsCovered, ← values, ← made]
  generalize bagWith (bagAfter trusted bag past) (mergedClaims trusted last) = left
  generalize bagWith bag (mergedClaims trusted last) = right
  cases left <;> cases right <;> simp

/-- The context of a principal without permissions of its own, after some others. -/
def ownContext (init : State Principal Rest) (newest : Entered Principal)
    (older : List (Entered Principal)) : Option (RequestContext Principal Rest) :=
  init.store.map fun store =>
    { store with custom := bagAfter init.trusted store.custom older }.setIdentity
      (mergeIdentity init.trusted newest.verified none) .verifiedPrincipal newest.check.user

/-- The codes that some principals, newest first, leave for a user: those that the newest states,
else those that were left to it, else those that the strategy loaded for it where its route
requires any.  A principal of another user leaves none. -/
def codesLeft (guard : Guard Principal Rest) (init : State Principal Rest) (userId : JsString) :
    List (Entered Principal) → Option (List JsString)
  | [] => none
  | newest :: older =>
      if newest.verified.userId = userId then
        ((statedPermissions init.trusted newest.verified).or (codesLeft guard init userId older)).or
          (if newest.check.required.getD [] = [] then none
          else guard.load (ownContext init newest older))
      else none

/-! ## What a check keeps -/

@[simp] theorem settle_trusted (req : RequestFields) (identity : ResolvedContextIdentity) :
    (req.settle identity).trustedRequestIdentity = req.trustedRequestIdentity := by
  unfold RequestFields.settle
  split
  · rfl
  · split <;> rfl

/-- A request after some principals, newest first, were entered. -/
structure Tracks (guard : Guard Principal Rest) (init : State Principal Rest)
    (past : List (Entered Principal)) (state : State Principal Rest) : Prop where
  trusted : state.trusted = init.trusted
  rest : state.store.map RequestContext.rest = init.store.map RequestContext.rest
  bag : state.store.map RequestContext.custom =
    init.store.map fun store => bagAfter init.trusted store.custom past
  kept : ∀ userId, state.req.keptFor userId = codesLeft guard init userId past

/-- The identity a principal gets in a state. -/
def State.identityOf (state : State Principal Rest) (verified : ResolvedContextIdentity) :
    ResolvedContextIdentity :=
  mergeIdentity state.trusted verified (state.req.keptFor verified.userId)

/-- The state in which the guard decides. -/
def State.synced (state : State Principal Rest) (user : Principal)
    (verified : ResolvedContextIdentity) : State Principal Rest where
  req := { state.req with trustedRequestIdentity := state.trusted }.settle (state.identityOf verified)
  store := state.store.map fun store =>
    store.setIdentity (state.identityOf verified) .verifiedPrincipal user

theorem sync_of_verified {guard : Guard Principal Rest} {user : Principal}
    {state : State Principal Rest} {verified : ResolvedContextIdentity}
    (mapped : guard.verify user = some verified) (calm : ¬ Conflicts state.trusted verified) :
    syncVerifiedIdentity guard user state =
      (some (state.identityOf verified), state.synced user verified) := by
  unfold syncVerifiedIdentity
  rw [mapped]
  exact if_neg calm

/-- A principal is refused, which changes nothing but the picked gateway identity, or it is
synced. -/
theorem sync_cases (guard : Guard Principal Rest) (user : Principal)
    (state : State Principal Rest) :
    (∃ trusted, syncVerifiedIdentity guard user state =
      (none, ⟨{ state.req with trustedRequestIdentity := trusted }, state.store⟩) ∧
        (trusted = state.req.trustedRequestIdentity ∨ trusted = state.trusted) ∧
        accepts guard state.trusted user = none) ∨
    ∃ verified, guard.verify user = some verified ∧ ¬ Conflicts state.trusted verified := by
  cases mapped : guard.verify user with
  | none =>
      refine .inl ⟨state.req.trustedRequestIdentity, ?_, .inl rfl, ?_⟩
      · simp [syncVerifiedIdentity, mapped]
      · simp [accepts, mapped]
  | some verified =>
      by_cases conflicts : Conflicts state.trusted verified
      · refine .inl ⟨state.trusted, ?_, .inr rfl, ?_⟩
        · unfold syncVerifiedIdentity
          rw [mapped]
          exact if_pos conflicts
        · rw [accepts, mapped, Option.filter_some, if_neg (by simpa [Conflicts] using conflicts)]
      · exact .inr ⟨verified, rfl, conflicts⟩

theorem trusted_refused {state : State Principal Rest} {trusted : Option PartialIdentity}
    (picked : trusted = state.req.trustedRequestIdentity ∨ trusted = state.trusted) :
    State.trusted ⟨{ state.req with trustedRequestIdentity := trusted }, state.store⟩ =
      state.trusted := by
  rcases picked with rfl | rfl
  · rfl
  · cases stored : state.store with
    | none => simp [State.trusted, stored]
    | some store =>
        by_cases gateway : store.identitySource = some .trustedHeaders
        · simp [State.trusted, stored, gateway]
        · simp [State.trusted, stored, gateway]

/-- The codes that a check decides by. -/
def State.codes (state : State Principal Rest) (guard : Guard Principal Rest) :
    Option (List JsString) :=
  state.req.permissions.or (guard.load state.store)

/-- The context after a check that decided by these codes. -/
def State.mirrored (state : State Principal Rest) (codes : List JsString) :
    Option (RequestContext Principal Rest) :=
  state.store.map fun store => { store with permissions := some codes }

theorem permissions_identityOf (state : State Principal Rest)
    (verified : ResolvedContextIdentity) :
    (state.identityOf verified).permissions =
      (statedPermissions state.trusted verified).or (state.req.keptFor verified.userId) := by
  simp [State.identityOf, mergeIdentity]

/-- The permissions on a request after a sync. -/
theorem permissions_synced (state : State Principal Rest) (user : Principal)
    (verified : ResolvedContextIdentity) :
    (state.synced user verified).req.permissions = (state.identityOf verified).permissions := by
  unfold State.synced RequestFields.settle
  simp only
  split
  · rename_i permissions stated
    exact stated.symm
  · rename_i unstated
    split
    · exact unstated.symm
    · rename_i kept
      have resolved : state.req.resolvedPermissionsFor = some verified.userId := not_not.mp kept
      have both := unstated
      rw [permissions_identityOf, Option.or_eq_none_iff, RequestFields.keptFor,
        if_pos resolved] at both
      rw [unstated]
      exact both.2

/-- Permissions on a request after a sync are those of the user. -/
theorem resolved_of_held {state : State Principal Rest} {user : Principal}
    {verified : ResolvedContextIdentity} {codes : List JsString}
    (held : (state.synced user verified).req.permissions = some codes) :
    (state.synced user verified).req.resolvedPermissionsFor = some verified.userId := by
  have identity : (state.identityOf verified).permissions = some codes :=
    (permissions_synced state user verified).symm.trans held
  unfold State.synced RequestFields.settle
  simp only [identity]
  rfl

/-- What a sync keeps for a user. -/
theorem keptFor_synced (state : State Principal Rest) (user : Principal)
    (verified : ResolvedContextIdentity) (userId : JsString) :
    (state.synced user verified).req.keptFor userId =
      if verified.userId = userId then (state.identityOf verified).permissions else none := by
  rw [← permissions_synced state user]
  cases held : (state.synced user verified).req.permissions with
  | none => simp [RequestFields.keptFor, held]
  | some codes => simp [RequestFields.keptFor, held, resolved_of_held held]

section Ended

variable {guard : Guard Principal Rest} {check : Check Principal} {state : State Principal Rest}
  {verified : ResolvedContextIdentity}

theorem check_of_unrestricted (mapped : guard.verify check.user = some verified)
    (calm : ¬ Conflicts state.trusted verified) (nothing : check.required.getD [] = []) :
    checkPermissions guard check state = (.unrestricted, state.synced check.user verified) := by
  unfold checkPermissions
  rw [sync_of_verified mapped calm]
  simp only [nothing]

theorem check_of_loadFailed (mapped : guard.verify check.user = some verified)
    (calm : ¬ Conflicts state.trusted verified) (needed : check.required.getD [] ≠ [])
    (failed : (state.synced check.user verified).codes guard = none) :
    checkPermissions guard check state = (.loadFailed, state.synced check.user verified) := by
  unfold checkPermissions
  rw [sync_of_verified mapped calm]
  obtain ⟨unheld, unloaded⟩ := Option.or_eq_none_iff.mp failed
  obtain ⟨code, codes, shape⟩ := List.exists_cons_of_ne_nil needed
  simp only [shape, unheld, unloaded]

theorem check_of_codes (mapped : guard.verify check.user = some verified)
    (calm : ¬ Conflicts state.trusted verified) (needed : check.required.getD [] ≠ [])
    {codes : List JsString}
    (found : (state.synced check.user verified).codes guard = some codes) :
    ∃ req : RequestFields, req.permissions = some codes ∧
      req.resolvedPermissionsFor = some verified.userId ∧ req.trustedRequestIdentity = state.trusted ∧
      checkPermissions guard check state =
        (.decided codes (guard.allows codes (check.required.getD [])),
          ⟨req, (state.synced check.user verified).mirrored codes⟩) := by
  have trusted : (state.synced check.user verified).req.trustedRequestIdentity =
      state.trusted := settle_trusted _ _
  unfold checkPermissions
  rw [sync_of_verified mapped calm]
  obtain ⟨code, codes', shape⟩ := List.exists_cons_of_ne_nil needed
  simp only [shape]
  unfold State.codes at found
  cases held : (state.synced check.user verified).req.permissions with
  | some permissions =>
      rw [held] at found
      cases found
      exact ⟨_, held, resolved_of_held held, trusted, rfl⟩
  | none =>
      rw [held] at found
      have loaded : guard.load (state.synced check.user verified).store = some codes := found
      simp only [loaded]
      exact ⟨{ (state.synced check.user verified).req with
        permissions := some codes
        resolvedPermissionsFor := some verified.userId }, rfl, rfl, trusted, rfl⟩

end Ended

section Runs

variable {guard : Guard Principal Rest} {init state : State Principal Rest}
  {past : List (Entered Principal)}

/-- Either both contexts are there, or neither. -/
theorem Tracks.stores (tracks : Tracks guard init past state) :
    (state.store = none ∧ init.store = none) ∨
      ∃ store store₀, state.store = some store ∧ init.store = some store₀ ∧
        store.rest = store₀.rest ∧ store.custom = bagAfter init.trusted store₀.custom past := by
  have rest := tracks.rest
  have bag := tracks.bag
  cases stored : state.store with
  | none =>
      cases stored₀ : init.store with
      | none => exact .inl ⟨rfl, rfl⟩
      | some store₀ => simp [stored, stored₀] at rest
  | some store =>
      cases stored₀ : init.store with
      | none => simp [stored, stored₀] at rest
      | some store₀ =>
          refine .inr ⟨store, store₀, rfl, rfl, ?_, ?_⟩
          · simpa [stored, stored₀] using rest
          · simpa [stored, stored₀] using bag

/-- The permissions of a principal that is entered. -/
theorem Tracks.permissions_synced (tracks : Tracks guard init past state) (user : Principal)
    (verified : ResolvedContextIdentity) :
    (state.synced user verified).req.permissions =
      (statedPermissions init.trusted verified).or (codesLeft guard init verified.userId past) := by
  rw [Auth.permissions_synced, permissions_identityOf, tracks.trusted, tracks.kept]

/-- The strategy loads codes for the principal's own context. -/
theorem Tracks.synced_store (tracks : Tracks guard init past state) {check : Check Principal}
    {verified : ResolvedContextIdentity}
    (unheld : (state.synced check.user verified).req.permissions = none) :
    (state.synced check.user verified).store = ownContext init ⟨check, verified⟩ past := by
  have nothing := unheld
  rw [tracks.permissions_synced, ← tracks.kept, Option.or_eq_none_iff] at nothing
  have same : state.identityOf verified = mergeIdentity init.trusted verified none := by
    rw [State.identityOf, tracks.trusted, nothing.2]
  rcases tracks.stores with ⟨stored, stored₀⟩ | ⟨store, store₀, stored, stored₀, rest, bag⟩
  · simp [State.synced, ownContext, stored, stored₀]
  · simp [State.synced, ownContext, stored, stored₀, same, rest, bag, RequestContext.setIdentity]

/-- What a check leaves, up to the permissions. -/
theorem Tracks.of_kept (tracks : Tracks guard init past state) {check : Check Principal}
    {verified : ResolvedContextIdentity} {req : RequestFields}
    {patch : RequestContext Principal Rest → RequestContext Principal Rest}
    (identitySource : ∀ store, (patch store).identitySource = store.identitySource)
    (restKept : ∀ store, (patch store).rest = store.rest)
    (customKept : ∀ store, (patch store).custom = store.custom)
    (gateway : req.trustedRequestIdentity = state.trusted)
    (kept : ∀ userId, req.keptFor userId = codesLeft guard init userId (⟨check, verified⟩ :: past)) :
    Tracks guard init (⟨check, verified⟩ :: past)
      ⟨req, (state.synced check.user verified).store.map patch⟩ := by
  refine ⟨?_, ?_, ?_, kept⟩
  · rw [← tracks.trusted]
    cases stored : state.store with
    | none => simp [State.trusted, State.synced, stored, gateway]
    | some store =>
        simp [State.trusted, State.synced, stored, gateway, identitySource, RequestContext.setIdentity]
  · rw [← tracks.rest]
    cases stored : state.store with
    | none => simp [State.synced, stored]
    | some store => simp [State.synced, stored, restKept, RequestContext.setIdentity]
  · rcases tracks.stores with ⟨stored, stored₀⟩ | ⟨store, store₀, stored, stored₀, -, bag⟩
    · simp [State.synced, stored, stored₀]
    · simp [State.synced, stored, stored₀, customKept, bag, bagAfter, RequestContext.setIdentity,
        State.identityOf, mergeIdentity, tracks.trusted]

/-- A check whose principal is refused leaves what was there, and one whose principal is entered
leaves what the principals entered so far leave. -/
theorem Tracks.check (tracks : Tracks guard init past state) (check : Check Principal) :
    Tracks guard init
      (((accepts guard init.trusted check.user).map (Entered.mk check)).toList ++ past)
      (checkPermissions guard check state).2 := by
  rcases sync_cases guard check.user state with ⟨trusted, refused, picked, none_⟩ |
    ⟨verified, mapped, calm⟩
  · have outcome : (checkPermissions guard check state).2 =
        ⟨{ state.req with trustedRequestIdentity := trusted }, state.store⟩ := by
      unfold checkPermissions
      rw [refused]
    rw [tracks.trusted] at none_
    rw [outcome, none_]
    exact ⟨(trusted_refused picked).trans tracks.trusted, tracks.rest, tracks.bag, tracks.kept⟩
  · have isEntered : accepts guard init.trusted check.user = some verified :=
      accepts_eq_some.mpr ⟨mapped, tracks.trusted ▸ calm⟩
    rw [isEntered]
    show Tracks guard init (⟨check, verified⟩ :: past) _
    have held := tracks.permissions_synced check.user verified
    have unpatched := @Tracks.of_kept _ _ guard init state past tracks check verified
      (state.synced check.user verified).req id (fun _ => rfl) (fun _ => rfl) (fun _ => rfl)
      (settle_trusted _ _)
    rw [Option.map_id_fun, id] at unpatched
    by_cases nothing : check.required.getD [] = []
    · rw [check_of_unrestricted mapped calm nothing]
      refine unpatched fun userId => ?_
      rw [keptFor_synced, ← Auth.permissions_synced state check.user, held, codesLeft, if_pos nothing,
        Option.or_none]
      by_cases same : verified.userId = userId
      · rw [if_pos same, if_pos same, same]
      · rw [if_neg same, if_neg same]
    · cases found : (state.synced check.user verified).codes guard with
      | none =>
          rw [check_of_loadFailed mapped calm nothing found]
          obtain ⟨unheld, unloaded⟩ := Option.or_eq_none_iff.mp found
          refine unpatched fun userId => ?_
          rw [tracks.synced_store unheld] at unloaded
          rw [keptFor_synced, ← Auth.permissions_synced state check.user, codesLeft, if_neg nothing,
            unloaded, Option.or_none]
          by_cases same : verified.userId = userId
          · rw [if_pos same, if_pos same, ← same, held]
          · rw [if_neg same, if_neg same]
      | some codes =>
          obtain ⟨req, isHeld, isResolved, kept, ended⟩ := check_of_codes mapped calm nothing found
          rw [ended]
          refine tracks.of_kept (fun _ => rfl) (fun _ => rfl) (fun _ => rfl) kept fun userId => ?_
          rw [RequestFields.keptFor, isHeld, isResolved, codesLeft]
          by_cases same : verified.userId = userId
          · rw [if_pos (congrArg some same), if_pos same, if_neg nothing, ← same, ← held, ← found,
              State.codes]
            cases unheld : (state.synced check.user verified).req.permissions with
            | some permissions => rfl
            | none => rw [tracks.synced_store unheld]
          · rw [if_neg (by simpa using same), if_neg same]

theorem tracks_checkAll (guard : Guard Principal Rest) (permissions : Option (List JsString))
    (store : Option (RequestContext Principal Rest)) (checks : List (Check Principal)) :
    Tracks guard (State.fresh permissions store)
      (entered guard (State.fresh permissions store).trusted checks)
      (checkAll guard (State.fresh permissions store) checks) := by
  suffices onward : ∀ past state, Tracks guard (State.fresh permissions store) past state →
      Tracks guard (State.fresh permissions store)
        (entered guard (State.fresh permissions store).trusted checks ++ past)
        (checkAll guard state checks) by
    have whole := onward [] _ ⟨rfl, rfl, rfl, fun _ => rfl⟩
    rwa [List.append_nil] at whole
  induction checks with
  | nil => exact fun past state tracks => tracks
  | cons check checks ih =>
      intro past state tracks
      have onward := ih _ _ (tracks.check check)
      rw [← List.append_assoc, ← entered_cons] at onward
      exact onward

end Runs

/-! ## The last check -/

/-- Two checks came to the same decision by the same codes, and left the same identity in the
context. -/
def SameIdentity (first second : Outcome × State Principal Rest) : Prop :=
  first.1 = second.1 ∧
    first.2.store.map RequestContext.pickIdentity = second.2.store.map RequestContext.pickIdentity

/-- Nothing of the principals entered before shows in the check of the last one. -/
structure Clean (guard : Guard Principal Rest) (init : State Principal Rest)
    (past : List (Entered Principal)) (last : Entered Principal) : Prop where
  claims : ∀ store, init.store = some store →
    ClaimsCovered init.trusted store.custom past last.verified
  /-- Codes are left for the user, and neither the principal nor the gateway states any: they are
  the codes that the strategy loads for this principal, or nobody asks. -/
  permissions : statedPermissions init.trusted last.verified = none →
    ∀ codes, codesLeft guard init last.verified.userId past = some codes →
      (last.check.required.getD [] = [] ∧ init.store = none) ∨
      (last.check.required.getD [] ≠ [] ∧ guard.load (ownContext init last []) = some codes)

section LastCheck

variable {guard : Guard Principal Rest} {init state : State Principal Rest}
  {past : List (Entered Principal)} {check : Check Principal} {verified : ResolvedContextIdentity}

/-- The custom bags come out alike. -/
def SameCustom (init state : State Principal Rest) (verified : ResolvedContextIdentity) : Prop :=
  state.store.map (fun store => bagWith store.custom (mergedClaims init.trusted verified)) =
    init.store.map fun store => bagWith store.custom (mergedClaims init.trusted verified)

/-- The bags are alike just when the claims of the principals entered before are covered. -/
theorem Tracks.sameCustom_iff (tracks : Tracks guard init past state) :
    SameCustom init state verified ↔
      ∀ store, init.store = some store → ClaimsCovered init.trusted store.custom past verified := by
  rcases tracks.stores with ⟨stored, stored₀⟩ | ⟨store, store₀, stored, stored₀, -, bag⟩
  · simp [SameCustom, stored, stored₀]
  · simp [SameCustom, stored, stored₀, bag, bagWith_bagAfter_iff]

/-- After a decision by the same codes, the identities are the same if the bags are. -/
theorem Tracks.pick_mirrored_iff (tracks : Tracks guard init past state) (user : Principal)
    (codes : List JsString) :
    ((state.synced user verified).mirrored codes).map RequestContext.pickIdentity =
      ((init.synced user verified).mirrored codes).map RequestContext.pickIdentity ↔
    SameCustom init state verified := by
  rcases tracks.stores with ⟨stored, stored₀⟩ | ⟨store, store₀, stored, stored₀, -, -⟩
  · simp [State.mirrored, State.synced, SameCustom, stored, stored₀]
  · simp [State.mirrored, State.synced, SameCustom, stored, stored₀,
      RequestContext.pickIdentity, RequestContext.setIdentity, State.identityOf, mergeIdentity,
      tracks.trusted]

/-- Where the identities agree, the contexts agree if the bags do. -/
theorem Tracks.synced_store_iff (tracks : Tracks guard init past state) (user : Principal)
    (same : state.identityOf verified = init.identityOf verified) :
    ((state.synced user verified).store.map RequestContext.pickIdentity =
      (init.synced user verified).store.map RequestContext.pickIdentity ↔
        SameCustom init state verified) ∧
    (SameCustom init state verified →
      (state.synced user verified).store = (init.synced user verified).store) := by
  rcases tracks.stores with ⟨stored, stored₀⟩ | ⟨store, store₀, stored, stored₀, rest, -⟩
  · simp [State.synced, SameCustom, stored, stored₀]
  · have claims : (init.identityOf verified).custom = mergedClaims init.trusted verified := rfl
    simp [State.synced, SameCustom, stored, stored₀, same, rest, claims,
      RequestContext.pickIdentity, RequestContext.setIdentity]

theorem Tracks.identityOf_eq (tracks : Tracks guard init past state)
    (same : (state.identityOf verified).permissions = (init.identityOf verified).permissions) :
    state.identityOf verified = init.identityOf verified := by
  unfold State.identityOf mergeIdentity at *
  simp only [tracks.trusted] at same ⊢
  rw [same]

/-- Nothing is kept for the principal: the check goes as on a fresh request, up to the bag. -/
theorem Tracks.same_iff_custom (tracks : Tracks guard init past state)
    (mapped : guard.verify check.user = some verified)
    (calm : ¬ Conflicts init.trusted verified)
    (same : state.identityOf verified = init.identityOf verified)
    (completed : (checkPermissions guard check state).1.completed = true) :
    SameIdentity (checkPermissions guard check state) (checkPermissions guard check init) ↔
      SameCustom init state verified := by
  have calm' : ¬ Conflicts state.trusted verified := tracks.trusted ▸ calm
  obtain ⟨picks, equal⟩ := tracks.synced_store_iff check.user same
  by_cases nothing : check.required.getD [] = []
  · rw [check_of_unrestricted mapped calm' nothing, check_of_unrestricted mapped calm nothing]
    exact (and_iff_right rfl).trans picks
  · have held : (state.synced check.user verified).req.permissions =
        (init.synced check.user verified).req.permissions := by
      rw [Auth.permissions_synced, Auth.permissions_synced, same]
    cases found : (state.synced check.user verified).codes guard with
    | none =>
        rw [check_of_loadFailed mapped calm' nothing found] at completed
        cases completed
    | some codes =>
        obtain ⟨req, -, -, -, ended⟩ := check_of_codes mapped calm' nothing found
        constructor
        · intro both
          cases found₀ : (init.synced check.user verified).codes guard with
          | none =>
              rw [ended, check_of_loadFailed mapped calm nothing found₀] at both
              cases both.1
          | some codes₀ =>
              obtain ⟨req₀, -, -, -, ended₀⟩ := check_of_codes mapped calm nothing found₀
              rw [ended, ended₀] at both
              obtain ⟨outcome, picked⟩ := both
              cases outcome
              exact (tracks.pick_mirrored_iff check.user codes).mp picked
        · intro custom
          have found₀ : (init.synced check.user verified).codes guard = some codes := by
            rw [← found, State.codes, State.codes, held, equal custom]
          obtain ⟨req₀, -, -, -, ended₀⟩ := check_of_codes mapped calm nothing found₀
          rw [ended, ended₀]
          exact ⟨rfl, (tracks.pick_mirrored_iff check.user codes).mpr custom⟩

/-- Codes are kept for the same user. -/
theorem Tracks.same_iff_kept (tracks : Tracks guard init past state)
    (mapped : guard.verify check.user = some verified)
    (calm : ¬ Conflicts init.trusted verified)
    (unstated : statedPermissions init.trusted verified = none)
    (fresh : init.req.keptFor verified.userId = none) {kept : List JsString}
    (keeps : state.req.keptFor verified.userId = some kept) :
    SameIdentity (checkPermissions guard check state) (checkPermissions guard check init) ↔
      SameCustom init state verified ∧
        ((check.required.getD [] = [] ∧ init.store = none) ∨
          (check.required.getD [] ≠ [] ∧
            some kept = guard.load (init.synced check.user verified).store)) := by
  have calm' : ¬ Conflicts state.trusted verified := tracks.trusted ▸ calm
  have held : (state.synced check.user verified).req.permissions = some kept := by
    rw [Auth.permissions_synced, permissions_identityOf, tracks.trusted, unstated, keeps]
    rfl
  have held₀ : (init.synced check.user verified).req.permissions = none := by
    rw [Auth.permissions_synced, permissions_identityOf, unstated, fresh]
    rfl
  by_cases nothing : check.required.getD [] = []
  · rw [check_of_unrestricted mapped calm' nothing, check_of_unrestricted mapped calm nothing]
    simp only [nothing, true_and, ne_eq, not_true_eq_false, false_and, or_false]
    rcases tracks.stores with ⟨stored, stored₀⟩ | ⟨store, store₀, stored, stored₀, -, -⟩
    · simp [SameIdentity, SameCustom, State.synced, stored, stored₀]
    · have differ : (state.identityOf verified).permissions ≠
          (init.identityOf verified).permissions := by
        rw [← Auth.permissions_synced state check.user, ← Auth.permissions_synced init check.user, held,
          held₀]
        simp
      simp [SameIdentity, State.synced, stored, stored₀, RequestContext.pickIdentity,
        RequestContext.setIdentity, differ]
  · have found : (state.synced check.user verified).codes guard = some kept := by
      rw [State.codes, held]
      rfl
    have found₀ : (init.synced check.user verified).codes guard =
        guard.load (init.synced check.user verified).store := by
      rw [State.codes, held₀]
      rfl
    obtain ⟨req, -, -, -, ended⟩ := check_of_codes mapped calm' nothing found
    simp only [nothing, false_and, false_or, ne_eq, not_false_eq_true, true_and]
    cases loaded : guard.load (init.synced check.user verified).store with
    | none =>
        rw [ended, check_of_loadFailed mapped calm nothing (found₀.trans loaded)]
        simp [SameIdentity]
    | some codes =>
        obtain ⟨req₀, -, -, -, ended₀⟩ := check_of_codes mapped calm nothing (found₀.trans loaded)
        rw [ended, ended₀]
        constructor
        · rintro ⟨outcome, picked⟩
          cases outcome
          exact ⟨(tracks.pick_mirrored_iff check.user kept).mp picked, rfl⟩
        · rintro ⟨custom, same⟩
          cases same
          exact ⟨rfl, (tracks.pick_mirrored_iff check.user kept).mpr custom⟩

end LastCheck

/-- **Identity residue**: after any checks on a request, a check that comes to a decision
equals the same check on a fresh request exactly if nothing of the principals that were entered
before shows. -/
theorem no_identity_residue_iff (guard : Guard Principal Rest)
    (permissions : Option (List JsString)) (store : Option (RequestContext Principal Rest))
    (checks : List (Check Principal)) (last : Check Principal)
    (completed : (checkPermissions guard last
      (checkAll guard (State.fresh permissions store) checks)).1.completed = true) :
    SameIdentity
      (checkPermissions guard last (checkAll guard (State.fresh permissions store) checks))
      (checkPermissions guard last (State.fresh permissions store)) ↔
    ∃ verified, guard.verify last.user = some verified ∧
      Clean guard (State.fresh permissions store)
        (entered guard (State.fresh permissions store).trusted checks) ⟨last, verified⟩ := by
  have tracks := tracks_checkAll guard permissions store checks
  generalize checkAll guard (State.fresh permissions store) checks = state at *
  generalize entered guard (State.fresh permissions store).trusted checks = past at *
  have fresh : ∀ userId, (State.fresh permissions store).req.keptFor userId = none :=
    fun _ => rfl
  generalize State.fresh permissions store = init at *
  rcases sync_cases guard last.user state with ⟨trusted, refused, -⟩ | ⟨verified, mapped, calm⟩
  · unfold checkPermissions at completed
    rw [refused] at completed
    cases completed
  · rw [tracks.trusted] at calm
    have unique : (∃ verified, guard.verify last.user = some verified ∧
        Clean guard init past ⟨last, verified⟩) ↔ Clean guard init past ⟨last, verified⟩ := by
      simp [mapped]
    rw [unique]
    have kept := permissions_identityOf state verified
    have kept₀ := permissions_identityOf init verified
    rw [tracks.trusted, tracks.kept] at kept
    rw [fresh] at kept₀
    cases stated : statedPermissions init.trusted verified with
    | some codes =>
        rw [stated] at kept kept₀
        have same := tracks.identityOf_eq (kept.trans kept₀.symm)
        refine (tracks.same_iff_custom mapped calm same completed).trans
          (tracks.sameCustom_iff.trans ⟨fun claims => ⟨claims, fun unstated => ?_⟩, Clean.claims⟩)
        rw [stated] at unstated
        cases unstated
    | none =>
        rw [stated] at kept kept₀
        cases left : codesLeft guard init verified.userId past with
        | none =>
            rw [left] at kept
            have same := tracks.identityOf_eq (kept.trans kept₀.symm)
            refine (tracks.same_iff_custom mapped calm same completed).trans
              (tracks.sameCustom_iff.trans ⟨fun claims => ⟨claims, fun _ codes isLeft => ?_⟩, Clean.claims⟩)
            rw [left] at isLeft
            cases isLeft
        | some codes =>
            -- the strategy would be asked in the principal's own context
            have own : (init.synced last.user verified).store = ownContext init ⟨last, verified⟩ [] := by
              rw [State.synced, ownContext, State.identityOf, fresh]
              rfl
            have keeps := (tracks.kept verified.userId).trans left
            refine (tracks.same_iff_kept mapped calm stated (fresh _) keeps).trans ?_
            rw [own, tracks.sameCustom_iff]
            constructor
            · rintro ⟨claims, codesAgree⟩
              refine ⟨claims, fun _ codes' isLeft => ?_⟩
              rw [left] at isLeft
              cases isLeft
              exact codesAgree.imp id fun both => ⟨both.1, both.2.symm⟩
            · intro clean
              exact ⟨clean.claims, (clean.permissions stated codes left).imp id
                fun both => ⟨both.1, both.2.symm⟩⟩

/-! ## Residue, and none -/

/-- Principals are given as verified; the strategy grants the tenant's own code. -/
def tenantGuard : Guard ResolvedContextIdentity Unit where
  verify := some
  load context := (context.bind RequestContext.tenant).map fun tenant => [tenant]

/-- One user, first in tenant `a`, then in tenant `b`. -/
def inTenantA : Check ResolvedContextIdentity :=
  ⟨{ userId := JsString.js "u", tenant := some (JsString.js "a") }, some [JsString.js "a"]⟩

def inTenantB : Check ResolvedContextIdentity :=
  ⟨{ userId := JsString.js "u", tenant := some (JsString.js "b") }, some [JsString.js "a"]⟩

/-- A request without identity headers. -/
def emptyRequest : State ResolvedContextIdentity Unit := State.fresh none (some { rest := () })

/-- In tenant `b` the user is admitted by the code of tenant `a`; on a fresh request not. -/
theorem tenant_permissions_survive :
    (checkPermissions tenantGuard inTenantB (checkAll tenantGuard emptyRequest [inTenantA])).1 =
        .decided [JsString.js "a"] true ∧
      (checkPermissions tenantGuard inTenantB emptyRequest).1 =
        .decided [JsString.js "b"] false := by
  decide +kernel

/-- Another user after the first: nothing is left behind. -/
def otherUser : Check ResolvedContextIdentity :=
  ⟨{ userId := JsString.js "v", tenant := some (JsString.js "b") }, some [JsString.js "b"]⟩

theorem no_identity_residue_iff_other_user :
    SameIdentity
      (checkPermissions tenantGuard otherUser (checkAll tenantGuard emptyRequest [inTenantA]))
      (checkPermissions tenantGuard otherUser emptyRequest) := by
  have left : codesLeft tenantGuard emptyRequest (JsString.js "v")
      (entered tenantGuard emptyRequest.trusted [inTenantA]) = none := by
    decide +kernel
  refine (no_identity_residue_iff tenantGuard none (some { rest := () }) [inTenantA] otherUser
    (by decide +kernel)).mpr ⟨otherUser.user, rfl, ?_, fun _ codes isLeft => ?_⟩
  · rintro store stored
    cases stored
    refine ⟨fun key value _ stated => ?_, fun _ _ earlier inside => ?_⟩
    · cases stated
    · obtain rfl := List.mem_singleton.mp inside
      rfl
  · exact absurd (left.symm.trans isLeft) (Option.some_ne_none codes).symm

end SdcoreNest.Auth
