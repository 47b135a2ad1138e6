/-
# Auth.Guard -- `AuthGuard.checkPermissions` on one request

The identity of a request lives in three places: fields of the request object, two hidden
symbols on it, and the request context.  `State` holds all of them, and a check is a function
on states.  Principals are given as the guard verifies them: the configured resolver, then the
normalization of what it returns.
-/
import SdcoreNest.Auth.Identity

namespace SdcoreNest.Auth

open SdcoreNest.Theory

set_option autoImplicit false

inductive IdentityContextSource where
  | trustedHeaders
  | verifiedPrincipal
deriving DecidableEq

/-- The request context; `rest` are the fields that no identity update touches. -/
structure RequestContext (Principal Rest : Type) where
  userId : Option JsString := none
  tenant : Option JsString := none
  roles : Option (List JsString) := none
  permissions : Option (List JsString) := none
  permissionVersion : Option JsString := none
  identitySource : Option IdentityContextSource := none
  user : Option Principal := none
  custom : Option Record := none
  rest : Rest

/-- The fields of the request object that the guard keeps. -/
structure RequestFields where
  permissions : Option (List JsString)
  resolvedPermissionsFor : Option JsString
  trustedRequestIdentity : Option PartialIdentity

structure State (Principal Rest : Type) where
  req : RequestFields
  store : Option (RequestContext Principal Rest)

/-- A new request: the symbols are not set, whatever the caller put into `permissions`. -/
def State.fresh {Principal Rest : Type} (permissions : Option (List JsString))
    (store : Option (RequestContext Principal Rest)) : State Principal Rest :=
  ⟨⟨permissions, none, none⟩, store⟩

/-- What the guard is configured with.  `verify` maps and normalizes a principal, and `load`
loads permission codes for a context (for an empty one outside any); `none`: it threw. -/
structure Guard (Principal Rest : Type) where
  verify : Principal → Option ResolvedContextIdentity
  load : Option (RequestContext Principal Rest) → Option (List JsString)
  check : Option (List JsString → JsString → Bool) := none

/-- One check: the principal that was authenticated, and what the route requires. -/
structure Check (Principal : Type) where
  user : Principal
  required : Option (List JsString) := none

/-- How a check ends. -/
inductive Outcome where
  | unauthorized
  | loadFailed
  | unrestricted
  | decided (codes : List JsString) (allowed : Bool)
deriving DecidableEq

/-- The check came to a decision. -/
def Outcome.completed : Outcome → Bool
  | .unrestricted | .decided _ _ => true
  | .unauthorized | .loadFailed => false

section Guard

variable {Principal Rest : Type}

namespace RequestContext

def setIdentity (store : RequestContext Principal Rest) (identity : ResolvedContextIdentity)
    (source : IdentityContextSource) (user : Principal) : RequestContext Principal Rest :=
  { store with
    userId := some identity.userId
    tenant := identity.tenant
    roles := identity.roles
    permissions := identity.permissions
    permissionVersion := identity.permissionVersion
    identitySource := some source
    user := some user
    custom := bagWith store.custom identity.custom }

def pickIdentity (store : RequestContext Principal Rest) : PartialIdentity where
  userId := store.userId
  tenant := store.tenant
  roles := store.roles
  permissions := store.permissions
  permissionVersion := store.permissionVersion
  custom := store.custom

end RequestContext

/-- The gateway identity, picked while the context still comes from trusted headers. -/
def State.trusted (state : State Principal Rest) : Option PartialIdentity :=
  match state.store with
  | some store =>
      if store.identitySource = some .trustedHeaders then some store.pickIdentity
      else state.req.trustedRequestIdentity
  | none => state.req.trustedRequestIdentity

/-- The permissions that the principal or the gateway states. -/
def statedPermissions (trusted : Option PartialIdentity) (verified : ResolvedContextIdentity) :
    Option (List JsString) :=
  verified.permissions <|> trusted.bind PartialIdentity.permissions

/-- The custom claims of the gateway, with those of the principal on top. -/
def mergedClaims (trusted : Option PartialIdentity) (verified : ResolvedContextIdentity) : Option Record :=
  match trusted.bind PartialIdentity.custom, verified.custom with
  | none, none => none
  | left, right => some ((left.getD ∅).spread (right.getD ∅))

/-- The identity that a principal gets beside a gateway identity and the permissions kept. -/
def mergeIdentity (trusted : Option PartialIdentity) (verified : ResolvedContextIdentity)
    (kept : Option (List JsString)) : ResolvedContextIdentity where
  userId := verified.userId
  tenant := verified.tenant <|> trusted.bind PartialIdentity.tenant
  roles := verified.roles <|> trusted.bind PartialIdentity.roles
  permissions := statedPermissions trusted verified <|> kept
  permissionVersion := verified.permissionVersion <|> trusted.bind PartialIdentity.permissionVersion
  custom := mergedClaims trusted verified

/-- The permissions on the request, if they were resolved for this user. -/
def RequestFields.keptFor (req : RequestFields) (userId : JsString) : Option (List JsString) :=
  if req.resolvedPermissionsFor = some userId then req.permissions else none

/-- The permissions on the request after the identity is set. -/
def RequestFields.settle (req : RequestFields) (identity : ResolvedContextIdentity) : RequestFields :=
  match identity.permissions with
  | some permissions =>
      { req with permissions := some permissions, resolvedPermissionsFor := some identity.userId }
  | none =>
      if req.resolvedPermissionsFor ≠ some identity.userId then
        { req with permissions := none, resolvedPermissionsFor := none }
      else req

/-- `none`: the principal is refused. -/
def syncVerifiedIdentity (guard : Guard Principal Rest) (user : Principal)
    (state : State Principal Rest) : Option ResolvedContextIdentity × State Principal Rest :=
  match guard.verify user with
  | none => (none, state)
  | some verified =>
      let trusted := state.trusted
      let req := { state.req with trustedRequestIdentity := trusted }
      if trusted.any fun gateway => hasConflict gateway verified then (none, ⟨req, state.store⟩)
      else
        let identity := mergeIdentity trusted verified (req.keptFor verified.userId)
        (some identity, ⟨req.settle identity,
          state.store.map fun store => store.setIdentity identity .verifiedPrincipal user⟩)

/-- Some required code is granted. -/
def Guard.allows (guard : Guard Principal Rest) (codes required : List JsString) : Bool :=
  required.any fun code => (guard.check.getD fun codes code => codes.contains code) codes code

def checkPermissions (guard : Guard Principal Rest) (check : Check Principal)
    (state : State Principal Rest) : Outcome × State Principal Rest :=
  match syncVerifiedIdentity guard check.user state with
  | (none, state) => (.unauthorized, state)
  | (some identity, state) =>
      match check.required.getD [] with
      | [] => (.unrestricted, state)
      | code :: codes =>
          let decide (permissions : List JsString) (req : RequestFields) :=
            (Outcome.decided permissions (guard.allows permissions (code :: codes)),
              (⟨req, state.store.map fun store => { store with permissions := some permissions }⟩ :
                State Principal Rest))
          match state.req.permissions with
          | some permissions => decide permissions state.req
          | none =>
              match guard.load state.store with
              | none => (.loadFailed, state)
              | some permissions => decide permissions
                  { state.req with
                    permissions := some permissions
                    resolvedPermissionsFor := some identity.userId }

/-- The state after a sequence of checks, however each of them ended. -/
def checkAll (guard : Guard Principal Rest) (state : State Principal Rest)
    (checks : List (Check Principal)) : State Principal Rest :=
  checks.foldl (fun state check => (checkPermissions guard check state).2) state

end Guard

end SdcoreNest.Auth
