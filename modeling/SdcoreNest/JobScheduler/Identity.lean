/-
# JobScheduler.Identity -- lock keys tell jobs apart

The lock key is a hash of the JSON text of type, code and run key.  `JSON.stringify` escapes a lone
surrogate, so the bytes that are hashed tell the text, and the text tells its parts: two accepted calls
have one lock key just when type, trimmed code and trimmed run key agree (`lockKey_eq_iff`).
-/
import SdcoreNest.JobScheduler.Types
import SdcoreNest.Theory.Program
import SdcoreNest.Theory.Utf8

namespace SdcoreNest.JobScheduler

open SdcoreNest.Theory SdcoreNest.Theory.JsString

set_option autoImplicit false

/-! ## Quoted text is well formed -/

theorem scalar_hexDigit : ∀ n : Fin 16, isScalar (hexDigit n) := by
  unfold isScalar
  decide

theorem wellFormed_pair {v : UInt16} (scalar : isScalar v) : WellFormed [0x5C, v] :=
  wellFormed_of_scalars (List.forall_mem_cons.mpr ⟨⟨rfl, rfl⟩, List.forall_mem_singleton.mpr scalar⟩)

theorem wellFormed_unicodeEscape (u : UInt16) : WellFormed (unicodeEscape u) := by
  have bound := u.toNat_lt
  refine wellFormed_of_scalars fun v inside => ?_
  simp only [unicodeEscape, List.mem_cons, List.not_mem_nil, or_false] at inside
  rcases inside with rfl | rfl | rfl | rfl | rfl | rfl
  · exact ⟨rfl, rfl⟩
  · exact ⟨rfl, rfl⟩
  · exact scalar_hexDigit ⟨u.toNat / 0x1000, by omega⟩
  · exact scalar_hexDigit ⟨u.toNat / 0x100 % 0x10, by omega⟩
  · exact scalar_hexDigit ⟨u.toNat / 0x10 % 0x10, by omega⟩
  · exact scalar_hexDigit ⟨u.toNat % 0x10, by omega⟩

theorem wellFormed_escapeUnit (u : UInt16) : WellFormed (escapeUnit u) := by
  unfold escapeUnit
  -- the seven short escapes
  iterate 7
    split
    next => exact wellFormed_pair ⟨rfl, rfl⟩
  split
  next => exact wellFormed_unicodeEscape u
  next plain =>
    refine wellFormed_of_scalars fun v inside => ?_
    rw [List.mem_singleton] at inside
    subst inside
    simp only [not_or, Bool.not_eq_true] at plain
    exact plain.2

theorem wellFormed_escape (s : JsString) : WellFormed (escape s) := by
  induction s using escape.induct with
  | case1 => exact wellFormed_nil
  | case2 u => exact wellFormed_escapeUnit u
  | case3 u v rest pair ih =>
      obtain ⟨leading, trailing⟩ := Bool.and_eq_true_iff.mp pair
      obtain ⟨c, units, -⟩ := units_pair leading trailing
      have first : WellFormed [u, v] := ⟨[c], by simp [Text.units, units]⟩
      rw [escape, if_pos pair]
      exact first.append ih
  | case4 u v rest single ih =>
      rw [escape, if_neg single]
      exact (wellFormed_escapeUnit u).append ih

theorem wellFormed_quote (s : JsString) : WellFormed (quote s) :=
  ((wellFormed_units ['"']).append (wellFormed_escape s)).append (wellFormed_units ['"'])

/-! ## The identity text -/

theorem wellFormed_identityText (type : JobSchedulerType) (code : JsString) (runKey : Option JsString) :
    WellFormed (identityText type code runKey) := by
  have run : WellFormed ((runKey.map quote).getD (js "null")) := by
    cases runKey with
    | none => exact wellFormed_units _
    | some text => exact wellFormed_quote text
  exact (((((wellFormed_units _).append (wellFormed_quote _)).append (wellFormed_units _)).append
    (wellFormed_quote _)).append (wellFormed_units _)).append run |>.append (wellFormed_units _)

theorem JobSchedulerType.value_injective : Function.Injective JobSchedulerType.value := by
  intro type other same
  cases type <;> cases other <;> first | rfl | exact absurd same (by decide)

theorem runKey_inj {runKey other : Option JsString} {rest : JsString}
    (same : (runKey.map quote).getD (js "null") ++ rest = (other.map quote).getD (js "null") ++ rest) :
    runKey = other := by
  cases runKey with
  | none =>
      cases other with
      | none => rfl
      | some text => exact absurd (List.cons.inj same).1 (by decide)
  | some text =>
      cases other with
      | none => exact absurd (List.cons.inj same).1 (by decide)
      | some text' => rw [(quote_delimits same).1]

/-- The text tells its parts. -/
theorem identityText_inj {type type' : JobSchedulerType} {code code' : JsString}
    {runKey runKey' : Option JsString}
    (same : identityText type code runKey = identityText type' code' runKey') :
    type = type' ∧ code = code' ∧ runKey = runKey' := by
  simp only [identityText, List.append_assoc] at same
  obtain ⟨types, same⟩ := quote_delimits (List.append_cancel_left same)
  obtain ⟨codes, same⟩ := quote_delimits (List.append_cancel_left same)
  exact ⟨JobSchedulerType.value_injective types, codes, runKey_inj (List.append_cancel_left same)⟩

/-! ## Lock keys -/

/-- `createHash('sha256').update(identity).digest('base64url')` -/
def identityDigest (sha256 : List UInt8 → List UInt8) (text : JsString) : JsString :=
  base64url (sha256 (utf8Bytes text))

/-- What an accepted call is identified by. -/
theorem resolveIdentity_eq_ok {digest : JsString → JsString} {opts : JobAcquireOptions}
    {identity : JobIdentity} (accepted : resolveIdentity digest opts = .ok identity) :
    resolveType opts.type = .ok identity.type ∧ opts.code.trimmed = some identity.code ∧
      identity.lockKey = js "v2:" ++ digest (identityText identity.type identity.code
        (if identity.type = .schedule then opts.runKey.trimmed else none)) := by
  unfold resolveIdentity at accepted
  simp only at accepted
  split at accepted
  · cases accepted
  next bounded =>
    obtain ⟨type, resolved, accepted⟩ := of_bind_ok accepted
    split at accepted
    · cases accepted
    · split at accepted
      · cases accepted
      · cases accepted
        refine ⟨resolved, ?_, rfl⟩
        cases code : opts.code.trimmed with
        | none => simp [code] at bounded
        | some text => rfl

/-- **Job identities never collide.** -/
theorem lockKey_eq_iff {sha256 : List UInt8 → List UInt8} (injective : Function.Injective sha256)
    {opts other : JobAcquireOptions} {identity identity' : JobIdentity}
    (accepted : resolveIdentity (identityDigest sha256) opts = .ok identity)
    (accepted' : resolveIdentity (identityDigest sha256) other = .ok identity') :
    identity.lockKey = identity'.lockKey ↔
      identity.type = identity'.type ∧ opts.code.trimmed = other.code.trimmed ∧
        (identity.type = .schedule → opts.runKey.trimmed = other.runKey.trimmed) := by
  obtain ⟨-, code, lockKey⟩ := resolveIdentity_eq_ok accepted
  obtain ⟨-, code', lockKey'⟩ := resolveIdentity_eq_ok accepted'
  rw [lockKey, lockKey', code, code', Option.some.injEq]
  constructor
  · intro same
    have texts := utf8Bytes_inj (wellFormed_identityText ..) (wellFormed_identityText ..)
      (injective (base64url_injective (List.append_cancel_left same)))
    obtain ⟨types, codes, runKeys⟩ := identityText_inj texts
    refine ⟨types, codes, fun schedule => ?_⟩
    rwa [if_pos schedule, if_pos (types ▸ schedule)] at runKeys
  · rintro ⟨types, codes, runKeys⟩
    rw [← types, codes]
    split
    next schedule => rw [runKeys schedule]
    next => rfl

def smallTick (runKey : String) : JobAcquireOptions where
  code := .text (js " sync")
  runKey := .text (js runKey)

/-- What is hashed for a tick of the job. -/
def tickMessage (runKey : String) : List UInt8 :=
  utf8Bytes (identityText .schedule (js "sync") (some (js runKey)))

/-- SHA-256 on the two messages that are hashed below; every other message is longer than a digest. -/
def smallSha256 (message : List UInt8) : List UInt8 :=
  if message = tickMessage "tick" then
    [0x29, 0x02, 0x9d, 0x72, 0x3e, 0x57, 0x81, 0x06, 0x3b, 0x72, 0xea, 0xab, 0xf4, 0x41, 0xc5, 0x1a,
    0xa6, 0x04, 0xc0, 0xc9, 0xb6, 0xa9, 0x53, 0xcf, 0x28, 0x67, 0x2e, 0x6f, 0xae, 0xc6, 0x55, 0x3f]
  else if message = tickMessage "tock" then
    [0x08, 0x93, 0x47, 0xe3, 0xba, 0xc5, 0x25, 0x0c, 0x9f, 0xf6, 0x8d, 0xcb, 0xc7, 0x77, 0xb4, 0x8f,
    0x51, 0xd6, 0x67, 0x21, 0x08, 0x3b, 0xfb, 0xd9, 0x0a, 0x10, 0x74, 0x4e, 0x22, 0xf7, 0x61, 0xae]
  else List.replicate 33 0 ++ message

theorem smallSha256_injective : Function.Injective smallSha256 := by
  intro message other same
  have longer {digest rest : List UInt8} (short : digest.length = 32) :
      digest ≠ List.replicate 33 0 ++ rest := by
    rintro rfl
    simp only [List.length_append, List.length_replicate] at short
    omega
  unfold smallSha256 at same
  split at same
  next first =>
    split at same
    next first' => rw [first, first']
    next =>
      split at same
      next => exact absurd same (by decide)
      next => exact absurd same (longer rfl)
  next =>
    split at same
    next second =>
      split at same
      next => exact absurd same (by decide)
      next =>
        split at same
        next second' => rw [second, second']
        next => exact absurd same (longer rfl)
    next =>
      split at same
      next => exact absurd same.symm (longer rfl)
      next =>
        split at same
        next => exact absurd same.symm (longer rfl)
        next => exact List.append_cancel_left same

/-- Two ticks of one job. -/
theorem ticks_apart : ∃ identity identity',
    resolveIdentity (identityDigest smallSha256) (smallTick "tick") = .ok identity ∧
    resolveIdentity (identityDigest smallSha256) (smallTick "tock") = .ok identity' ∧
    identity.lockKey ≠ identity'.lockKey := by
  obtain ⟨identity, accepted⟩ : ∃ identity,
    resolveIdentity (identityDigest smallSha256) (smallTick "tick") = .ok identity := ⟨_, rfl⟩
  obtain ⟨identity', accepted'⟩ : ∃ identity,
    resolveIdentity (identityDigest smallSha256) (smallTick "tock") = .ok identity := ⟨_, rfl⟩
  refine ⟨identity, identity', accepted, accepted', fun same => ?_⟩
  obtain ⟨types, -, runKeys⟩ := (lockKey_eq_iff smallSha256_injective accepted accepted').mp same
  cases accepted
  exact absurd (runKeys rfl) (by decide)

end SdcoreNest.JobScheduler
