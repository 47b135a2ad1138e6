/-
# Publication.Storage -- the byte and object protocol of renditions

`createUploadedFilePublicationStorage` of `storage.ts` over the ports of an object store and of
the private source.  A port call answers or throws, its answer may be wrong, and the signal may
abort between any two steps: what is read of it is a call like the others.

`Permits` is the conduct of the two operations; `publish_follows` and `removeExact_follows` show
that they keep to it on every path.
-/
import SdcoreNest.Publication.RunOrder

namespace SdcoreNest.Publication

open SdcoreNest.Theory SdcoreNest.Theory.JsString

set_option autoImplicit false

abbrev Bytes := List UInt8

/-! ## Ports -/

structure ObjectMetadata where
  descriptorHash : JsString
  sha256 : JsString
  sourceVersion : JsString
  size : JsNumber
  contentType : JsString
  deliveryProfileId : JsString
deriving DecidableEq

/-- What `headExact` answers; the fields of `malformed` can not be read. -/
inductive Head where
  | unknown
  | absent
  | found (metadata : ObjectMetadata)
  | malformed
deriving DecidableEq

/-- What `putImmutable` and `deleteExact` answer; `other` is a value outside the declared type. -/
inductive Written where
  | acknowledged
  | unknown
  | conflict
  | other
deriving DecidableEq

/-- What `readSource` answers: bytes, unless they are no `Uint8Array`, and a version, unless it is
no text. -/
inductive SourceRead where
  | read (bytes : Option Bytes) (version : Option JsString)
  | malformed
deriving DecidableEq

inductive StorageCall where
  | aborted
  | headExact (key : JsString)
  | putImmutable (key : JsString) (bytes : Bytes) (metadata : ObjectMetadata)
  | deleteExact (key descriptorHash : JsString)
  | readSource (source : Source)
deriving DecidableEq

@[reducible] def StorageCall.Answer : StorageCall → Type
  | .aborted => Bool
  | .headExact _ => Head
  | .putImmutable _ _ _ => Written
  | .deleteExact _ _ => Written
  | .readSource _ => SourceRead

abbrev storageSig : Signature := ⟨StorageCall, StorageCall.Answer⟩

abbrev StorageJob := ExceptT Fault (Program storageSig)

def ask (call : StorageCall) : StorageJob call.Answer := Program.perform (S := storageSig) .other call

/-- `signal.aborted`. -/
def signalAborted : StorageJob Bool := ask .aborted

def checked {α : Type} (result : Except Fault α) : StorageJob α := ExceptT.mk (.done result)

/-! ## The storage -/

structure DeliveryProfile where
  id : JsString
  cdnBaseUrl : Option JsString
  /-- The mode is `external`. -/
  external : Bool

structure Storage where
  platform : Platform
  /-- SHA-256 of bytes, in hexadecimal. -/
  digest : Bytes → JsString
  cdnBaseUrl : JsString
  profileId : JsString
  maxBytes : JsNumber

def createUploadedFilePublicationStorage (platform : Platform) (digest : Bytes → JsString)
    (profile : DeliveryProfile) (maxBytes : Option JsNumber) : Except Fault Storage := do
  let base ← publicationCdnBase platform profile.cdnBaseUrl
  if !profile.external ∨ trim profile.id = [] ∨ 256 < profile.id.length ∨
      publicationHasControlCharacter profile.id then
    throw .notConfigured
  else
    let limit := maxBytes.getD (.finite 20971520)
    if !limit.isSafeInteger ∨ limit.lt (.finite 1) ∨ (JsNumber.finite 104857600).lt limit then
      throw (.publication (js "core.file.publication.invalid-limit"))
    else return ⟨platform, digest, base, profile.id, limit⟩

/-- A part of a key that paths are not resolved by. -/
def isKeyPart (part : JsString) : Bool :=
  part ≠ [] && part ≠ js "." && part ≠ js ".." && !part.contains backslash &&
    !publicationHasControlCharacter part

def sourceIntegrity : Fault := .publication (js "core.file.publication.source-integrity")

namespace Storage

variable (storage : Storage)

def expected (intent : Intent) : Except Fault ObjectMetadata := do
  let binding ← publicationBinding intent.binding
  let source ← publicationSource intent.source
  if intent.target.key = [] ∨ !(splitOn slash intent.target.key).all isKeyPart then
    throw .invalidDescriptor
  else
    let path ← (splitOn slash intent.target.key).mapM encoded
    if intent.target.url ≠ storage.cdnBaseUrl ++ [slash] ++ joinWith [slash] path ∨
        !source.size.isSafeInteger ∨ source.size.lt (.finite 1) ∨ storage.maxBytes.lt source.size ∨
        !isSha256 source.sha256 ∨ source.version = [] ∨ !isContentType source.contentType ∨
        intent.descriptorHash ≠ descriptor storage.platform binding source intent.target then
      throw .invalidDescriptor
    else
      return ⟨intent.descriptorHash, source.sha256, source.version, source.size, source.contentType,
        storage.profileId⟩

def matchesMetadata (a b : ObjectMetadata) : Bool :=
  a.descriptorHash = b.descriptorHash && a.sha256 = b.sha256 && a.sourceVersion = b.sourceVersion &&
    a.size = b.size && a.contentType = b.contentType && a.deliveryProfileId = b.deliveryProfileId

/-- What a HEAD says about the rendition. -/
def observe (metadata : ObjectMetadata) : Head → Except Fault Observation
  | .unknown => .ok .unknown
  | .absent => .ok .absent
  | .found found => .ok (if matchesMetadata found metadata then .matching else .conflict)
  | .malformed => .error .other

def head (metadata : ObjectMetadata) (key : JsString) : StorageJob Observation := do
  let found ← ask (.headExact key)
  let stopped ← signalAborted
  if stopped then pure .unknown
  else checked (observe metadata found)

def inspect (intent : Intent) : StorageJob Observation := do
  let metadata ← checked (storage.expected intent)
  let stopped ← signalAborted
  if stopped then pure .unknown
  else tryCatch (head metadata intent.target.key) fun _ => pure .unknown

/-- The bytes that were read, if they are those of the source. -/
def verified (metadata : ObjectMetadata) : SourceRead → Except Fault Bytes
  | .malformed => .error .other
  | .read none _ => .error sourceIntegrity
  | .read (some bytes) version =>
      if version ≠ some metadata.sourceVersion ∨ .finite bytes.length ≠ metadata.size ∨
          storage.maxBytes.lt (.finite bytes.length) then
        .error sourceIntegrity
      else if storage.digest bytes ≠ metadata.sha256 then .error sourceIntegrity
      else .ok bytes

/-- An answer is acknowledged when a HEAD confirms it. -/
def confirm (intent : Intent) (wanted : Observation) : Written → StorageJob Acknowledgement
  | .acknowledged => do
      let stopped ← signalAborted
      if stopped then pure .unknown
      else do
        let after ← storage.inspect intent
        pure (if after = wanted then .acknowledged else .unknown)
  | _ => pure .unknown

/-- Copy the source to a place that is free. -/
def copy (intent : Intent) (metadata : ObjectMetadata) : StorageJob Acknowledgement := do
  let read ← ask (.readSource intent.source)
  let stopped ← signalAborted
  if stopped then pure .unknown
  else do
    let bytes ← checked (storage.verified metadata read)
    tryCatch
      (do
        let written ← ask (.putImmutable intent.target.key bytes metadata)
        storage.confirm intent .matching written)
      fun _ => pure .unknown

def publish (intent : Intent) : StorageJob Acknowledgement := do
  let metadata ← checked (storage.expected intent)
  let stopped ← signalAborted
  if stopped then pure .unknown
  else do
    let before ← storage.inspect intent
    match before with
    | .matching => pure .acknowledged
    | .absent => do
        let stopped ← signalAborted
        if stopped then pure .unknown
        else storage.copy intent metadata
    | _ => pure .unknown

def removeExact (intent : Intent) : StorageJob Acknowledgement := do
  let before ← storage.inspect intent
  match before with
  | .absent => pure .acknowledged
  | .matching => do
      let stopped ← signalAborted
      if stopped then pure .unknown
      else
        tryCatch
          (do
            let removed ← ask (.deleteExact intent.target.key intent.descriptorHash)
            storage.confirm intent .absent removed)
          fun _ => pure .unknown
  | _ => pure .unknown

end Storage

/-! ## The protocol -/

abbrev StoragePast := List (Step storageSig)

/-- What the last HEAD answered. -/
def lastHead : StoragePast → Option Head
  | [] => none
  | ⟨.headExact _, reply⟩ :: _ => reply
  | _ :: past => lastHead past

section Protocol

variable (storage : Storage) (intent : Intent) (writes : Bool)

/-- When an operation on the intent may use which port; only `publish` writes. -/
def Permits (past : StoragePast) : StorageCall → Prop
  | .aborted => True
  | .headExact key => key = intent.target.key ∧ ∃ metadata, storage.expected intent = .ok metadata
  | .readSource source =>
      writes = true ∧ source = intent.source ∧ ∃ metadata, storage.expected intent = .ok metadata
  | .putImmutable key bytes metadata =>
      writes = true ∧ key = intent.target.key ∧ storage.expected intent = .ok metadata ∧
        (∀ key bytes metadata reply, (⟨.putImmutable key bytes metadata, reply⟩ : Step storageSig) ∉ past) ∧
        (⟨.headExact key, some .absent⟩ : Step storageSig) ∈ past ∧
        .finite bytes.length = intent.source.size ∧ storage.digest bytes = intent.source.sha256 ∧
        (⟨.readSource intent.source, some (.read (some bytes) (some intent.source.version))⟩ :
          Step storageSig) ∈ past ∧
        (⟨.aborted, some true⟩ : Step storageSig) ∉ past
  | .deleteExact key descriptorHash =>
      writes = false ∧ key = intent.target.key ∧ descriptorHash = intent.descriptorHash ∧
        (∀ key hash reply, (⟨.deleteExact key hash, reply⟩ : Step storageSig) ∉ past) ∧
        ∃ metadata, storage.expected intent = .ok metadata ∧
          (⟨.headExact key, some (.found metadata)⟩ : Step storageSig) ∈ past

/-- Every answer of a port can be met. -/
def storageProtocol : Conduct storageSig where
  allows past call := Permits storage intent writes past call
  credible _ := True

end Protocol

theorem Storage.matchesMetadata_eq {a b : ObjectMetadata} (same : Storage.matchesMetadata a b = true) :
    a = b := by
  simp only [Storage.matchesMetadata, Bool.and_eq_true, decide_eq_true_eq] at same
  obtain ⟨⟨⟨⟨⟨hash, digest⟩, version⟩, size⟩, type⟩, profile⟩ := same
  cases a
  cases b
  simp_all

/-- What was expected of a verified source is what the intent names. -/
theorem Storage.of_expected {storage : Storage} {intent : Intent} {metadata : ObjectMetadata}
    (accepted : storage.expected intent = .ok metadata) :
    metadata = ⟨intent.descriptorHash, intent.source.sha256, intent.source.version, intent.source.size,
      intent.source.contentType, storage.profileId⟩ := by
  unfold Storage.expected at accepted
  obtain ⟨binding, -, accepted⟩ := of_bind_ok accepted
  obtain ⟨source, isSource, accepted⟩ := of_bind_ok accepted
  obtain rfl := publicationSource_eq isSource
  split at accepted
  · cases accepted
  · obtain ⟨path, -, accepted⟩ := of_bind_ok accepted
    split at accepted
    · cases accepted
    · cases accepted
      rfl

theorem Storage.of_verified {storage : Storage} {metadata : ObjectMetadata} {read : SourceRead}
    {bytes : Bytes} (passed : storage.verified metadata read = .ok bytes) :
    read = .read (some bytes) (some metadata.sourceVersion) ∧ .finite bytes.length = metadata.size ∧
      storage.digest bytes = metadata.sha256 := by
  unfold Storage.verified at passed
  split at passed
  · cases passed
  · cases passed
  case h_3 found version =>
      split at passed
      · cases passed
      case isFalse fits =>
          split at passed
          · cases passed
          case isFalse same =>
              cases passed
              simp only [not_or, not_not] at fits same
              exact ⟨by rw [fits.1], fits.2.1, same⟩

section Paths

variable {storage : Storage} {intent : Intent} {writes : Bool} {past : StoragePast} {α : Type}

theorem signalAborted_follows {f : Bool → StorageJob α} {post : α → StoragePast → Prop}
    (each : ∀ stopped, Follows (storageProtocol storage intent writes) (f stopped)
      (⟨.aborted, some stopped⟩ :: past) (returning post)) :
    Follows (storageProtocol storage intent writes) (signalAborted >>= f) past (returning post) :=
  Follows.ask_bind trivial (fun stopped _ => each stopped) fun _ => trivial

/-- The past after an inspection that found something out. -/
abbrev inspectedBy (key : JsString) (found : Head) (past : StoragePast) : StoragePast :=
  ⟨.aborted, some false⟩ :: ⟨.headExact key, some found⟩ :: ⟨.aborted, some false⟩ :: past

/-- An inspection asks one HEAD, and what it finds out is the answer. -/
theorem inspect_follows : Follows (storageProtocol storage intent writes) (storage.inspect intent) past
    (returning fun observation past' =>
      (observation = .absent → past' = inspectedBy intent.target.key .absent past) ∧
      (observation = .matching → ∃ metadata, storage.expected intent = .ok metadata ∧
        past' = inspectedBy intent.target.key (.found metadata) past)) := by
  unfold Storage.inspect
  refine Follows.check_bind (fun metadata accepted => ?_) fun _ => trivial
  refine signalAborted_follows fun stopped => ?_
  cases stopped with
  | true => exact ⟨Observation.noConfusion, Observation.noConfusion⟩
  | false =>
      refine Follows.guarding ?_ (fun _ _ _ => id) fun _ _ _ => ⟨Observation.noConfusion, Observation.noConfusion⟩
      unfold Storage.head
      refine Follows.ask_bind ⟨rfl, metadata, accepted⟩ (fun found _ => ?_) fun _ => trivial
      refine signalAborted_follows fun stopped => ?_
      cases stopped with
      | true => exact ⟨Observation.noConfusion, Observation.noConfusion⟩
      | false =>
          cases found with
          | unknown => exact ⟨Observation.noConfusion, Observation.noConfusion⟩
          | absent => exact ⟨fun _ => rfl, Observation.noConfusion⟩
          | malformed => exact trivial
          | found found =>
              by_cases same : Storage.matchesMetadata found metadata = true
              · obtain rfl := Storage.matchesMetadata_eq same
                simp only [Storage.observe, same, if_true]
                exact ⟨Observation.noConfusion, fun _ => ⟨found, accepted, rfl⟩⟩
              · simp only [Storage.observe, same]
                exact ⟨Observation.noConfusion, Observation.noConfusion⟩

/-- What an acknowledgement rests on. -/
def Confirmed (storage : Storage) (intent : Intent) (wanted : Observation) (past : StoragePast) : Prop :=
  match wanted with
  | .absent => lastHead past = some .absent
  | .matching => ∃ metadata, storage.expected intent = .ok metadata ∧ lastHead past = some (.found metadata)
  | _ => False

theorem confirm_follows {wanted : Observation} (known : wanted = .absent ∨ wanted = .matching)
    (written : Written) :
    Follows (storageProtocol storage intent writes) (storage.confirm intent wanted written) past
      (returning fun answer past' => answer = .acknowledged → Confirmed storage intent wanted past') := by
  cases written with
  | acknowledged =>
      refine signalAborted_follows fun stopped => ?_
      cases stopped with
      | true => exact Acknowledgement.noConfusion
      | false =>
          refine Follows.seq _ inspect_follows ?_ fun _ _ _ => trivial
          rintro after past' - ⟨absent, matching⟩
          by_cases same : after = wanted
          · subst same
            simp only [if_true, follows_pure, returning_ok]
            intro _
            rcases known with rfl | rfl
            · rw [absent rfl]
              rfl
            · obtain ⟨metadata, accepted, rfl⟩ := matching rfl
              exact ⟨metadata, accepted, rfl⟩
          · simp only [if_neg same, follows_pure, returning_ok]
            exact Acknowledgement.noConfusion
  | unknown => exact Acknowledgement.noConfusion
  | conflict => exact Acknowledgement.noConfusion
  | other => exact Acknowledgement.noConfusion

/-- Neither a PUT nor an abort was seen. -/
structure Untouched (past : StoragePast) : Prop where
  unwritten : ∀ key bytes metadata reply,
    (⟨.putImmutable key bytes metadata, reply⟩ : Step storageSig) ∉ past
  running : (⟨.aborted, some true⟩ : Step storageSig) ∉ past

theorem untouched_nil : Untouched [] where
  unwritten := by simp
  running := by simp

theorem Untouched.running_on (fresh : Untouched past) : Untouched (⟨.aborted, some false⟩ :: past) where
  unwritten key bytes metadata reply := by simpa using fresh.unwritten key bytes metadata reply
  running := by simpa using fresh.running

theorem Untouched.inspectedBy (fresh : Untouched past) (key : JsString) (found : Head) :
    Untouched (inspectedBy key found past) := by
  have before := fresh.running_on
  refine Untouched.running_on ⟨fun key bytes metadata reply => ?_, ?_⟩
  · simpa using before.unwritten key bytes metadata reply
  · simpa using before.running

theorem copy_follows {metadata : ObjectMetadata} (accepted : storage.expected intent = .ok metadata)
    (fresh : Untouched past)
    (absent : (⟨.headExact intent.target.key, some .absent⟩ : Step storageSig) ∈ past) :
    Follows (storageProtocol storage intent true) (storage.copy intent metadata) past
      (returning fun answer past' => answer = .acknowledged → Confirmed storage intent .matching past') := by
  unfold Storage.copy
  refine Follows.ask_bind ⟨rfl, rfl, metadata, accepted⟩ (fun read _ => ?_) fun _ => trivial
  refine signalAborted_follows fun stopped => ?_
  cases stopped with
  | true => exact Acknowledgement.noConfusion
  | false =>
      refine Follows.check_bind (fun bytes passed => ?_) fun _ => trivial
      obtain ⟨rfl, size, digest⟩ := Storage.of_verified passed
      have known := Storage.of_expected accepted
      have fresh' : Untouched (⟨.readSource intent.source, some (.read (some bytes)
          (some metadata.sourceVersion))⟩ :: past) := by
        constructor
        · intro key bytes metadata reply
          simpa using fresh.unwritten key bytes metadata reply
        · simpa using fresh.running
      have later := fresh'.running_on
      refine Follows.guarding (?_ : Follows _ _ _ (returning fun answer past' =>
        answer = .acknowledged → Confirmed storage intent .matching past')) (fun _ _ _ => id)
        fun _ _ _ => Acknowledgement.noConfusion
      refine Follows.ask_bind ⟨rfl, rfl, accepted, later.unwritten, ?_, ?_, ?_, ?_, later.running⟩
        (fun written _ => confirm_follows (.inr rfl) written) fun _ => trivial
      · exact .tail _ (.tail _ absent)
      · rw [size, known]
      · rw [digest, known]
      · rw [known]
        exact .tail _ List.mem_cons_self

theorem publish_follows : Follows (storageProtocol storage intent true) (storage.publish intent) []
    (returning fun answer past' => answer = .acknowledged → Confirmed storage intent .matching past') := by
  unfold Storage.publish
  refine Follows.check_bind (fun metadata accepted => ?_) fun _ => trivial
  refine signalAborted_follows fun stopped => ?_
  cases stopped with
  | true => exact Acknowledgement.noConfusion
  | false =>
      have fresh := untouched_nil.running_on
      refine Follows.seq _ inspect_follows ?_ fun _ _ _ => trivial
      rintro before past' - ⟨absent, matching⟩
      cases before with
      | matching =>
          obtain ⟨metadata, accepted, rfl⟩ := matching rfl
          exact fun _ => ⟨metadata, accepted, rfl⟩
      | absent =>
          obtain rfl := absent rfl
          refine signalAborted_follows fun stopped => ?_
          cases stopped with
          | true => exact Acknowledgement.noConfusion
          | false =>
              exact copy_follows accepted (fresh.inspectedBy _ _).running_on
                (.tail _ (.tail _ List.mem_cons_self))
      | unknown => exact Acknowledgement.noConfusion
      | conflict => exact Acknowledgement.noConfusion
      | other => exact Acknowledgement.noConfusion

theorem removeExact_follows : Follows (storageProtocol storage intent false) (storage.removeExact intent) []
    (returning fun answer past' => answer = .acknowledged → Confirmed storage intent .absent past') := by
  unfold Storage.removeExact
  refine Follows.seq _ inspect_follows ?_ fun _ _ _ => trivial
  rintro before past' - ⟨absent, matching⟩
  cases before with
  | absent =>
      obtain rfl := absent rfl
      exact fun _ => rfl
  | matching =>
      obtain ⟨metadata, accepted, rfl⟩ := matching rfl
      refine signalAborted_follows fun stopped => ?_
      cases stopped with
      | true => exact Acknowledgement.noConfusion
      | false =>
          refine Follows.guarding (?_ : Follows _ _ _ (returning fun answer past' =>
            answer = .acknowledged → Confirmed storage intent .absent past')) (fun _ _ _ => id)
            fun _ _ _ => Acknowledgement.noConfusion
          refine Follows.ask_bind ⟨rfl, rfl, rfl, ?_, metadata, accepted, ?_⟩
            (fun removed _ => confirm_follows (.inl rfl) removed) fun _ => trivial
          · intro key hash reply
            simp
          · exact .tail _ (.tail _ List.mem_cons_self)
  | unknown => exact Acknowledgement.noConfusion
  | conflict => exact Acknowledgement.noConfusion
  | other => exact Acknowledgement.noConfusion

end Paths

/-- **The storage protocol.**  For any answers of the ports and an abort at any moment, every call
was permitted when it was made, `publish` acknowledges on a HEAD with the expected metadata only, and
`removeExact` on a HEAD that found nothing. -/
theorem storage_keeps_protocol (storage : Storage) (intent : Intent) :
    (∀ past rest, (storage.publish intent).run.After past rest →
      (∀ step earlier, step :: earlier <:+ past → Permits storage intent true earlier step.call) ∧
      (rest = .done (.ok .acknowledged) → ∃ metadata, storage.expected intent = .ok metadata ∧
        lastHead past = some (.found metadata))) ∧
    (∀ past rest, (storage.removeExact intent).run.After past rest →
      (∀ step earlier, step :: earlier <:+ past → Permits storage intent false earlier step.call) ∧
      (rest = .done (.ok .acknowledged) → lastHead past = some .absent)) ∧
    ∀ past rest, (storage.inspect intent).run.After past rest →
      ∀ step earlier, step :: earlier <:+ past → Permits storage intent false earlier step.call := by
  refine ⟨fun past rest after => ?_, fun past rest after => ?_, fun past rest after step earlier inside => ?_⟩
  · refine ⟨fun step earlier inside =>
      Program.allowed_after publish_follows after (fun _ _ => trivial) inside, ?_⟩
    rintro rfl
    exact Program.obeys_after publish_follows after (fun _ _ => trivial) rfl
  · refine ⟨fun step earlier inside =>
      Program.allowed_after removeExact_follows after (fun _ _ => trivial) inside, ?_⟩
    rintro rfl
    exact Program.obeys_after removeExact_follows after (fun _ _ => trivial) rfl
  · exact Program.allowed_after inspect_follows after (fun _ _ => trivial) inside

/-! ### Poles -/

/-- The text `synthetic`. -/
def smallBytes : Bytes := [115, 121, 110, 116, 104, 101, 116, 105, 99]

def smallStorage : Storage :=
  ⟨smallPlatform, fun _ => smallSha256, js "https://cdn.example.test", js "profile", .finite 100⟩

def smallMetadata : ObjectMetadata :=
  ⟨smallIntent.descriptorHash, smallSha256, js "v1", .finite 9, js "image/png", js "profile"⟩

/-- An object store with one place, free or taken. -/
def onePlace (taken : Bool) : (call : StorageCall) → Option call.Answer × Bool
  | .aborted => (some false, taken)
  | .headExact _ => (some (if taken then .found smallMetadata else .absent), taken)
  | .putImmutable _ _ _ => (some .acknowledged, true)
  | .deleteExact _ _ => (some .acknowledged, false)
  | .readSource _ => (some (.read (some smallBytes) (some (js "v1"))), taken)

/-- A copy to a free place is acknowledged, after a HEAD that shows its metadata. -/
theorem smallStorage_publishes : ∃ past,
    (smallStorage.publish smallIntent).run.After past (.done (.ok .acknowledged)) ∧
      ∃ metadata, smallStorage.expected smallIntent = .ok metadata ∧
        lastHead past = some (.found metadata) := by
  obtain ⟨past, after, -⟩ := Program.after_run (S := storageSig) onePlace
    (smallStorage.publish smallIntent).run false
  have acknowledged : (Program.run (S := storageSig) onePlace (smallStorage.publish smallIntent).run false).1 =
      .ok .acknowledged := by decide +kernel
  rw [acknowledged] at after
  exact ⟨past, after, ((storage_keeps_protocol smallStorage smallIntent).1 past _ after).2 rfl⟩

end SdcoreNest.Publication
