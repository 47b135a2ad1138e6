/-
# UploadedFile.Published -- the published bytes are the verified bytes

A direct upload is inspected at its staging key, claimed as completing, copied to its final
key and finalised, in four separate steps; the client may store another object at the
staging key between any two of them, and several completers may work on the row.

`World.Versioned` is what all of them agree on: the version that the row was claimed for
when it left the status `pending`.  No statement changes it (`versioned_step`): a second
claim keeps it, and a completion is finalised with the version of the final object, which
is this version because nothing else is ever copied there (`World.Sealed`).
-/
import SdcoreNest.UploadedFile.Orphans
import SdcoreNest.UploadedFile.Verification

namespace SdcoreNest.UploadedFile

open SdcoreNest.Theory
open SdcoreNest.Theory.Machine

set_option autoImplicit false

variable {config : Config}

/-- The file at `key` has been claimed as completing, and its row records this version. -/
def World.Versioned (world : World) (key : StorageKey) (etag : Etag) : Prop :=
  ∃ row ∈ world.table, row.key = key ∧ row.status ≠ .pending ∧ row.etag = some etag

/-- Every final object belongs to a row; that of a direct upload is in the recorded version. -/
def World.Sealed (world : World) : Prop :=
  ∀ key object, key.space ≠ .pending → world.objects key = some object →
    ∃ row ∈ world.table, row.key = key ∧
      (row.uploadExpiredAt ≠ none → world.Versioned key object.etag)

/-- The UPDATE that claimed the row as completing recorded this version, and before that its
worker was shown a staging object in this version that matched. -/
def FirstClaimed (core : SystemCore config) (row : Row) (etag : Etag) : Prop :=
  ∃ event older worker snapshot access marker, event :: older <:+ core.history ∧
    statementOf event = some (worker, .claimCompletion snapshot access marker (some etag)) ∧
    (∃ claimed ∈ World.table event.before, claimed.id = row.id ∧
      (Statement.claimCompletion snapshot access marker (some etag)).chosen claimed = true) ∧
    ∃ inspection ∈ older, ∃ key staged, snapshot.pendingKey = some key ∧
      inspection.act = .issue .answer worker (.headObject key) ∧
      World.objects inspection.before key = some staged ∧ staged.etag = etag ∧
      metadataMatches config snapshot (some (staged.head config.driver)) = true

/-- What holds of a direct upload that is ready. -/
structure Published (core : SystemCore config) (row : Row) (etag : Etag) : Prop where
  recorded : row.etag = some etag
  claimed : FirstClaimed core row etag
  version : ∀ object, core.world.objects row.key = some object → object.etag = etag
  stored : row.touched = false → ∃ object, core.world.objects row.key = some object
  unchanged : row.touched = false → ∀ event ∈ core.history, ∀ earlier ∈ World.table event.before,
    earlier.id = row.id → earlier.status = .ready →
      (World.objects event.before row.key).map StoredObject.body =
        (core.world.objects row.key).map StoredObject.body

/-! ## What one statement and one call can do -/

theorem Status.begun {status status' : Status} (begun : status ≠ .pending)
    (leads : status.leads status' = true) : status' ≠ .pending := by
  cases status <;> cases status' <;> simp_all [Status.leads]

/-- Once a version is recorded, only a finalised completion writes it again. -/
theorem Statement.etag_patch {statement : Statement} {row : Row} {etag : Etag} (clock : Moment)
    (chosen : statement.chosen row = true) (begun : row.status ≠ .pending)
    (recorded : row.etag = some etag) :
    (statement.patch clock row).etag = some etag ∨
      ∃ snapshot access marker completedAt etag' checksum drop,
        statement = .finalizeCompletion snapshot access marker completedAt etag' checksum drop := by
  cases statement with
  | claimCompletion snapshot access marker version =>
      simp only [Statement.chosen, Bool.and_eq_true, decide_eq_true_eq] at chosen
      exact absurd chosen.1.2 begun
  | reclaimCompletion snapshot access marker version =>
      simp only [Statement.chosen, Bool.and_eq_true, decide_eq_true_eq] at chosen
      left
      simp [Statement.patch, ← chosen.2, recorded]
  | finalizeCompletion snapshot access marker completedAt version checksum drop =>
      exact .inr ⟨snapshot, access, marker, completedAt, version, checksum, drop, rfl⟩
  | _ => exact .inl recorded

/-- A direct upload is completing or ready only if it was so, or was just claimed. -/
theorem Statement.completing_or_ready_before {statement : Statement} {row : Row} (clock : Moment)
    (chosen : statement.chosen row = true) (fits : statement.Fits row)
    (managed : row.uploadExpiredAt ≠ none)
    (begun : (statement.patch clock row).status = .completing ∨
      (statement.patch clock row).status = .ready) :
    (row.status = .completing ∨ row.status = .ready) ∨
      ∃ snapshot access marker etag, statement = .claimCompletion snapshot access marker etag := by
  cases statement with
  | claimCompletion snapshot access marker etag => exact .inr ⟨snapshot, access, marker, etag, rfl⟩
  | activateTemporaryPendingUpload saved access marker completedAt => exact absurd fits.1 managed
  | finalizeCompletion snapshot access marker completedAt etag checksum drop =>
      simp only [Statement.chosen, Bool.and_eq_true, decide_eq_true_eq] at chosen
      exact .inl (.inl chosen.1.2)
  | claimById current access claim =>
      simp only [Statement.chosen, Bool.and_eq_true, decide_eq_true_eq] at chosen
      rw [chosen.1.2]
      simp only [Statement.patch] at begun
      split at begun
      · rename_i ready
        exact .inl (.inr ready)
      · simp at begun
  | claimAbort snapshot access claim => simp [Statement.patch] at begun
  | claimExpiredDirectUpload snapshot claim => simp [Statement.patch] at begun
  | _ => exact .inl begun

/-- Where the object at a key comes from: it was there, or the call stored it. -/
theorem exec_objects {deployment : Deployment} {world : World} {worker : Worker} {call : Call}
    {key : StorageKey} {object : StoredObject}
    (stored : (exec deployment world worker call).2.objects key = some object) :
    world.objects key = some object ∨ call = .putObject key object ∨
      call = .uploadSigned key object ∨
      (∃ source etag, call = .copyObject source key etag ∧
        (etag = none ∨ etag = some object.etag)) ∨
      ∃ source, call = .link source key := by
  have put : ∀ {key' object'}, (world.objects.put key' object') key = some object →
      world.objects key = some object ∨ key' = key ∧ object' = object := by
    intro key' object' present
    by_cases same : key = key'
    · rw [same, Objects.put_self] at present
      exact .inr ⟨same.symm, Option.some.inj present⟩
    · rw [Objects.put_of_ne _ _ same] at present
      exact .inl present
  have gone : ∀ {P : Prop} [Decidable P], (if P then none else world.objects key) = some object →
      world.objects key = some object := by
    intro P _ present
    split at present
    · cases present
    · exact present
  cases call with
  | putObject key' object' =>
      simp only [exec] at stored
      split at stored
      · exact .inl stored
      · refine (put stored).imp_right ?_
        rintro ⟨rfl, rfl⟩
        exact .inl rfl
  | uploadSigned key' object' =>
      simp only [exec] at stored
      split at stored
      · refine (put stored).imp_right ?_
        rintro ⟨rfl, rfl⟩
        exact .inr (.inl rfl)
      · exact .inl stored
  | copyObject source destination sourceEtag =>
      simp only [exec] at stored
      split at stored
      · split at stored
        · rename_i met
          refine (put stored).imp_right ?_
          rintro ⟨rfl, rfl⟩
          exact .inr (.inr (.inl ⟨source, sourceEtag, rfl, met⟩))
        · exact .inl stored
      · exact .inl stored
  | link source destination =>
      simp only [exec] at stored
      split at stored
      · refine (put stored).imp_right ?_
        rintro ⟨rfl, rfl⟩
        exact .inr (.inr (.inr ⟨source, rfl⟩))
      · exact .inl stored
  | unlink key' =>
      simp only [exec] at stored
      split at stored
      · exact .inl (gone stored)
      · exact .inl stored
  | delete keys => exact .inl (gone stored)
  | deleteObject key' => exact .inl (gone stored)
  | transact statement count =>
      simp only [exec] at stored
      split at stored <;> exact .inl stored
  | _ => exact .inl stored

/-! ## What a run keeps -/

structure Sealing (core : SystemCore config) : Prop extends Attested core where
  sealed : core.world.Sealed
  granted : ∀ worker key etag, Completing (core.pastOf worker) key (some etag) →
    core.world.Versioned key etag
  inspected : ∀ worker key metadata, key.space ≠ .pending →
    Inspected (core.pastOf worker) key metadata → ∃ row ∈ core.world.table, row.key = key ∧
      (row.uploadExpiredAt ≠ none →
        ∃ etag, metadata.etag = some etag ∧ core.world.Versioned key etag)
  recorded : ∀ row ∈ core.world.table, row.uploadExpiredAt ≠ none →
    row.status = .completing ∨ row.status = .ready →
      ∃ etag, row.etag = some etag ∧ FirstClaimed core row etag
  earlier : ∀ event ∈ core.history, World.Good event.before ∧ World.Sealed event.before ∧
    ∀ key etag, World.Versioned event.before key etag → core.world.Versioned key etag

/-- A key has one recorded version. -/
theorem World.Versioned.unique {world : World} (good : world.Good) {row : Row}
    (member : row ∈ world.table) {etag : Etag} (versioned : world.Versioned row.key etag) :
    row.status ≠ .pending ∧ row.etag = some etag := by
  obtain ⟨other, there, keyed, begun, recorded⟩ := versioned
  rw [← good.eq_of_key there member keyed]
  exact ⟨begun, recorded⟩

namespace Sealing

variable {core core' : SystemCore config} {act : Act (system config)}
  {ok : SystemCore config → Act (system config) → Prop}
  (sealing : Sealing core) (admitted : Core.Admits (careful config) ok core act core')

include sealing admitted

/-- A completion is finalised with the version of the row. -/
theorem version_of_finalize {worker : Worker} {snapshot row : Row} {access : Access}
    {marker completedAt : Int} {version : Option Etag} {checksum : Option String} {drop : Bool}
    (entitled : Entitled core worker
      (.finalizeCompletion snapshot access marker completedAt version checksum drop))
    (carried : statementOf ⟨act, core.world⟩ = some (worker,
      .finalizeCompletion snapshot access marker completedAt version checksum drop))
    (member : row ∈ core.world.table)
    (chosen : (Statement.finalizeCompletion snapshot access marker completedAt version checksum
      drop).chosen row = true) :
    ∃ etag, version = some etag ∧ row.etag = some etag := by
  obtain ⟨past, suffix, allowed⟩ := entitled
  obtain ⟨past', suffix', metadata, seen, rfl⟩ := sealing.verified_of_carried admitted carried
  obtain ⟨⟨current, there, same, -⟩, final, -⟩ := sealing.toKnown.rooted suffix allowed
  simp only [Statement.chosen, Bool.and_eq_true, decide_eq_true_eq] at chosen
  obtain rfl : current = row := Keyed.eq_of_key there member
    (same.id.trans (Access.lifecycleWhere_eq_true.mp chosen.1.1).1.symm)
  have managed : current.uploadExpiredAt ≠ none := by
    intro server
    have sound := sealing.good.sound current there
    cases kind : current.isTemporary with
    | true => exact (sound.temporary server kind).1 chosen.1.2
    | false =>
        have ready := (sound.permanent server kind).1
        rw [chosen.1.2] at ready
        cases ready
  obtain ⟨owner, present, keyed, version⟩ :=
    sealing.inspected worker snapshot.key metadata final (seen.mono suffix')
  obtain rfl : owner = current := sealing.good.eq_of_key present there (keyed.trans same.key.symm)
  obtain ⟨etag, reported, versioned⟩ := version managed
  rw [← same.key] at versioned
  exact ⟨etag, reported, (versioned.unique sealing.good there).2⟩

/-- The recorded version of a row stays. -/
theorem versioned_step {key : StorageKey} {etag : Etag}
    (versioned : core.world.Versioned key etag) : core'.world.Versioned key etag := by
  have forward := sealing.toKnown.forward (disciplined admitted)
  obtain ⟨row, member, keyed, begun, recorded⟩ := versioned
  obtain ⟨row', member', later⟩ := forward.later row member
  refine ⟨row', member', later.sameFile.key.trans keyed, Status.begun begun later.status, ?_⟩
  rcases sealing.toChronicle.row_step (disciplined admitted) member member' later.sameFile.id with
    rfl | ⟨worker, statement, carried, chosen, entitled, rfl⟩
  · exact recorded
  · rcases Statement.etag_patch core.world.timestamp chosen begun recorded with kept |
      ⟨snapshot, access, marker, completedAt, version, checksum, drop, rfl⟩
    · exact kept
    · obtain ⟨etag', rfl, recorded'⟩ :=
        sealing.version_of_finalize admitted entitled carried member chosen
      exact recorded'.symm.trans recorded

/-- An object that was sealed stays sealed. -/
theorem owner_step {key : StorageKey} {etag : Option Etag}
    (owned : ∃ row ∈ core.world.table, row.key = key ∧ (row.uploadExpiredAt ≠ none →
      ∃ version, etag = some version ∧ core.world.Versioned key version)) :
    ∃ row ∈ core'.world.table, row.key = key ∧ (row.uploadExpiredAt ≠ none →
      ∃ version, etag = some version ∧ core'.world.Versioned key version) := by
  have forward := sealing.toKnown.forward (disciplined admitted)
  obtain ⟨row, member, keyed, version⟩ := owned
  obtain ⟨row', member', later⟩ := forward.later row member
  refine ⟨row', member', later.sameFile.key.trans keyed, fun managed => ?_⟩
  rw [later.sameFile.uploadExpiredAt] at managed
  obtain ⟨etag, reported, versioned⟩ := version managed
  exact ⟨etag, reported, sealing.versioned_step admitted versioned⟩

/-- Only a copy of the recorded version reaches the final key of a direct upload. -/
theorem sealed_step (s3 : config.driver = .s3) : core'.world.Sealed := by
  intro key object final stored
  suffices owned : ∃ row ∈ core.world.table, row.key = key ∧ (row.uploadExpiredAt ≠ none →
      ∃ version, some object.etag = some version ∧ core.world.Versioned key version) by
    obtain ⟨row, member, keyed, version⟩ := sealing.owner_step admitted owned
    refine ⟨row, member, keyed, fun managed => ?_⟩
    obtain ⟨_, ⟨⟩, versioned⟩ := version managed
    exact versioned
  have old : core.world.objects key = some object →
      ∃ row ∈ core.world.table, row.key = key ∧ (row.uploadExpiredAt ≠ none →
        ∃ version, some object.etag = some version ∧ core.world.Versioned key version) := by
    intro there
    obtain ⟨row, member, keyed, version⟩ := sealing.sealed key object final there
    exact ⟨row, member, keyed, fun managed => ⟨_, rfl, version managed⟩⟩
  cases performed : act.performed with
  | none =>
      rcases admitted.world_of_idle performed with same | ⟨m, -, moved⟩
      · rw [same] at stored
        exact old stored
      · cases m with
        | advance ms =>
            rw [← Option.some.inj moved] at stored
            exact old stored
        | drift host ms =>
            rw [← Option.some.inj moved] at stored
            exact old stored
        | clientPut key' object' =>
            obtain ⟨issued, after⟩ := Option.ite_none_right_eq_some.mp moved
            rw [← Option.some.inj after] at stored
            refine old ((Objects.put_of_ne _ object' ?_).symm.trans stored)
            rintro rfl
            exact final (sealing.staging_of_issued issued.2)
  | some done =>
      obtain ⟨worker, call⟩ := done
      rw [admitted.world_of_performed performed] at stored
      rcases exec_objects stored with there | rfl | rfl | ⟨source, etag, rfl, met⟩ | ⟨source, rfl⟩
      · exact old there
      · obtain ⟨past, suffix, allows⟩ := sealing.toChronicle.allowed_of_performed
          (disciplined admitted) performed fun _ same => (by cases same)
        rcases allows with ⟨staging, -⟩ | ⟨⟨saved, mine, keyed, server⟩, -⟩
        · exact absurd staging final
        · obtain ⟨row, member, later⟩ := sealing.seen worker saved (.inl (mine.mono suffix))
          refine ⟨row, member, later.sameFile.key.trans keyed, fun managed => ?_⟩
          exact absurd (later.sameFile.uploadExpiredAt.trans server) managed
      · obtain ⟨past, suffix, allows⟩ := sealing.toChronicle.allowed_of_performed
          (disciplined admitted) performed fun _ same => (by cases same)
        exact absurd allows final
      · obtain ⟨past, suffix, named, completing⟩ := sealing.verified_of_performed admitted performed
          fun _ same => (by cases same)
        obtain rfl : etag = some object.etag := by
          refine met.resolve_left ?_
          rintro rfl
          cases named
        have versioned := sealing.granted worker key _ (completing.mono suffix)
        obtain ⟨row, member, keyed, -⟩ := id versioned
        exact ⟨row, member, keyed, fun _ => ⟨_, rfl, versioned⟩⟩
      · obtain ⟨past, suffix, disk⟩ := sealing.verified_of_performed admitted performed
          fun _ same => (by cases same)
        rw [show config.driver = .localDisk from disk] at s3
        cases s3

omit admitted in
/-- A granted claim took the row that its worker had read. -/
theorem row_of_granted {worker : Worker} {statement : Statement} {snapshot : Row}
    (read : Read (core.pastOf worker) snapshot)
    (named : ∀ row, statement.chosen row = true → row.id = snapshot.id)
    (counted : core.world.affected statement = 1) :
    ∃ row ∈ core.world.table, statement.chosen row = true ∧ row.key = snapshot.key := by
  obtain ⟨row, member, chosen, same⟩ := World.row_of_affected named counted
  obtain ⟨current, there, later⟩ := sealing.seen worker snapshot (.inr read)
  obtain rfl : current = row := Keyed.eq_of_key there member (later.sameFile.id.trans same.symm)
  exact ⟨current, there, chosen, later.sameFile.key⟩

theorem granted_step {worker : Worker} {key : StorageKey} {etag : Etag}
    (completing : Completing (core'.pastOf worker) key (some etag)) :
    core'.world.Versioned key etag := by
  obtain ⟨snapshot, access, marker, rfl, step | ⟨seen, step, version⟩⟩ := completing
  · rcases admitted.answered step with old | ⟨-, counted, allows, after⟩
    · exact sealing.versioned_step admitted
        (sealing.granted worker _ etag ⟨snapshot, access, marker, rfl, .inl old⟩)
    · obtain ⟨row, member, chosen, keyed⟩ := sealing.row_of_granted allows.1.1
        (fun row chosen => by
          simp only [Statement.chosen, Bool.and_eq_true] at chosen
          exact (Access.lifecycleWhere_eq_true.mp chosen.1.1).1) counted.symm
      rw [after]
      refine ⟨_, World.mem_apply.mpr ⟨row, member, rfl⟩, ?_⟩
      rw [if_pos chosen]
      exact ⟨keyed, by simp [Statement.patch], rfl⟩
  · rcases admitted.answered step with old | ⟨-, counted, allows, after⟩
    · exact sealing.versioned_step admitted
        (sealing.granted worker _ etag ⟨snapshot, access, marker, rfl, .inr ⟨seen, old, version⟩⟩)
    · obtain ⟨row, member, chosen, keyed⟩ := sealing.row_of_granted allows.1.1
        (fun row chosen => by
          simp only [Statement.chosen, Bool.and_eq_true] at chosen
          exact (Access.lifecycleWhere_eq_true.mp chosen.1.1.1).1) counted.symm
      rw [after]
      refine ⟨_, World.mem_apply.mpr ⟨row, member, rfl⟩, ?_⟩
      rw [if_pos chosen]
      simp only [Statement.chosen, Bool.and_eq_true, decide_eq_true_eq] at chosen
      exact ⟨keyed, by simp [Statement.patch, chosen.1.1.2], version.symm⟩

theorem inspected_step (s3 : config.driver = .s3) {worker : Worker} {key : StorageKey}
    {metadata : ObjectMetadata} (final : key.space ≠ .pending)
    (inspected : Inspected (core'.pastOf worker) key metadata) :
    ∃ row ∈ core'.world.table, row.key = key ∧ (row.uploadExpiredAt ≠ none →
      ∃ etag, metadata.etag = some etag ∧ core'.world.Versioned key etag) := by
  refine sealing.owner_step admitted ?_
  rcases admitted.answered inspected with old | ⟨-, shown, -, -⟩
  · exact sealing.inspected worker key metadata final old
  · obtain ⟨object, stored, rfl⟩ := Option.map_eq_some_iff.mp shown.symm
    obtain ⟨row, member, keyed, version⟩ := sealing.sealed key object final stored
    refine ⟨row, member, keyed, fun managed => ⟨object.etag, ?_, version managed⟩⟩
    show (object.head config.driver).etag = _
    rw [s3]
    rfl

omit sealing in
/-- The first claim of a row stays the first claim of its later versions. -/
theorem firstClaimed_step {row row' : Row} {etag : Etag} (same : row'.id = row.id)
    (claimed : FirstClaimed core row etag) : FirstClaimed core' row' etag := by
  obtain ⟨event, older, worker, snapshot, access, marker, suffix, carried,
    ⟨old, member, named, chosen⟩, inspected⟩ := claimed
  refine ⟨event, older, worker, snapshot, access, marker, ?_, carried,
    ⟨old, member, named.trans same.symm, chosen⟩, inspected⟩
  rw [admitted.history]
  exact suffix.trans (List.suffix_cons _ _)

/-- The claim of a pending row is its first. -/
theorem firstClaimed_of_claim (s3 : config.driver = .s3) {worker : Worker} {snapshot row : Row}
    {access : Access} {marker : Int} {version : Option Etag}
    (carried : statementOf ⟨act, core.world⟩ =
      some (worker, .claimCompletion snapshot access marker version))
    (member : row ∈ core.world.table)
    (chosen : (Statement.claimCompletion snapshot access marker version).chosen row = true) :
    ∃ etag, version = some etag ∧ FirstClaimed core' row etag := by
  obtain ⟨past, suffix, key, metadata, staging, seen, matched, rfl⟩ :=
    sealing.verified_of_carried admitted carried
  obtain ⟨etag, versioned⟩ := Option.isSome_iff_exists.mp (versioned_of_matches s3 matched)
  rw [versioned] at carried chosen
  obtain ⟨inspection, older, after, asked, shown⟩ := Core.event_of_answer (seen.mono suffix)
  obtain ⟨staged, stored, rfl⟩ := Option.map_eq_some_iff.mp shown.symm
  refine ⟨etag, versioned, ⟨act, core.world⟩, core.history, worker, snapshot, access, marker,
    ?_, carried, ⟨row, member, rfl, chosen⟩, inspection, after.subset List.mem_cons_self, key,
    staged, staging, asked, stored, ?_, matched⟩
  · exact admitted.history ▸ List.suffix_refl _
  · have reported : (staged.head config.driver).etag = some etag := versioned
    rw [s3] at reported
    exact Option.some.inj reported

theorem recorded_step (s3 : config.driver = .s3) {row' : Row} (member' : row' ∈ core'.world.table)
    (managed : row'.uploadExpiredAt ≠ none)
    (begun : row'.status = .completing ∨ row'.status = .ready) :
    ∃ etag, row'.etag = some etag ∧ FirstClaimed core' row' etag := by
  have good : core'.world.Good :=
    (((known_keeps config).weaken fun _ _ _ => trivial).admits sealing.toKnown
      (disciplined admitted)).good
  rcases sealing.toChronicle.row_cases (disciplined admitted) member' with ⟨member, -⟩ |
    ⟨row, member, worker, statement, carried, chosen, ⟨past, suffix, allowed⟩, rfl⟩ |
    ⟨newborn, -⟩
  · obtain ⟨etag, recorded, claimed⟩ := sealing.recorded row' member managed begun
    exact ⟨etag, recorded, firstClaimed_step admitted rfl claimed⟩
  · have same := Statement.patch_sameFile core.world.timestamp statement row
    have fits := World.fits_of_rooted (sealing.toKnown.rooted suffix allowed) member chosen
    rw [same.uploadExpiredAt] at managed
    rcases Statement.completing_or_ready_before _ chosen fits managed begun with begun |
      ⟨snapshot, access, marker, version, rfl⟩
    · obtain ⟨etag, recorded, claimed⟩ := sealing.recorded row member managed begun
      have versioned : core.world.Versioned row.key etag := by
        refine ⟨row, member, rfl, ?_, recorded⟩
        rcases begun with completing | ready
        · simp [completing]
        · simp [ready]
      have kept := sealing.versioned_step admitted versioned
      rw [← same.key] at kept
      exact ⟨etag, (kept.unique good member').2, firstClaimed_step admitted same.id claimed⟩
    · obtain ⟨etag, rfl, claimed⟩ :=
        sealing.firstClaimed_of_claim admitted s3 carried member chosen
      exact ⟨etag, rfl, claimed⟩
  · rcases newborn.sound.managed managed newborn.marked with pending | completing
    · simp [pending] at begun
    · exact absurd completing newborn.unclaimed

theorem earlier_step {event : Event (system config)} (member : event ∈ core'.history) :
    World.Good event.before ∧ World.Sealed event.before ∧
      ∀ key etag, World.Versioned event.before key etag → core'.world.Versioned key etag := by
  rw [admitted.history] at member
  rcases List.mem_cons.mp member with rfl | older
  · exact ⟨sealing.good, sealing.sealed, fun _ _ => sealing.versioned_step admitted⟩
  · obtain ⟨good, sealed, kept⟩ := sealing.earlier event older
    exact ⟨good, sealed, fun key etag versioned =>
      sealing.versioned_step admitted (kept key etag versioned)⟩

end Sealing

theorem sealing_keeps (s3 : config.driver = .s3) :
    Keeps (careful config) (fun _ _ => True) (@Sealing config) where
  credible sealing := (attested_keeps config).credible sealing.toAttested
  admits sealing admitted := {
    toAttested := (attested_keeps config).admits sealing.toAttested admitted
    sealed := sealing.sealed_step admitted s3
    granted := fun _ _ _ => sealing.granted_step admitted
    inspected := fun _ _ _ => sealing.inspected_step admitted s3
    recorded := fun _ => sealing.recorded_step admitted s3
    earlier := fun _ => sealing.earlier_step admitted }

theorem sealing_initial (time : Int) :
    Sealing (⟨World.initial time, [], []⟩ : SystemCore config) where
  toAttested := attested_initial time
  sealed _ _ _ stored := by cases stored
  granted _ _ _ completing := by
    obtain ⟨_, _, _, _, member | ⟨_, member, _⟩⟩ := completing <;>
      exact absurd member List.not_mem_nil
  inspected _ _ _ _ inspected := absurd inspected List.not_mem_nil
  recorded row member := absurd member (Keyed.not_mem_empty row)
  earlier _ member := absurd member List.not_mem_nil

/-- The final object of a direct upload is in a recorded version. -/
theorem World.Sealed.versioned {world : World} (sealed : world.Sealed) (good : world.Good)
    {row : Row} (member : row ∈ world.table) (managed : row.uploadExpiredAt ≠ none)
    {object : StoredObject} (stored : world.objects row.key = some object) :
    world.Versioned row.key object.etag := by
  obtain ⟨owner, there, keyed, version⟩ :=
    sealed row.key object (good.sound row member).keySpace stored
  obtain rfl := good.eq_of_key there member keyed
  exact version managed

/-- A direct upload that is ready and not being deleted has its object. -/
theorem World.Good.stored {world : World} (good : world.Good) {row : Row}
    (member : row ∈ world.table) (managed : row.uploadExpiredAt ≠ none)
    (ready : row.status = .ready) (untouched : row.touched = false) :
    ∃ object, world.objects row.key = some object := by
  have settled : row.uploadPendingAt = none := by
    by_contra marked
    rcases (good.sound row member).managed managed marked with pending | completing
    · simp [ready] at pending
    · simp [ready] at completing
  obtain ⟨deleted, deleting⟩ := Row.touched_eq_false.mp untouched
  exact Option.ne_none_iff_exists'.mp (good.backed row member
    (Row.visible_eq_true.mpr ⟨deleted, settled, deleting⟩) ready)

/-- **The published bytes are the verified bytes**, on S3, in every reachable state: the object
of a direct upload that is ready is in the version recorded by the claim that began its
completion, a staging object in this version passed the check before that claim, and the bytes
never change until the deletion of the row begins. -/
theorem published_is_verified {time : Int} {state : SystemConfig config}
    (s3 : config.driver = .s3) (reached : Reachable config time state) :
    ∀ row ∈ state.core.world.table, row.uploadExpiredAt ≠ none → row.status = .ready →
      ∃ etag, Published state.core row etag := by
  have sealing := (Reach.keeps (sealing_keeps s3) (launch_careful config) (sealing_initial time)
    reached).inv
  intro row member managed ready
  obtain ⟨etag, recorded, claimed⟩ := sealing.recorded row member managed (.inr ready)
  have version : ∀ object, state.core.world.Versioned row.key (StoredObject.etag object) →
      object.etag = etag := fun object versioned =>
    Option.some.inj ((versioned.unique sealing.good member).2.symm.trans recorded)
  refine ⟨etag, recorded, claimed, fun object stored => ?_,
    sealing.good.stored member managed ready, ?_⟩
  · exact version object (sealing.sealed.versioned sealing.good member managed stored)
  · intro untouched event past earlier there same ready'
    obtain ⟨good, sealed, kept⟩ := sealing.earlier event past
    have later := sealing.toChronicle.later past there member same.symm
    have managed' : earlier.uploadExpiredAt ≠ none := later.sameFile.uploadExpiredAt ▸ managed
    have untouched' : earlier.touched = false := by
      by_contra begun
      rw [Bool.not_eq_false] at begun
      simp [later.touched begun] at untouched
    obtain ⟨object, stored⟩ := sealing.good.stored member managed ready untouched
    obtain ⟨object', stored'⟩ := good.stored there managed' ready' untouched'
    have versioned' := kept _ _ (sealed.versioned good there managed' stored')
    rw [← later.sameFile.key] at stored' versioned'
    have same : object'.etag = object.etag := (version object' versioned').trans
      (version object (sealing.sealed.versioned sealing.good member managed stored)).symm
    rw [stored, stored', Option.map_some, Option.map_some, Etag.mk.inj same]

/-- A direct upload is initiated, stored, and completed; its client then stores another object. -/
def replacedAfterCompletion : List (SystemLabel (smallConfig .s3)) :=
  .spawn 0 (.initiateUpload smallCaller ⟨"a.txt", "text/plain", 2, none⟩) :: answering 0 4 ++
    .move (.clientPut ⟨.pending, "t", 0, "a.txt"⟩
      { body := [1, 2], contentType := some "text/plain", uploadId := some 0 }) ::
    .spawn 0 (.completeUpload smallCaller (some 0)) :: answering 1 9 ++
    [.move (.clientPut ⟨.pending, "t", 0, "a.txt"⟩
      { body := [3, 4], contentType := some "text/plain", uploadId := some 0 })]

theorem published_is_verified_replaced :
    ∃ state : SystemConfig (smallConfig .s3), Reachable (smallConfig .s3) 0 state ∧
      ∃ row ∈ state.core.world.table, row.uploadExpiredAt ≠ none ∧ row.status = .ready ∧
        (∃ key staged, row.pendingKey = some key ∧ state.core.world.objects key = some staged ∧
          row.etag ≠ some staged.etag) ∧
        ∃ etag, Published state.core row etag := by
  have observed : (after (smallConfig .s3) replacedAfterCompletion).any (fun state =>
      state.core.world.table.rows.any fun row => row.uploadExpiredAt.isSome &&
        decide (row.status = .ready) && row.pendingKey.any fun key =>
          (state.core.world.objects key).any fun staged =>
            decide (row.etag ≠ some staged.etag)) = true := by
    decide +kernel
  obtain ⟨state, followed, seen⟩ := (Option.any_eq_true _ _).mp observed
  obtain ⟨row, member, facts⟩ := List.any_eq_true.mp seen
  simp only [Bool.and_eq_true, decide_eq_true_eq, Option.any_eq_true,
    Option.isSome_iff_ne_none] at facts
  obtain ⟨⟨managed, ready⟩, key, staging, staged, stored, differs⟩ := facts
  have reached := reachable_after followed
  exact ⟨state, reached, row, member, managed, ready, ⟨key, staged, staging, stored, differs⟩,
    published_is_verified rfl reached row member managed ready⟩

end SdcoreNest.UploadedFile
