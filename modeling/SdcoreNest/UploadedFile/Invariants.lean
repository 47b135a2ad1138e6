/-
# UploadedFile.Invariants -- what one call does to a good world

`World.Good` is the state invariant: every row is sound, ids are below the next id,
and every visible ready row has its object.  `World.Late` is what a call needs to be
carried out safely, now or at any later moment; the name is from the calls that threw
and may still land.  The two lemmas are `exec_good` and `exec_forward`: a call that is
fit to land keeps the world good and only moves it forward, and forward moves keep
every such call fit (`Late.mono`).
-/
import SdcoreNest.UploadedFile.Discipline

namespace SdcoreNest.UploadedFile

open SdcoreNest.Theory

set_option autoImplicit false

/-! ## Good worlds -/

namespace World

def Stores (world : World) (key : StorageKey) : Prop := world.objects key ≠ none

/-- Some row with this key is being deleted. -/
def Doomed (world : World) (key : StorageKey) : Prop :=
  ∃ row ∈ world.table, row.key = key ∧ row.touched = true

/-- The object is there, unless the row it belongs to is being deleted. -/
def Kept (world : World) (key : StorageKey) : Prop := world.Stores key ∨ world.Doomed key

/-- The current version of a row the worker holds in memory. -/
def Tracks (world : World) (row : Row) : Prop :=
  ∃ current ∈ world.table, Statement.SameFile row current ∧
    current.isTemporary = row.isTemporary

structure Good (world : World) : Prop where
  sound : ∀ row ∈ world.table, row.Sound
  numbered : ∀ row ∈ world.table, row.id < world.nextId
  drawn : ∀ id worker, world.drawnBy id = some worker → id < world.nextId
  backed : ∀ row ∈ world.table, row.visible = true → row.status = .ready →
    world.Stores row.key

/-- Sound rows have their own id in their key, so a key names one row. -/
theorem Good.eq_of_key {world : World} (good : world.Good) {row row' : Row}
    (member : row ∈ world.table) (member' : row' ∈ world.table) (same : row.key = row'.key) :
    row = row' := by
  refine Keyed.eq_of_key member member' ?_
  rw [← (good.sound row member).keyId, same, (good.sound row' member').keyId]

theorem Good.not_doomed {world : World} (good : world.Good) {row : Row}
    (member : row ∈ world.table) (untouched : row.touched = false) :
    ¬ world.Doomed row.key := by
  rintro ⟨other, there, same, touched⟩
  rw [good.eq_of_key there member same, untouched] at touched
  cases touched

/-- The world only moves forward: rows get later, objects are lost only with their row. -/
structure Forward (world world' : World) : Prop where
  later : ∀ row ∈ world.table, ∃ row' ∈ world'.table, row.Later row'
  kept : ∀ key, key.space ≠ .pending → world.Kept key → world'.Kept key
  nextId : world.nextId ≤ world'.nextId
  drawnBy : ∀ id worker, world.drawnBy id = some worker → world'.drawnBy id = some worker
  clock : ∀ host, world.clock host ≤ world'.clock host
  issued : ∀ key ∈ world.issued, key ∈ world'.issued

theorem Forward.refl (world : World) : world.Forward world where
  later row member := ⟨row, member, .refl row⟩
  kept _ _ kept := kept
  nextId := Nat.le_refl _
  drawnBy _ _ drawn := drawn
  clock _ := Int.le_refl _
  issued _ member := member

variable {world world' : World}

theorem Forward.trans {world'' : World} (first : world.Forward world')
    (second : world'.Forward world'') : world.Forward world'' where
  later row member := by
    obtain ⟨row', member', later⟩ := first.later row member
    obtain ⟨row'', member'', later'⟩ := second.later row' member'
    exact ⟨row'', member'', later.trans later'⟩
  kept key final kept := second.kept key final (first.kept key final kept)
  nextId := Nat.le_trans first.nextId second.nextId
  drawnBy id worker drawn := second.drawnBy id worker (first.drawnBy id worker drawn)
  clock host := Int.le_trans (first.clock host) (second.clock host)
  issued key member := second.issued key (first.issued key member)

theorem Forward.doomed (forward : world.Forward world') {key : StorageKey}
    (doomed : world.Doomed key) : world'.Doomed key := by
  obtain ⟨row, member, keyed, touched⟩ := doomed
  obtain ⟨row', member', later⟩ := forward.later row member
  exact ⟨row', member', later.sameFile.key.trans keyed, later.touched touched⟩

theorem Forward.tracks (forward : world.Forward world') {row : Row}
    (tracks : world.Tracks row) : world'.Tracks row := by
  obtain ⟨current, member, same, temporary⟩ := tracks
  obtain ⟨current', member', later⟩ := forward.later current member
  exact ⟨current', member', same.trans later.sameFile, later.isTemporary.trans temporary⟩

end World

/-! ## Calls that are fit to land -/

/-- What a statement needs of the world besides its WHERE clause. -/
def Statement.Rooted (world : World) : Statement → Prop
  | .activatePendingUpload saved _ _ =>
      saved.uploadExpiredAt = none ∧ saved.isTemporary = false ∧ world.Tracks saved ∧
        saved.key.space ≠ .pending ∧ world.Kept saved.key
  | .activateTemporaryPendingUpload saved _ _ _ =>
      saved.uploadExpiredAt = none ∧ saved.isTemporary = true ∧ world.Tracks saved ∧
        saved.key.space ≠ .pending ∧ world.Kept saved.key
  | .claimCompletion row _ _ _ => row.uploadExpiredAt ≠ none ∧ world.Tracks row
  | .finalizeCompletion row _ _ _ _ _ _ =>
      world.Tracks row ∧ row.key.space ≠ .pending ∧ world.Kept row.key
  | .claimAbort row _ _
  | .claimExpiredDirectUpload row _ => row.status = .pending ∨ row.status = .completing
  | _ => True

/-- An object that may go: staging, or of a row that is being deleted. -/
def World.Erasable (world : World) (key : StorageKey) : Prop :=
  key.space = .pending ∨ world.Doomed key

/-- What a call needs to be carried out safely, now or later. -/
def World.Late (world : World) : Call → Prop
  | .save row => row.Newborn ∧ row.id < world.nextId ∧ ∀ other ∈ world.table, other.id ≠ row.id
  | .update statement => statement.Rooted world
  | .transact statement _ => statement.Rooted world
  | .unlink key => key.space = .pending
  | .delete keys => ∀ key ∈ keys, world.Erasable key
  | .deleteObject key => world.Erasable key
  | _ => True

namespace World

variable {world world' : World}

theorem Rooted.mono {statement : Statement} (forward : world.Forward world')
    (rooted : statement.Rooted world) : statement.Rooted world' := by
  cases statement with
  | activatePendingUpload saved access marker =>
      obtain ⟨server, permanent, tracks, final, kept⟩ := rooted
      exact ⟨server, permanent, forward.tracks tracks, final, forward.kept _ final kept⟩
  | activateTemporaryPendingUpload saved access marker completedAt =>
      obtain ⟨server, temporary, tracks, final, kept⟩ := rooted
      exact ⟨server, temporary, forward.tracks tracks, final, forward.kept _ final kept⟩
  | claimCompletion row access marker etag => exact ⟨rooted.1, forward.tracks rooted.2⟩
  | finalizeCompletion row access marker completedAt etag checksum drop =>
      obtain ⟨tracks, final, kept⟩ := rooted
      exact ⟨forward.tracks tracks, final, forward.kept _ final kept⟩
  | claimAbort row access claim => exact rooted
  | claimExpiredDirectUpload row claim => exact rooted
  | _ => trivial

theorem Erasable.mono {key : StorageKey} (forward : world.Forward world')
    (erasable : world.Erasable key) : world'.Erasable key :=
  erasable.imp_right forward.doomed

/-- A call stays fit to land, an INSERT as long as its id stays unused. -/
theorem Late.mono {call : Call} (forward : world.Forward world') (late : world.Late call)
    (unused : ∀ row, call = .save row → ∀ other ∈ world'.table, other.id ≠ row.id) :
    world'.Late call := by
  cases call with
  | save row => exact ⟨late.1, Nat.lt_of_lt_of_le late.2.1 forward.nextId, unused row rfl⟩
  | update statement => exact Rooted.mono forward late
  | transact statement count => exact Rooted.mono forward late
  | unlink key => exact late
  | delete keys => exact fun key inside => Erasable.mono forward (late key inside)
  | deleteObject key => exact Erasable.mono forward late
  | _ => trivial

/-- In a good world a rooted statement fits every row it chooses. -/
theorem fits_of_rooted {statement : Statement}
    (rooted : statement.Rooted world) {row : Row} (member : row ∈ world.table)
    (chosen : statement.chosen row = true) : statement.Fits row := by
  -- the tracked version of a snapshot is the chosen row itself
  have same : ∀ snapshot : Row, world.Tracks snapshot → row.id = snapshot.id →
      Statement.SameFile snapshot row ∧ row.isTemporary = snapshot.isTemporary := by
    rintro snapshot ⟨current, there, same, temporary⟩ named
    rw [Keyed.eq_of_key member there (named.trans same.id.symm)]
    exact ⟨same, temporary⟩
  cases statement with
  | activatePendingUpload saved access marker =>
      obtain ⟨server, permanent, tracks, -, -⟩ := rooted
      obtain ⟨file, kind⟩ := same saved tracks (Access.pendingUploadWhere_eq_true.mp chosen).1
      exact ⟨file.uploadExpiredAt.trans server, kind.trans permanent⟩
  | activateTemporaryPendingUpload saved access marker completedAt =>
      obtain ⟨server, temporary, tracks, -, -⟩ := rooted
      obtain ⟨file, kind⟩ := same saved tracks (Access.pendingUploadWhere_eq_true.mp chosen).1
      exact ⟨file.uploadExpiredAt.trans server, kind.trans temporary⟩
  | claimCompletion snapshot access marker etag =>
      simp only [Statement.chosen, Bool.and_eq_true] at chosen
      obtain ⟨file, -⟩ := same snapshot rooted.2
        (Access.lifecycleWhere_eq_true.mp chosen.1.1).1
      show row.uploadExpiredAt ≠ none
      rw [file.uploadExpiredAt]
      exact rooted.1
  | finalizeCompletion snapshot access marker completedAt etag checksum drop =>
      simp only [Statement.chosen, Bool.and_eq_true] at chosen
      exact (same snapshot rooted.1 (Access.lifecycleWhere_eq_true.mp chosen.1.1).1).2.symm
  | claimAbort snapshot access claim =>
      simp only [Statement.chosen, Bool.and_eq_true, decide_eq_true_eq] at chosen
      show row.status ≠ .ready ∧ row.status ≠ .failed
      rw [chosen.1.2]
      rcases rooted with pending | completing
      · simp [pending]
      · simp [completing]
  | claimExpiredDirectUpload snapshot claim =>
      simp only [Statement.chosen, Bool.and_eq_true, decide_eq_true_eq] at chosen
      show row.status ≠ .ready ∧ row.status ≠ .failed
      rw [chosen.2]
      rcases rooted with pending | completing
      · simp [pending]
      · simp [completing]
  | _ => trivial

end World

/-- The statements that make a row visible. -/
def Statement.activates : Statement → Bool
  | .activatePendingUpload .. | .activateTemporaryPendingUpload .. | .finalizeCompletion .. =>
      true
  | _ => false

/-- Any other statement that leaves a row visible and ready found it so. -/
theorem Statement.visible_before {statement : Statement} {row : Row} {clock : Moment}
    (quiet : statement.activates = false) (chosen : statement.chosen row = true)
    (visible : (statement.patch clock row).visible = true)
    (ready : (statement.patch clock row).status = .ready) :
    row.visible = true ∧ row.status = .ready := by
  rw [Row.visible_eq_true] at visible ⊢
  cases statement <;>
    simp_all [Statement.activates, Statement.chosen, Statement.patch,
      pendingDeletionWhere_eq_true]

namespace World

variable {world world' : World}

/-- A rooted activation finds the object in place. -/
theorem stores_of_activates (good : world.Good) {statement : Statement}
    (rooted : statement.Rooted world) (active : statement.activates = true) {row : Row}
    (member : row ∈ world.table) (chosen : statement.chosen row = true) :
    world.Stores row.key := by
  have settle : ∀ snapshot : Row, world.Tracks snapshot → row.id = snapshot.id →
      row.touched = false → world.Kept snapshot.key → world.Stores row.key := by
    rintro snapshot ⟨current, there, same, -⟩ named untouched kept
    rw [← same.key, ← Keyed.eq_of_key member there (named.trans same.id.symm)] at kept
    exact kept.resolve_right (good.not_doomed member untouched)
  cases statement with
  | activatePendingUpload saved access marker =>
      obtain ⟨-, -, tracks, -, kept⟩ := rooted
      obtain ⟨named, -, deleted, -, pending⟩ := Access.pendingUploadWhere_eq_true.mp chosen
      exact settle saved tracks named (Row.touched_eq_false.mpr ⟨deleted, pending⟩) kept
  | activateTemporaryPendingUpload saved access marker completedAt =>
      obtain ⟨-, -, tracks, -, kept⟩ := rooted
      obtain ⟨named, -, deleted, -, pending⟩ := Access.pendingUploadWhere_eq_true.mp chosen
      exact settle saved tracks named (Row.touched_eq_false.mpr ⟨deleted, pending⟩) kept
  | finalizeCompletion snapshot access marker completedAt etag checksum drop =>
      obtain ⟨tracks, -, kept⟩ := rooted
      simp only [Statement.chosen, Bool.and_eq_true] at chosen
      obtain ⟨named, -, deleted, pending⟩ := Access.lifecycleWhere_eq_true.mp chosen.1.1
      exact settle snapshot tracks named (Row.touched_eq_false.mpr ⟨deleted, pending⟩) kept
  | _ => cases active

/-! ## Statements -/

theorem mem_apply {statement : Statement} {row : Row} :
    row ∈ (world.apply statement).table ↔
      ∃ old ∈ world.table, row =
        if statement.chosen old then statement.patch world.timestamp old else old :=
  Keyed.mem_update (statement.patch_id world.timestamp)

/-- A statement for one id that affected one row took the row of this id. -/
theorem row_of_affected {statement : Statement} {id : Uuid}
    (named : ∀ row, statement.chosen row = true → row.id = id)
    (counted : world.affected statement = 1) :
    ∃ row ∈ world.table, statement.chosen row = true ∧ row.id = id :=
  Keyed.chosen_of_count (fun row _ chosen => List.mem_singleton.mpr (named row chosen))
    (counted.trans (List.length_singleton (a := id)).symm) (List.mem_singleton.mpr rfl)

/-- A row before a rooted statement has a later version after it. -/
theorem later_apply (good : world.Good) {statement : Statement}
    (rooted : statement.Rooted world) {row : Row} (member : row ∈ world.table) :
    row.Later (if statement.chosen row then statement.patch world.timestamp row
      else row) := by
  split
  · rename_i chosen
    exact Statement.later_patch _ (good.sound row member) chosen
      (fits_of_rooted rooted member chosen)
  · exact .refl row

theorem apply_forward (good : world.Good) {statement : Statement}
    (rooted : statement.Rooted world) : world.Forward (world.apply statement) where
  later row member := ⟨_, mem_apply.mpr ⟨row, member, rfl⟩, later_apply good rooted member⟩
  kept key _ kept := by
    rcases kept with stored | ⟨row, member, keyed, touched⟩
    · exact .inl stored
    · have later := later_apply good rooted member
      exact .inr ⟨_, mem_apply.mpr ⟨row, member, rfl⟩, later.sameFile.key.trans keyed,
        later.touched touched⟩
  nextId := Nat.le_refl _
  drawnBy _ _ drawn := drawn
  clock _ := Int.le_refl _
  issued _ member := member

theorem apply_good (good : world.Good) {statement : Statement}
    (rooted : statement.Rooted world) : (world.apply statement).Good where
  sound row member := by
    obtain ⟨old, there, rfl⟩ := mem_apply.mp member
    split
    · rename_i chosen
      exact Statement.sound_patch _ (good.sound old there) chosen
        (fits_of_rooted rooted there chosen)
    · exact good.sound old there
  numbered row member := by
    obtain ⟨old, there, rfl⟩ := mem_apply.mp member
    rw [(later_apply good rooted there).sameFile.id]
    exact good.numbered old there
  drawn := good.drawn
  backed row member visible ready := by
    obtain ⟨old, there, rfl⟩ := mem_apply.mp member
    rw [(later_apply good rooted there).sameFile.key]
    show world.Stores old.key
    split at visible
    · rename_i chosen
      rw [if_pos chosen] at ready
      cases active : statement.activates with
      | true => exact stores_of_activates good rooted active there chosen
      | false =>
          obtain ⟨visible, ready⟩ := Statement.visible_before active chosen visible ready
          exact good.backed old there visible ready
    · rename_i passed
      rw [if_neg passed] at ready
      exact good.backed old there visible ready

/-! ## Inserts -/

theorem stamped_newborn {row : Row} (newborn : row.Newborn) :
    (world.stamped row).Newborn :=
  ⟨⟨newborn.sound.keyId, newborn.sound.keySpace, newborn.sound.staging,
      newborn.sound.stagingKept, newborn.sound.permanent, newborn.sound.temporary,
      newborn.sound.managed, newborn.sound.unfinished, newborn.sound.waiting,
      newborn.sound.failed, newborn.sound.hidden, newborn.sound.lifetime,
      newborn.sound.lasting⟩, newborn.untouched, newborn.marked, newborn.unclaimed⟩

/-- The world after an INSERT. -/
def insert (world : World) (row : Row) : World :=
  { world with table := world.table.save (world.stamped row) }

theorem mem_insert {row other : Row} (absent : ∀ other ∈ world.table, other.id ≠ row.id) :
    other ∈ (world.insert row).table ↔ other = world.stamped row ∨ other ∈ world.table := by
  refine Keyed.mem_save.trans (or_congr_right ⟨And.left, fun member => ⟨member, ?_⟩⟩)
  exact absent other member

theorem insert_forward {row : Row} (absent : ∀ other ∈ world.table, other.id ≠ row.id) :
    world.Forward (world.insert row) where
  later old member := ⟨old, (mem_insert absent).mpr (.inr member), .refl old⟩
  kept key _ kept := by
    rcases kept with stored | ⟨old, member, rest⟩
    · exact .inl stored
    · exact .inr ⟨old, (mem_insert absent).mpr (.inr member), rest⟩
  nextId := Nat.le_refl _
  drawnBy _ _ drawn := drawn
  clock _ := Int.le_refl _
  issued _ member := member

theorem insert_good (good : world.Good) {row : Row} (newborn : row.Newborn)
    (numbered : row.id < world.nextId)
    (absent : ∀ other ∈ world.table, other.id ≠ row.id) : (world.insert row).Good where
  sound other member := by
    rcases (mem_insert absent).mp member with rfl | there
    · exact (stamped_newborn newborn).sound
    · exact good.sound other there
  numbered other member := by
    rcases (mem_insert absent).mp member with rfl | there
    · exact numbered
    · exact good.numbered other there
  drawn := good.drawn
  backed other member visible ready := by
    rcases (mem_insert absent).mp member with rfl | there
    · exact absurd (Row.visible_eq_true.mp visible).2.1 (stamped_newborn newborn).marked
    · exact good.backed other there visible ready

/-! ## Storage -/

/-- Objects may appear; they disappear only where that is allowed. -/
def Shrinks (world : World) (objects : Objects) : Prop :=
  ∀ key, world.Stores key → objects key ≠ none ∨ world.Erasable key

theorem objects_forward {objects : Objects} (shrinks : world.Shrinks objects) :
    world.Forward (world.setObjects objects) where
  later row member := ⟨row, member, .refl row⟩
  kept key final kept := by
    rcases kept with stored | doomed
    · rcases shrinks key stored with still | staging | doomed
      · exact .inl still
      · exact absurd staging final
      · exact .inr doomed
    · exact .inr doomed
  nextId := Nat.le_refl _
  drawnBy _ _ drawn := drawn
  clock _ := Int.le_refl _
  issued _ member := member

theorem objects_good (good : world.Good) {objects : Objects} (shrinks : world.Shrinks objects) :
    (world.setObjects objects).Good where
  sound := good.sound
  numbered := good.numbered
  drawn := good.drawn
  backed row member visible ready := by
    rcases shrinks row.key (good.backed row member visible ready) with still | staging | doomed
    · exact still
    · exact absurd staging (good.sound row member).keySpace
    · refine absurd doomed (good.not_doomed member ?_)
      obtain ⟨deleted, -, pending⟩ := Row.visible_eq_true.mp visible
      exact Row.touched_eq_false.mpr ⟨deleted, pending⟩

theorem shrinks_put (key : StorageKey) (object : StoredObject) :
    world.Shrinks (world.objects.put key object) := by
  intro other stored
  by_cases same : other = key
  · exact .inl (by simp [same])
  · exact .inl (by rwa [Objects.put_of_ne _ _ same])

theorem shrinks_remove {key : StorageKey} (erasable : world.Erasable key) :
    world.Shrinks (world.objects.remove key) := by
  intro other stored
  by_cases same : other = key
  · exact .inr (same ▸ erasable)
  · exact .inl (by rwa [Objects.remove_of_ne _ same])

theorem shrinks_removeAll {keys : List StorageKey}
    (erasable : ∀ key ∈ keys, world.Erasable key) :
    world.Shrinks (world.objects.removeAll keys) := by
  intro other stored
  by_cases inside : other ∈ keys
  · exact .inr (erasable other inside)
  · exact .inl (by rwa [Objects.removeAll_of_not_mem _ inside])

end World

/-! ## All calls -/

/-- The four ways a call can change the world. -/
inductive Change (world : World) : World → Prop where
  | table (statement : Statement) : statement.Rooted world → Change world (world.apply statement)
  | insert (row : Row) : row.Newborn → row.id < world.nextId →
      (∀ other ∈ world.table, other.id ≠ row.id) → Change world (world.insert row)
  | objects (objects : Objects) : world.Shrinks objects →
      Change world (world.setObjects objects)
  | counters (next : World) : next.table = world.table → next.objects = world.objects →
      next.clock = world.clock → world.nextId ≤ next.nextId →
      (∀ id worker, world.drawnBy id = some worker → next.drawnBy id = some worker) →
      (∀ id worker, next.drawnBy id = some worker → id < next.nextId) →
      (∀ key ∈ world.issued, key ∈ next.issued) → Change world next

variable {deployment : Deployment} {world : World}

theorem exec_change (good : world.Good) (worker : Worker) {call : Call}
    (late : world.Late call) : Change world (exec deployment world worker call).2 := by
  have same : Change world world := .counters world rfl rfl rfl (Nat.le_refl _)
    (fun _ _ drawn => drawn) good.drawn fun _ member => member
  cases call with
  | now => exact same
  | findOne query => exact same
  | find query => exact same
  | createDownloadUrl key expiresIn contentType contentDisposition downloadUrl => exact same
  | headObject key => exact same
  | download key => exact same
  | nextDeletionClaim expected =>
      exact .counters _ rfl rfl rfl (Nat.le_refl _) (fun _ _ drawn => drawn) good.drawn
        fun _ member => member
  | createUploadUrl key contentType size expiresIn uploadId checksum =>
      exact .counters _ rfl rfl rfl (Nat.le_refl _) (fun _ _ drawn => drawn) good.drawn
        fun _ member => List.mem_cons_of_mem _ member
  | randomUUID =>
      refine .counters _ rfl rfl rfl (Nat.le_succ _) ?_ ?_ fun _ member => member
      · intro id other drawn
        have below := good.drawn id other drawn
        simp only [exec]
        rw [if_neg (Nat.ne_of_lt below)]
        exact drawn
      · intro id other drawn
        simp only [exec] at drawn ⊢
        split at drawn
        · rename_i same
          rw [same]
          exact Nat.lt_succ_self _
        · exact Nat.lt_succ_of_lt (good.drawn id other drawn)
  | save row => exact .insert row late.1 late.2.1 late.2.2
  | update statement => exact .table statement late
  | transact statement count =>
      simp only [exec]
      split
      · exact .table statement late
      · exact same
  | putObject key object =>
      simp only [exec]
      split
      · exact same
      · exact .objects _ (World.shrinks_put key object)
  | uploadSigned key object =>
      simp only [exec]
      split
      · exact .objects _ (World.shrinks_put key object)
      · exact same
  | copyObject source destination sourceEtag =>
      simp only [exec]
      split
      · split
        · exact .objects _ (World.shrinks_put destination _)
        · exact same
      · exact same
  | link source destination =>
      simp only [exec]
      split
      · exact .objects _ (World.shrinks_put destination _)
      · exact same
  | unlink key =>
      simp only [exec]
      split
      · exact .objects _ (World.shrinks_remove (.inl late))
      · exact same
  | delete keys => exact .objects _ (World.shrinks_removeAll late)
  | deleteObject key => exact .objects _ (World.shrinks_remove late)

theorem Change.forward (good : world.Good) {world' : World} (change : Change world world') :
    world.Forward world' := by
  cases change with
  | table statement rooted => exact World.apply_forward good rooted
  | insert row newborn numbered absent => exact World.insert_forward absent
  | objects objects shrinks => exact World.objects_forward shrinks
  | counters _ table objects clock nextId drawnBy drawn issued =>
      refine ⟨?_, ?_, nextId, drawnBy, ?_, issued⟩
      · intro row member
        exact ⟨row, by rwa [table], .refl row⟩
      · intro key _ kept
        unfold World.Kept World.Stores World.Doomed at kept ⊢
        rwa [table, objects]
      · intro host
        rw [clock]

theorem Change.good (good : world.Good) {world' : World} (change : Change world world') :
    world'.Good := by
  cases change with
  | table statement rooted => exact World.apply_good good rooted
  | insert row newborn numbered absent => exact World.insert_good good newborn numbered absent
  | objects objects shrinks => exact World.objects_good good shrinks
  | counters _ table objects clock nextId drawnBy drawn issued =>
      refine ⟨?_, ?_, drawn, ?_⟩
      · rw [table]
        exact good.sound
      · rw [table]
        exact fun row member => Nat.lt_of_lt_of_le (good.numbered row member) nextId
      · unfold World.Stores
        rw [table, objects]
        exact good.backed

theorem exec_forward (good : world.Good) (worker : Worker) {call : Call}
    (late : world.Late call) : world.Forward (exec deployment world worker call).2 :=
  (exec_change good worker late).forward good

theorem exec_good (good : world.Good) (worker : Worker) {call : Call}
    (late : world.Late call) : (exec deployment world worker call).2.Good :=
  (exec_change good worker late).good good

end SdcoreNest.UploadedFile
