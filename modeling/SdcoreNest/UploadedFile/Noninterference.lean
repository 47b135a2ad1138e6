/-
# UploadedFile.Noninterference -- a request sees and changes what is in its scope

Two worlds agree when the rows that an access covers are the same and so are the objects of these rows.
A request that is confined to the access cannot tell them apart: it has the same outcome in both, they
still agree when it ends, and what lies outside the scope is as it was, also where calls throw on the
way.

* `agree_exec` -- one call in two worlds that agree;
* `within_exec` -- one call and what lies outside;
* `requests_isolated` -- whole requests.
-/
import SdcoreNest.UploadedFile.Alone
import SdcoreNest.UploadedFile.Confinement

namespace SdcoreNest.UploadedFile

open SdcoreNest.Theory

set_option autoImplicit false

/-! ## Worlds -/

namespace World

/-- An id that is still to be drawn names no row and no object, and no key belongs to two rows. -/
structure Tidy (world : World) : Prop where
  ids : ∀ row ∈ world.table, row.id < world.nextId
  keys : ∀ row ∈ world.table, ∀ key ∈ row.keys, key.id < world.nextId
  objects : ∀ key, world.nextId ≤ key.id → world.objects key = none
  distinct : ∀ row ∈ world.table, ∀ other ∈ world.table, ∀ key ∈ row.keys, key ∈ other.keys →
    row.id = other.id

/-- A row in scope refers to the object. -/
def Refers (access : Access) (world : World) (key : StorageKey) : Prop :=
  ∃ row ∈ world.table, access.covers row = true ∧ key ∈ row.keys

/-- The objects of the rows in scope, and of rows that are still to be saved. -/
def Own (access : Access) (world : World) (key : StorageKey) : Prop :=
  world.Refers access key ∨ world.nextId ≤ key.id

end World

/-- The same rows in scope, the same objects of a kind, and the same clocks and ids to be drawn. -/
structure Agree (access : Access) (own : StorageKey → Prop) (world world' : World) : Prop where
  rows : world.table.select access.covers = world'.table.select access.covers
  objects : ∀ key, own key → world.objects key = world'.objects key
  clock : world.clock = world'.clock
  micros : world.micros = world'.micros
  lastDeletionClaimAt : world.lastDeletionClaimAt = world'.lastDeletionClaimAt
  nextId : world.nextId = world'.nextId

/-- How far a confined request may have come from where it started. -/
structure Within (access : Access) (start : World) (past : Past) (world : World) : Prop where
  others : world.table.select (fun row => !access.covers row) =
    start.table.select fun row => !access.covers row
  objects : ∀ key, ¬start.Own access key → world.objects key = start.objects key
  keys : ∀ row ∈ world.table, access.covers row = true → ∀ key ∈ row.keys, start.Own access key
  fresh : ∀ row ∈ world.table, start.nextId ≤ row.id → access.covers row = true
  later : start.nextId ≤ world.nextId
  drawn : ∀ id, (⟨.randomUUID, some id⟩ : Step sig) ∈ past → start.nextId ≤ id
  read : ∀ row, Read past row → ∀ key ∈ row.keys, start.Own access key

section

variable {access : Access} {start world world' : World} {past : Past}

theorem within_start (tidy : start.Tidy) : Within access start [] start where
  others := rfl
  objects _ _ := rfl
  keys row member covered key listed := .inl ⟨row, member, covered, listed⟩
  fresh row member later := absurd (tidy.ids row member) (Nat.not_lt.mpr later)
  later := Nat.le_refl _
  drawn _ drawn := absurd drawn List.not_mem_nil
  read row read := by
    rcases read with ⟨query, member⟩ | ⟨query, rows, member, -⟩
    · exact absurd member List.not_mem_nil
    · exact absurd member List.not_mem_nil

/-- What a confined request reaches is its own. -/
theorem Within.own (within : Within access start past world) {key : StorageKey}
    (reached : Reached past key) : start.Own access key := by
  rcases reached with ⟨row, read, listed⟩ | drawn
  · exact within.read row read key listed
  · exact .inr (within.drawn key.id drawn)

/-- A row under an id that the request drew is in scope. -/
theorem Within.covered (within : Within access start past world) {id : Uuid}
    (drawn : (⟨.randomUUID, some id⟩ : Step sig) ∈ past) {row : Row} (member : row ∈ world.table)
    (same : row.id = id) : access.covers row = true :=
  within.fresh row member (same ▸ within.drawn id drawn)

/-! ## Statements -/

theorem covers_patch (access : Access) (statement : Statement) (clock : Moment) (row : Row) :
    access.covers (statement.patch clock row) = access.covers row := by
  have same := Statement.patch_sameFile clock statement row
  unfold Access.covers
  rw [same.tenantCode, same.departmentCode, same.userId]

theorem mem_keys_patch {statement : Statement} {clock : Moment} {row : Row} {key : StorageKey}
    (listed : key ∈ (statement.patch clock row).keys) : key ∈ row.keys := by
  unfold Row.keys at listed ⊢
  rw [(Statement.patch_sameFile clock statement row).key] at listed
  rcases Statement.staging_patch clock statement row with kept | dropped
  · rwa [kept] at listed
  · rw [dropped] at listed
    rcases List.mem_cons.mp listed with here | there
    · exact List.mem_cons.mpr (.inl here)
    · cases there

theorem Agree.affected {own : StorageKey → Prop} (agree : Agree access own world world')
    {statement : Statement} (carried : statement.access = some access) :
    world.affected statement = world'.affected statement := by
  have inside : ∀ row, statement.chosen row = true → access.covers row = true :=
    fun row => Statement.covers_of_chosen carried
  unfold World.affected
  rw [Keyed.count_of_seen inside, Keyed.count_of_seen inside, agree.rows]

theorem Agree.timestamp {own : StorageKey → Prop} (agree : Agree access own world world') :
    world.timestamp = world'.timestamp := by
  rw [World.timestamp, World.timestamp, agree.clock, agree.micros]

theorem Agree.apply {own : StorageKey → Prop} (agree : Agree access own world world')
    (statement : Statement) : Agree access own (world.apply statement) (world'.apply statement) where
  rows := by
    unfold World.apply
    rw [Keyed.select_update _ (covers_patch access statement _),
      Keyed.select_update _ (covers_patch access statement _), agree.rows, agree.timestamp]
  objects := agree.objects
  clock := agree.clock
  micros := agree.micros
  lastDeletionClaimAt := agree.lastDeletionClaimAt
  nextId := agree.nextId

theorem Within.apply (within : Within access start past world) {statement : Statement}
    (carried : statement.access = some access) : Within access start past (world.apply statement) where
  others := by
    unfold World.apply
    rw [Keyed.select_update_unseen _ (fun row => by rw [covers_patch]) fun row chosen => ?_]
    · exact within.others
    · rw [Statement.covers_of_chosen carried chosen]
      rfl
  objects := within.objects
  keys row member covered key listed := by
    obtain ⟨old, there, rfl⟩ := (Keyed.mem_update (Statement.patch_id _ statement)).mp member
    split at listed
    next chosen =>
      exact within.keys old there (Statement.covers_of_chosen carried chosen) key (mem_keys_patch listed)
    next kept =>
      rw [if_neg kept] at covered
      exact within.keys old there covered key listed
  fresh row member later := by
    obtain ⟨old, there, rfl⟩ := (Keyed.mem_update (Statement.patch_id _ statement)).mp member
    split
    next chosen =>
      rw [covers_patch]
      exact Statement.covers_of_chosen carried chosen
    next kept =>
      rw [if_neg kept] at later
      exact within.fresh old there later
  later := within.later
  drawn := within.drawn
  read := within.read

/-! ## Objects -/

theorem Agree.setObjects {own : StorageKey → Prop} (agree : Agree access own world world')
    {objects objects' : Objects} (same : ∀ key, own key → objects key = objects' key) :
    Agree access own (world.setObjects objects) (world'.setObjects objects') :=
  ⟨agree.rows, same, agree.clock, agree.micros, agree.lastDeletionClaimAt, agree.nextId⟩

theorem Within.setObjects (within : Within access start past world) {objects : Objects}
    (same : ∀ key, ¬start.Own access key → objects key = world.objects key) :
    Within access start past (world.setObjects objects) :=
  ⟨within.others, fun key other => (same key other).trans (within.objects key other), within.keys,
    within.fresh, within.later, within.drawn, within.read⟩

theorem put_congr {objects objects' : Objects} {key other : StorageKey} (object : StoredObject)
    (same : objects other = objects' other) : objects.put key object other = objects'.put key object other := by
  unfold Objects.put
  rw [same]

theorem remove_congr {objects objects' : Objects} {key other : StorageKey}
    (same : objects other = objects' other) : objects.remove key other = objects'.remove key other := by
  unfold Objects.remove
  rw [same]

theorem removeAll_congr {objects objects' : Objects} {keys : List StorageKey} {other : StorageKey}
    (same : objects other = objects' other) :
    objects.removeAll keys other = objects'.removeAll keys other := by
  unfold Objects.removeAll
  rw [same]

/-! ## Calls -/

variable {deployment : Deployment} {worker : Worker} {call : Call}

/-- A query with an access reads the rows in its scope only. -/
theorem select_of_carried {keyText : StorageKey → String} {query : Query}
    (carried : query.access = some access) (rows : List Row) :
    query.select keyText rows = query.select keyText (rows.filter access.covers) := by
  have same : (rows.filter access.covers).filter (query.chosen keyText) =
      rows.filter (query.chosen keyText) := by
    rw [List.filter_filter]
    refine List.filter_congr fun row _ => ?_
    cases chosen : query.chosen keyText row with
    | true => rw [Query.covers_of_chosen carried chosen, Bool.and_self]
    | false => rw [Bool.false_and]
  unfold Query.select
  rw [same]

/-- Two worlds that agree answer a confined call alike and agree after it. -/
theorem agree_exec {own : StorageKey → Prop} (agree : Agree access own world world')
    (reaches : ∀ key, Reached past key → own key)
    (covered : ∀ id, (⟨.randomUUID, some id⟩ : Step sig) ∈ past → ∀ row, row ∈ world.table ∨
      row ∈ world'.table → row.id = id → access.covers row = true)
    (confined : Confined access past call) :
    (exec deployment world worker call).1 = (exec deployment world' worker call).1 ∧
      Agree access own (exec deployment world worker call).2
        (exec deployment world' worker call).2 := by
  cases call with
  | now => exact ⟨congrFun agree.clock _, agree⟩
  | nextDeletionClaim expected =>
      have same : world.claimAt worker.process expected = world'.claimAt worker.process expected := by
        unfold World.claimAt
        rw [agree.clock, agree.lastDeletionClaimAt]
      refine ⟨same, agree.rows, agree.objects, agree.clock, agree.micros, ?_, agree.nextId⟩
      simp only [exec, same, agree.lastDeletionClaimAt]
  | randomUUID =>
      exact ⟨agree.nextId, agree.rows, agree.objects, agree.clock, agree.micros, agree.lastDeletionClaimAt,
        congrArg (· + 1) agree.nextId⟩
  | findOne query =>
      refine ⟨congrArg List.head? ?_, agree⟩
      rw [select_of_carried confined world.table.rows, select_of_carried confined world'.table.rows]
      exact congrArg _ agree.rows
  | find query =>
      refine ⟨?_, agree⟩
      show query.select _ world.table.rows = query.select _ world'.table.rows
      rw [select_of_carried confined world.table.rows, select_of_carried confined world'.table.rows]
      exact congrArg _ agree.rows
  | save row =>
      obtain ⟨owns, drawn, -⟩ := confined
      have same : world.stamped row = world'.stamped row := by
        unfold World.stamped
        rw [agree.clock]
      have isCovered : access.covers (world'.stamped row) = true := Access.covers_of_owns owns
      refine ⟨same, ?_, agree.objects, agree.clock, agree.micros, agree.lastDeletionClaimAt, agree.nextId⟩
      simp only [exec, same]
      rw [Keyed.select_save isCovered fun other member isId => covered _ drawn other (.inl member) isId,
        Keyed.select_save isCovered fun other member isId => covered _ drawn other (.inr member) isId,
        agree.rows]
  | update statement => exact ⟨agree.affected confined, agree.apply statement⟩
  | transact statement count =>
      simp only [exec, agree.affected confined]
      split
      · exact ⟨rfl, agree.apply statement⟩
      · exact ⟨rfl, agree⟩
  | createUploadUrl =>
      exact ⟨rfl, agree.rows, agree.objects, agree.clock, agree.micros, agree.lastDeletionClaimAt, agree.nextId⟩
  | createDownloadUrl => exact ⟨rfl, agree⟩
  | headObject key =>
      refine ⟨?_, agree⟩
      show (world.objects key).map _ = (world'.objects key).map _
      rw [agree.objects key (reaches key confined)]
  | putObject key object =>
      simp only [exec, agree.objects key (reaches key confined)]
      cases world'.objects key with
      | some _ => exact ⟨rfl, agree⟩
      | none => exact ⟨rfl, agree.setObjects fun other isOwn =>
          put_congr object (agree.objects other isOwn)⟩
  | uploadSigned key object => exact confined.elim
  | copyObject source destination sourceEtag =>
      simp only [exec, agree.objects source (reaches source confined.1)]
      cases world'.objects source with
      | none => exact ⟨rfl, agree⟩
      | some object =>
          simp only []
          split
          · exact ⟨rfl, agree.setObjects fun other isOwn =>
              put_congr object (agree.objects other isOwn)⟩
          · exact ⟨rfl, agree⟩
  | link source destination =>
      simp only [exec, agree.objects source (reaches source confined.1),
        agree.objects destination (reaches destination confined.2)]
      cases world'.objects source with
      | none => exact ⟨rfl, agree⟩
      | some object =>
          cases world'.objects destination with
          | some _ => exact ⟨rfl, agree⟩
          | none => exact ⟨rfl, agree.setObjects fun other isOwn =>
              put_congr object (agree.objects other isOwn)⟩
  | unlink key =>
      simp only [exec, agree.objects key (reaches key confined)]
      cases world'.objects key with
      | none => exact ⟨rfl, agree⟩
      | some _ => exact ⟨rfl, agree.setObjects fun other isOwn =>
          remove_congr (agree.objects other isOwn)⟩
  | delete keys =>
      exact ⟨rfl, agree.setObjects fun other isOwn => removeAll_congr (agree.objects other isOwn)⟩
  | deleteObject key =>
      exact ⟨rfl, agree.setObjects fun other isOwn => remove_congr (agree.objects other isOwn)⟩
  | download key =>
      refine ⟨?_, agree⟩
      show (world.objects key).map _ = (world'.objects key).map _
      rw [agree.objects key (reaches key confined)]

/-- A confined call leaves what is outside the scope as it was. -/
theorem within_exec (within : Within access start past world) (confined : Confined access past call) :
    Within access start past (exec deployment world worker call).2 := by
  have apart : ∀ {key other : StorageKey}, Reached past key → ¬start.Own access other →
      other ≠ key := by
    rintro key other reached outside rfl
    exact outside (within.own reached)
  have puts : ∀ {key : StorageKey} (object : StoredObject), Reached past key →
      Within access start past (world.setObjects (world.objects.put key object)) :=
    fun object reached => within.setObjects fun other outside =>
      Objects.put_of_ne _ object (apart reached outside)
  have removes : ∀ {key : StorageKey}, Reached past key →
      Within access start past (world.setObjects (world.objects.remove key)) :=
    fun reached => within.setObjects fun other outside => Objects.remove_of_ne _ (apart reached outside)
  cases call with
  | now | findOne | find | createDownloadUrl | headObject | download => exact within
  | nextDeletionClaim expected =>
      exact ⟨within.others, within.objects, within.keys, within.fresh, within.later, within.drawn,
        within.read⟩
  | createUploadUrl =>
      exact ⟨within.others, within.objects, within.keys, within.fresh, within.later, within.drawn,
        within.read⟩
  | randomUUID =>
      exact ⟨within.others, within.objects, within.keys, within.fresh,
        Nat.le_succ_of_le within.later, within.drawn, within.read⟩
  | save row =>
      obtain ⟨owns, drawn, keyed⟩ := confined
      have isCovered : access.covers (world.stamped row) = true := Access.covers_of_owns owns
      refine ⟨?_, within.objects, fun other member covered key listed => ?_,
        fun other member later => ?_, within.later, within.drawn, within.read⟩
      · simp only [exec]
        rw [Keyed.select_save_unseen (by rw [isCovered]; rfl) fun other member same => ?_]
        · exact within.others
        · rw [within.covered drawn member same]
          rfl
      · rcases Keyed.mem_save.mp member with rfl | ⟨there, -⟩
        · refine .inr ?_
          rw [keyed key listed]
          exact within.drawn _ drawn
        · exact within.keys other there covered key listed
      · rcases Keyed.mem_save.mp member with rfl | ⟨there, -⟩
        · exact isCovered
        · exact within.fresh other there later
  | update statement => exact within.apply confined
  | transact statement count =>
      simp only [exec]
      split
      · exact within.apply confined
      · exact within
  | putObject key object =>
      simp only [exec]
      cases world.objects key with
      | some _ => exact within
      | none => exact puts object confined
  | uploadSigned key object => exact confined.elim
  | copyObject source destination sourceEtag =>
      simp only [exec]
      cases world.objects source with
      | none => exact within
      | some object =>
          simp only []
          split
          · exact puts object confined.2
          · exact within
  | link source destination =>
      simp only [exec]
      cases world.objects source with
      | none => exact within
      | some object =>
          cases world.objects destination with
          | some _ => exact within
          | none => exact puts object confined.2
  | unlink key =>
      simp only [exec]
      cases world.objects key with
      | none => exact within
      | some _ => exact removes confined
  | delete keys =>
      refine within.setObjects fun other outside => Objects.removeAll_of_not_mem _ fun listed => ?_
      exact outside (within.own (confined other listed))
  | deleteObject key => exact removes confined

/-! ## Steps -/

theorem Within.answered (within : Within access start past world) (confined : Confined access past call) :
    Within access start (⟨call, some (exec deployment world worker call).1⟩ :: past)
      (exec deployment world worker call).2 where
  others := (within_exec within confined).others
  objects := (within_exec within confined).objects
  keys := (within_exec within confined).keys
  fresh := (within_exec within confined).fresh
  later := (within_exec within confined).later
  drawn id member := by
    rcases List.mem_cons.mp member with same | older
    · have isCall : Call.randomUUID = call := congrArg Step.call same
      subst isCall
      obtain rfl : id = world.nextId := by simpa [exec] using same
      exact within.later
    · exact within.drawn id older
  read row read := by
    have selected : ∀ query : Query, query.access = some access →
        row ∈ query.select deployment.keyText world.table.rows →
          ∀ key ∈ row.keys, start.Own access key := by
      intro query carried found
      obtain ⟨member, chosen⟩ := Query.mem_of_mem_select found
      exact within.keys row member (Query.covers_of_chosen carried chosen)
    rcases read with ⟨query, member⟩ | ⟨query, rows, member, listed⟩
    · rcases List.mem_cons.mp member with same | older
      · have isCall : Call.findOne query = call := congrArg Step.call same
        subst isCall
        have found : (query.select deployment.keyText world.table.rows).head? = some row := by
          simpa [exec] using same.symm
        exact selected query confined (List.mem_of_head? found)
      · exact within.read row (.inl ⟨query, older⟩)
    · rcases List.mem_cons.mp member with same | older
      · have isCall : Call.find query = call := congrArg Step.call same
        subst isCall
        obtain rfl : rows = query.select deployment.keyText world.table.rows := by
          simpa [exec] using same
        exact selected query confined listed
      · exact within.read row (.inr ⟨query, rows, older, listed⟩)

theorem Within.threw (within : Within access start past world) (call : Call) :
    Within access start (⟨call, none⟩ :: past) world where
  others := within.others
  objects := within.objects
  keys := within.keys
  fresh := within.fresh
  later := within.later
  drawn id member := by
    rcases List.mem_cons.mp member with same | older
    · have isCall : Call.randomUUID = call := congrArg Step.call same
      subst isCall
      simp at same
    · exact within.drawn id older
  read row read := by
    rcases read with ⟨query, member⟩ | ⟨query, rows, member, listed⟩
    · rcases List.mem_cons.mp member with same | older
      · have isCall : Call.findOne query = call := congrArg Step.call same
        subst isCall
        simp at same
      · exact within.read row (.inl ⟨query, older⟩)
    · rcases List.mem_cons.mp member with same | older
      · have isCall : Call.find query = call := congrArg Step.call same
        subst isCall
        simp at same
      · exact within.read row (.inr ⟨query, rows, older, listed⟩)

/-- What may still take effect of a confined call that threw is confined. -/
theorem confined_residue (confined : Confined access past call) :
    ∀ rest ∈ residue call, Confined access past rest := by
  cases call with
  | delete keys =>
      intro rest listed
      obtain ⟨key, member, rfl⟩ := List.mem_map.mp listed
      exact confined key member
  | save | update | transact | putObject | uploadSigned | copyObject | link | unlink | deleteObject =>
      intro rest listed
      obtain rfl := List.mem_singleton.mp listed
      exact confined
  | _ =>
      intro rest listed
      cases listed

theorem agree_landAll (within : Within access start past world) {start' : World}
    (within' : Within access start' past world') (agree : Agree access (start.Own access) world world')
    {calls : List Call} (confined : ∀ call ∈ calls, Confined access past call) :
    Within access start past (landAll deployment worker world calls) ∧
      Within access start' past (landAll deployment worker world' calls) ∧
      Agree access (start.Own access) (landAll deployment worker world calls)
        (landAll deployment worker world' calls) := by
  induction calls generalizing world world' with
  | nil => exact ⟨within, within', agree⟩
  | cons call rest ih =>
      have first := confined call (List.mem_cons_self ..)
      refine ih (within_exec within first) (within_exec within' first) ?_
        fun other listed => confined other (List.mem_cons_of_mem _ listed)
      exact (agree_exec agree (fun key => within.own)
        (fun id drawn row member same => member.elim (fun there => within.covered drawn there same)
          fun there => within'.covered drawn there same) first).2

end

/-! ## Requests -/

/-- What a request answers, and the world it leaves. -/
def performed (config : Config) (worker : Worker) (faults : Faults) (program : Program sig Outcome)
    (world : World) : Outcome × World :=
  ((Program.run (serve config.toDeployment worker faults) program (Solo.mk world [])).1,
    (Program.run (serve config.toDeployment worker faults) program (Solo.mk world [])).2.world)

/-- Rows out of scope are as they were, and so are their objects. -/
structure LeftAlone (access : Access) (world after : World) : Prop where
  rows : after.table.select (fun row => !access.covers row) =
    world.table.select fun row => !access.covers row
  objects : ∀ row ∈ world.table, access.covers row = false → ∀ key ∈ row.keys,
    after.objects key = world.objects key

theorem Within.leftAlone {access : Access} {start world : World} {past : Past} (tidy : start.Tidy)
    (within : Within access start past world) : LeftAlone access start world where
  rows := within.others
  objects row member uncovered key listed := by
    refine within.objects key ?_
    rintro (⟨other, there, covered, shared⟩ | later)
    · have same := tidy.distinct row member other there key listed shared
      rw [Keyed.eq_of_key member there same, covered] at uncovered
      cases uncovered
    · exact absurd (tidy.keys row member key listed) (Nat.not_lt.mpr later)

/-- Two runs that started in `start` and `start'` and took the same steps. -/
structure Twin (access : Access) (start start' : World) (past : Past) (solo solo' : Solo) : Prop where
  log : solo.log = solo'.log
  within : Within access start past solo.world
  within' : Within access start' past solo'.world
  agree : Agree access (start.Own access) solo.world solo'.world

theorem twin_serve {access : Access} {start start' : World} {past : Past} {solo solo' : Solo} {call : Call}
    (deployment : Deployment) (worker : Worker) {faults : Faults} (possible : faults.Possible)
    (twin : Twin access start start' past solo solo') (confined : Confined access past call) :
    (serve deployment worker faults solo call).1 = (serve deployment worker faults solo' call).1 ∧
      (confinement access).credible ⟨call, (serve deployment worker faults solo call).1⟩ ∧
      Twin access start start' (⟨call, (serve deployment worker faults solo call).1⟩ :: past)
        (serve deployment worker faults solo call).2 (serve deployment worker faults solo' call).2 := by
  obtain ⟨log, within, within', agree⟩ := twin
  unfold serve
  rw [← log]
  cases fault : faults solo.log call with
  | none =>
      have stepped : (exec deployment solo.world worker call).1 =
            (exec deployment solo'.world worker call).1 ∧
          Agree access (start.Own access) (exec deployment solo.world worker call).2
            (exec deployment solo'.world worker call).2 :=
        agree_exec agree (fun key => within.own)
          (fun id drawn row member same => member.elim (fun there => within.covered drawn there same)
            fun there => within'.covered drawn there same) confined
      refine ⟨congrArg some stepped.1, ?_, ?_, within.answered confined, ?_, stepped.2⟩
      · cases call with
        | save row => exact ⟨_, rfl⟩
        | _ => trivial
      · simp only [stepped.1]
      · simp only [stepped.1]
        exact within'.answered confined
  | some landed =>
      have listed : ∀ rest ∈ landed, Confined access past rest := fun rest member =>
        confined_residue confined rest ((possible solo.log call landed fault).2.subset member)
      obtain ⟨after, after', agree'⟩ := agree_landAll within within' agree listed
      refine ⟨rfl, ?_, rfl, after.threw call, after'.threw call, agree'⟩
      cases call <;> trivial

/-- A request of a user has the same outcome in two worlds that agree on its scope and leaves them in
agreement; what is out of scope it leaves as it was. -/
theorem requests_isolated (config : Config) (worker : Worker) (faults : Faults)
    (possible : faults.Possible) (access : Access) (caller : Caller) (program : Program sig Outcome)
    (facing : Facing config caller program) (grants : caller.Grants access) (world world' : World)
    (tidy : world.Tidy) (tidy' : world'.Tidy) (agree : Agree access (world.Refers access) world world') :
    (performed config worker faults program world).1 =
        (performed config worker faults program world').1 ∧
      Agree access (world.Own access) (performed config worker faults program world).2
        (performed config worker faults program world').2 ∧
      LeftAlone access world (performed config worker faults program world).2 ∧
      LeftAlone access world' (performed config worker faults program world').2 := by
  have owned : Agree access (world.Own access) world world' := by
    refine ⟨agree.rows, fun key own => ?_, agree.clock, agree.micros, agree.lastDeletionClaimAt, agree.nextId⟩
    rcases own with refers | later
    · exact agree.objects key refers
    · rw [tidy.objects key later, tidy'.objects key (agree.nextId ▸ later)]
  have started : Twin access world world' [] ⟨world, []⟩ ⟨world', []⟩ :=
    ⟨rfl, within_start tidy, within_start tidy', owned⟩
  obtain ⟨same, past, -, twin⟩ := Program.run_related
    (Twin access world world') (fun _ _ _ _ => twin_serve config.toDeployment worker possible)
    (facing_confined facing grants) started
  exact ⟨same, twin.agree, twin.within.leftAlone tidy, twin.within'.leftAlone tidy'⟩

/-! ### A file of another tenant -/

/-- A file of the tenant `u`. -/
def foreignFile : Row where
  id := 1
  tenantCode := "u"
  departmentCode := none
  userId := 8
  fileName := "a.txt"
  fileSize := some 1
  sizeBytes := some 1
  contentType := some "text/plain"
  key := ⟨.tenant, "u", 1, "a.txt"⟩
  pendingKey := none
  cdn := "private"
  isUsed := false
  visibility := .privateFile
  status := .ready
  isTemporary := false
  uploadExpiredAt := none
  expiredAt := none
  completedAt := none
  disposition := .attachment
  checksum := none
  etag := none
  uploadPendingAt := none
  deletionPendingAt := none
  metadata := {}
  extraData := none
  createdAt := 0
  deletedAt := none

/-- A world with some rows and their objects. -/
def stocked (rows : List Row) (distinct : (rows.map Row.id).Nodup) : World :=
  { World.initial 0 with
    table := ⟨rows, distinct⟩
    objects := fun key => if key ∈ rows.flatMap Row.keys then some { body := [] } else none
    nextId := 2 }

def bareWorld : World := stocked [] List.nodup_nil

def foreignWorld : World := stocked [foreignFile] (List.nodup_singleton _)

theorem bareWorld_tidy : bareWorld.Tidy where
  ids _ member := absurd member List.not_mem_nil
  keys _ member := absurd member List.not_mem_nil
  objects _ _ := rfl
  distinct _ member := absurd member List.not_mem_nil

theorem foreignWorld_tidy : foreignWorld.Tidy where
  ids row member := by
    obtain rfl := List.mem_singleton.mp member
    decide
  keys row member key listed := by
    obtain rfl := List.mem_singleton.mp member
    obtain rfl := List.mem_singleton.mp listed
    decide
  objects key later := by
    refine if_neg fun listed => ?_
    obtain ⟨row, member, inside⟩ := List.mem_flatMap.mp listed
    obtain rfl := List.mem_singleton.mp member
    obtain rfl := List.mem_singleton.mp inside
    revert later
    decide
  distinct row member other there _ _ _ := by
    rw [List.mem_singleton.mp member, List.mem_singleton.mp there]

/-- The access of `smallCaller`. -/
def smallAccess : Access := ⟨.owner, ⟨"t", none, 7⟩⟩

theorem smallCaller_grants : smallCaller.Grants smallAccess := by
  rintro operation ids references granted ⟨⟩
  rfl

def deletion : Program sig Outcome := launch (smallConfig .s3) (.delete smallCaller ["a.txt"])

/-- Deleting by the key of the foreign file finds nothing and leaves the file. -/
theorem foreignFile_hidden :
    (performed (smallConfig .s3) ⟨0, 0⟩ .working deletion bareWorld).1 =
        (performed (smallConfig .s3) ⟨0, 0⟩ .working deletion foreignWorld).1 ∧
      LeftAlone smallAccess foreignWorld
        (performed (smallConfig .s3) ⟨0, 0⟩ .working deletion foreignWorld).2 := by
  have agree : Agree smallAccess (bareWorld.Refers smallAccess) bareWorld foreignWorld :=
    ⟨rfl, fun key ⟨row, member, _⟩ => absurd member List.not_mem_nil, rfl, rfl, rfl, rfl⟩
  obtain ⟨same, -, -, leftAlone⟩ := requests_isolated (smallConfig .s3) ⟨0, 0⟩ .working
    (fun _ _ _ wrong => by cases wrong) smallAccess smallCaller deletion (.request _ rfl) smallCaller_grants bareWorld foreignWorld bareWorld_tidy
    foreignWorld_tidy agree
  exact ⟨same, leftAlone⟩

end SdcoreNest.UploadedFile
