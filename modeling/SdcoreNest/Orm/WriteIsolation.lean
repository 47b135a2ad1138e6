/-
# Orm.WriteIsolation -- which rows a mutation leaves as they were

Criteria select rows in scope only, and inserts touch no row.  Two things get past that: `create`
saves, and `save` updates the row whose key the caller put on the entity, whoever owns it; and in
`{ id, ...scope }` a scoped column named `id` takes the place of the ids that the caller named.
-/
import SdcoreNest.Orm.MutationRuns

namespace SdcoreNest.Orm

open Theory JsString

set_option autoImplicit false
set_option linter.unusedSectionVars false

variable {Cell : Type}

namespace Repository

variable [DecidableEq Cell] (repository : Repository Cell)

/-! ## Imports -/

section Import

variable {repository}

theorem of_insertRows {rows : List (Row Cell)} {table table' : Table Cell}
    (done : insertRows table rows = .ok table') {other : Row Cell} (member : other ∈ table) :
    other ∈ table' := by
  induction rows generalizing table with
  | nil =>
      obtain rfl := Except.ok.inj done
      exact member
  | cons row rest ih =>
      unfold insertRows at done
      rw [List.foldlM_cons] at done
      obtain ⟨between, first, later⟩ := of_bind_ok done
      exact ih later (of_insertRow first member)

theorem grows_insertChunk (around : Surroundings Cell) (rows : List (Row Cell)) :
    Grows (insertChunk around rows) := by
  intro table row member
  unfold insertChunk
  rcases issue_cases around .insert _ table with ⟨failure, thrown⟩ | ⟨_, table', done, ran⟩
  · rw [thrown]
    exact member
  · rw [ran]
    cases inserts : insertRows table rows with
    | error failure =>
        rw [inserts] at done
        cases done
    | ok after =>
        rw [inserts] at done
        obtain ⟨-, rfl⟩ := Prod.mk.inj (Except.ok.inj done)
        exact of_insertRows inserts member

theorem grows_insertChunks (around : Surroundings Cell) (made : Nat) (chunks : List (List Record)) :
    Grows (repository.insertChunks around made chunks) := by
  induction chunks generalizing made with
  | nil => exact (quiet_pure _).grows
  | cons chunk rest ih =>
      exact (grows_insertChunk around _).bind fun _ => (ih _).bind fun _ => (quiet_pure _).grows

theorem grows_importAll (around : Surroundings Cell) (provided : Option Bool) (entities : List Record) :
    Grows (repository.importAll around provided entities) := by
  unfold importAll
  split
  · exact (quiet_pure _).grows
  · refine (quiet_lift _).grows.bind fun stamped => ?_
    intro table row member
    rcases withMutationRunner_cases around provided
      (repository.insertChunks around 0 (stamped.toChunks chunkSize)) table with undone | ⟨-, -, done⟩
    · rwa [undone]
    · rw [done]
      exact grows_insertChunks around 0 _ table row member

end Import

/-! ## What is kept -/

/-- Whatever else happens, the rows to be kept are in the table as they were. -/
def Keeps {α : Type} (kept : Row Cell → Prop) (mutation : Surroundings Cell → Work Cell α)
    (table : Table Cell) : Prop :=
  ∀ around row, row ∈ table → kept row → row ∈ ((mutation around).run table).2

def Outside (row : Row Cell) : Prop := ¬repository.InScope row

/-- The entity, audited and stamped, carries the key of a row outside the scope, and the row that is
written for it at some time, maintained columns and all, is not that row. -/
def Collides (provided : Option Bool) (entity : Record) (table : Table Cell) : Prop :=
  provided ≠ some false ∧ ∃ audited stamped row now, repository.onCreate entity = .ok audited ∧
    repository.fillTenancy audited = .ok stamped ∧ row ∈ table ∧ (row "id").isSome ∧
    row "id" = repository.identity stamped ∧ repository.Outside row ∧
    repository.resaved now stamped row ≠ row

/-- As many rows as ids, and among them one that is not named but would be changed. -/
def Strays (provided : Option Bool) (ids : Ids) (changed : Row Cell → Prop) (table : Table Cell) : Prop :=
  provided ≠ some false ∧ parseIds ids ≠ [] ∧ ∃ criteria,
    repository.mutationWhere ((parseIds ids).map .string) = .ok criteria ∧
    table.count (repository.selects criteria) = (parseIds ids).length ∧
    ∃ row ∈ table, repository.selects criteria row = true ∧
      ¬repository.Named ((parseIds ids).map .string) row ∧ changed row

/-- The same for an update, where the caller's own transaction keeps also what fails a check. -/
def StraysOnUpdate (provided : Option Bool) (entity : Record) (table : Table Cell) : Prop :=
  provided ≠ some false ∧ ∃ id patch criteria now, repository.Patches entity id patch criteria ∧
    (provided = none → repository.Settles now id patch criteria table) ∧
    ∃ row ∈ table, repository.selects criteria row = true ∧ ¬repository.Named [id] row ∧
      repository.patched now patch row ≠ row

/-- Where the id is no scoped column, criteria select named rows only. -/
theorem named_of_selects (plain : ∀ column ∈ repository.scopedColumns, column.propertyName ≠ "id")
    {ids : List Item} {criteria : Criteria} (built : repository.mutationWhere ids = .ok criteria)
    {row : Row Cell} (selected : repository.selects criteria row = true) : repository.Named ids row := by
  obtain ⟨conditions, isScope, rfl⟩ := mutationWhere_eq_ok built
  have kept : ("id", identified ids) ∈ spread [("id", identified ids)] conditions := by
    refine List.mem_append_left _ (List.mem_filter.mpr ⟨List.mem_singleton_self _, ?_⟩)
    rw [Bool.not_eq_true', ← Bool.not_eq_true, List.contains_iff_mem]
    intro named
    obtain ⟨condition, listed, same⟩ := List.mem_map.mp named
    obtain ⟨column, inside, isName⟩ := mem_scopeWhere isScope condition listed
    exact plain column inside (isName.symm.trans same)
  exact holds_identified.mp (List.all_eq_true.mp selected _ kept)

variable {repository}

/-- A row is in an updated table unless the update chose and changed it. -/
theorem mem_update_iff {table : Table Cell} {chosen : Row Cell → Bool} {patch : Row Cell → Row Cell}
    (keeps : ∀ row, patch row "id" = row "id") {row : Row Cell} (member : row ∈ table) :
    row ∈ table.update chosen patch keeps ↔ (chosen row = true → patch row = row) := by
  rw [Keyed.mem_update]
  constructor
  · rintro ⟨old, there, same⟩ selected
    have key : old "id" = row "id" := by
      rw [same]
      split
      · exact (keeps old).symm
      · rfl
    obtain rfl : old = row := Keyed.eq_of_key there member key
    rw [if_pos selected] at same
    exact same.symm
  · intro unchanged
    refine ⟨row, member, ?_⟩
    split
    next selected => exact (unchanged selected).symm
    next => rfl

/-- Nothing throws in these surroundings. -/
def calmly [Inhabited Cell] (now : Cell) : Surroundings Cell where
  throws _ := false
  commit := .done
  now := now
  generatedId _ := default
  defaults _ := none

theorem calm_calmly [Inhabited Cell] (now : Cell) : Calm (calmly now) := ⟨fun _ => rfl, rfl⟩

section Isolation

variable [Inhabited Cell] (provided : Option Bool) (table : Table Cell)

theorem keeps_create_iff (entity : Record) :
    Keeps repository.Outside (fun around => repository.create around provided entity) table ↔
      ¬repository.Collides provided entity table := by
  constructor
  · rintro keeps ⟨active, audited, stamped, row, now, isAudited, isStamped, member, keyed, carried,
      outside, changed⟩
    have kept := keeps (calmly now) row member outside
    rw [create_done repository (calm_calmly now) active isAudited isStamped member keyed carried,
      mem_update_iff _ member] at kept
    exact changed (kept (by simp))
  · intro apart around row member outside
    rcases create_cases around provided entity table with all |
      ⟨audited, stamped, old, active, isAudited, isStamped, there, keyed, carried, done⟩
    · exact all row member
    · rw [done, mem_update_iff _ member]
      intro same
      have key : row "id" = old "id" := by simpa using same
      obtain rfl : row = old := Keyed.eq_of_key member there key
      by_contra changed
      exact apart ⟨active, audited, stamped, row, around.now, isAudited, isStamped, member, keyed, carried,
        outside, changed⟩

theorem keeps_update (guarded : repository.Guarded) (entity : Record) :
    Keeps repository.Outside (fun around => repository.update around provided entity) table := by
  intro around row member outside
  rcases update_cases around provided entity table with same | ⟨id, patch, criteria, patches, -, -, done⟩
  · rwa [same]
  · rw [done, updated, mem_update_iff _ member]
    exact fun selected => absurd (inScope_of_mutationWhere guarded patches.built selected) outside

theorem keeps_unnamed_update_iff (entity : Record) :
    (∀ id, updatedId entity = .ok id → Keeps (fun row => ¬repository.Named [id] row)
        (fun around => repository.update around provided entity) table) ↔
      ¬repository.StraysOnUpdate provided entity table := by
  constructor
  · rintro keeps ⟨active, id, patch, criteria, now, patches, settles, row, member, selected, unnamed,
      changed⟩
    have kept := keeps id patches.identified (calmly now) row member unnamed
    rw [update_done repository (calm_calmly now) active patches settles, updated,
      mem_update_iff _ member] at kept
    exact changed (kept selected)
  · intro apart id isId around row member unnamed
    rcases update_cases around provided entity table with same |
      ⟨id', patch, criteria, patches, active, settles, done⟩
    · rwa [same]
    · rw [done, updated, mem_update_iff _ member]
      intro selected
      by_contra changed
      obtain rfl : id = id' := Except.ok.inj (isId.symm.trans patches.identified)
      exact apart ⟨active, id, patch, criteria, around.now, patches, settles, row, member, selected,
        unnamed, changed⟩

theorem keeps_delete (guarded : repository.Guarded) (ids : Ids) :
    Keeps repository.Outside (fun around => repository.delete around provided ids) table := by
  intro around row member outside
  rcases delete_cases around provided ids table with same | ⟨criteria, -, -, built, -, done⟩
  · rwa [same]
  · rw [done, Keyed.mem_discard]
    refine ⟨member, ?_⟩
    by_contra selected
    exact outside (inScope_of_mutationWhere guarded built (by simpa using selected))

theorem keeps_unnamed_delete_iff (ids : Ids) :
    Keeps (fun row => ¬repository.Named ((parseIds ids).map .string) row)
        (fun around => repository.delete around provided ids) table ↔
      ¬repository.Strays provided ids (fun _ => True) table := by
  constructor
  · rintro keeps ⟨active, present, criteria, built, all, row, member, selected, unnamed, -⟩
    have kept := keeps (calmly default) row member unnamed
    rw [delete_done repository (calm_calmly default) active present built all, Keyed.mem_discard] at kept
    rw [kept.2] at selected
    cases selected
  · intro apart around row member unnamed
    rcases delete_cases around provided ids table with same | ⟨criteria, active, present, built, all, done⟩
    · rwa [same]
    · rw [done, Keyed.mem_discard]
      refine ⟨member, ?_⟩
      by_contra selected
      exact apart ⟨active, present, criteria, built, all, row, member, by simpa using selected, unnamed,
        trivial⟩

theorem keeps_mark (guarded : repository.Guarded) (statement : Statement)
    (time : Surroundings Cell → Option Cell) (ids : Ids) :
    Keeps repository.Outside (fun around => repository.mark around provided statement (time around) ids)
      table := by
  intro around row member outside
  rcases mark_cases around provided statement (time around) ids table with same |
    ⟨criteria, -, -, built, -, done⟩
  · rwa [same]
  · rw [done, mem_update_iff _ member]
    exact fun selected => absurd (inScope_of_mutationWhere guarded built selected) outside

/-- `time` is what the statement makes of the time of its transaction. -/
theorem keeps_unnamed_mark_iff (statement : Statement) (time : Cell → Option Cell) (ids : Ids) :
    Keeps (fun row => ¬repository.Named ((parseIds ids).map .string) row)
        (fun around => repository.mark around provided statement (time around.now) ids) table ↔
      ¬repository.Strays provided ids (fun row => ∃ now, repository.marked now (time now) row ≠ row)
        table := by
  constructor
  · rintro keeps ⟨active, present, criteria, built, all, row, member, selected, unnamed, now, changed⟩
    have columned : repository.deleteDateColumn ≠ none := by
      intro absent
      exact changed (funext fun column => if_pos (.inr (by rw [absent]; rfl)))
    have kept := keeps (calmly now) row member unnamed
    rw [mark_done repository (calm_calmly now) active present built all columned,
      mem_update_iff _ member] at kept
    exact changed (kept selected)
  · intro apart around row member unnamed
    rcases mark_cases around provided statement (time around.now) ids table with same |
      ⟨criteria, active, present, built, all, done⟩
    · rwa [same]
    · rw [done, mem_update_iff _ member]
      intro selected
      by_contra changed
      exact apart ⟨active, present, criteria, built, all, row, member, selected, unnamed, around.now,
        changed⟩

/-- Every mutation and the rows it leaves alone. -/
theorem writes_isolated (guarded : repository.Guarded) :
    (∀ entity, Keeps repository.Outside (fun around => repository.create around provided entity) table ↔
      ¬repository.Collides provided entity table) ∧
    (∀ entities, Keeps repository.Outside (fun around => repository.importAll around provided entities)
      table) ∧
    (∀ entity, Keeps repository.Outside (fun around => repository.update around provided entity) table ∧
      ((∀ id, updatedId entity = .ok id → Keeps (fun row => ¬repository.Named [id] row)
        (fun around => repository.update around provided entity) table) ↔
          ¬repository.StraysOnUpdate provided entity table)) ∧
    (∀ ids, Keeps repository.Outside (fun around => repository.delete around provided ids) table ∧
      (Keeps (fun row => ¬repository.Named ((parseIds ids).map .string) row)
        (fun around => repository.delete around provided ids) table ↔
          ¬repository.Strays provided ids (fun _ => True) table)) ∧
    (∀ ids, Keeps repository.Outside (fun around => repository.softDelete around provided ids) table ∧
      (Keeps (fun row => ¬repository.Named ((parseIds ids).map .string) row)
        (fun around => repository.softDelete around provided ids) table ↔
          ¬repository.Strays provided ids
            (fun row => ∃ now, repository.marked now (some now) row ≠ row) table)) ∧
    (∀ ids, Keeps repository.Outside (fun around => repository.restore around provided ids) table ∧
      (Keeps (fun row => ¬repository.Named ((parseIds ids).map .string) row)
        (fun around => repository.restore around provided ids) table ↔
          ¬repository.Strays provided ids
            (fun row => ∃ now, repository.marked now none row ≠ row) table)) := by
  refine ⟨fun entity => keeps_create_iff provided table entity,
    fun entities around row member _ => grows_importAll around provided entities table row member,
    fun entity => ⟨keeps_update provided table guarded entity, keeps_unnamed_update_iff provided table entity⟩,
    fun ids => ⟨keeps_delete provided table guarded ids, keeps_unnamed_delete_iff provided table ids⟩,
    fun ids => ⟨keeps_mark provided table guarded .softDelete (fun around => some around.now) ids,
      keeps_unnamed_mark_iff provided table .softDelete some ids⟩,
    fun ids => ⟨keeps_mark provided table guarded .restore (fun _ => none) ids,
      keeps_unnamed_mark_iff provided table .restore (fun _ => none) ids⟩⟩

end Isolation

/-! ### A product of another tenant -/

/-- Values as cells; nothing is stored for nothing. -/
def plainStore (_ : String) : Value → Option Item
  | .item item => if item.isNullish then none else some item
  | .array _ => none

/-- Products of a tenant, for a request of the tenant `t1`. -/
def products : Repository Item where
  columns := ["id", "name", "tenantCode"]
  updatable _ := true
  versionColumn := none
  updateDateColumn := some "updatedAt"
  deleteDateColumn := some "deletedAt"
  scopedColumns := [⟨"tenantCode", true⟩]
  distinct := by simp
  strategy := some ⟨none, false, .scope [("tenantCode", .item (.string (js "t1")))]⟩
  onCreate := .ok
  onUpdate := .ok
  historyRecorder := false
  store := plainStore
  increment := id
  differs column value cell := plainStore column value ≠ cell

def foreignProduct : Row Item := fun column =>
  if column = "id" then some (.string (js "p")) else
  if column = "tenantCode" then some (.string (js "t2")) else none

def foreignProducts : Table Item := ⟨[foreignProduct], by simp⟩

theorem products_guarded : products.Guarded where
  columned := by simp [products]
  ungranted := by
    rintro strategy ⟨⟩
    simp

theorem foreignProduct_outside : products.Outside foreignProduct := by
  rintro ⟨scope, predicates, current, resolved, all⟩
  obtain rfl : [("tenantCode", Value.item (.string (js "t1")))] = scope :=
    Option.some.inj (Except.ok.inj current)
  have single : resolveScopePredicates [("tenantCode", Value.item (.string (js "t1")))]
      products.scopedColumns = .ok [⟨"tenantCode", true, .equal, [.string (js "t1")]⟩] := by rfl
  obtain rfl := Except.ok.inj (resolved.symm.trans single)
  obtain ⟨-, value, listed, same⟩ := all _ (List.mem_singleton_self _)
  rw [List.mem_singleton.mp listed] at same
  revert same
  decide

/-- A new product with a free id. -/
def newProduct : Record := [("id", .item (.string (js "q")))]

/-- A new product that the caller gave the id of the other tenant's. -/
def takenProduct : Record := [("id", .item (.string (js "p")))]

theorem fillTenancy_products (id : JsString) : products.fillTenancy [("id", .item (.string id))] =
    .ok [("id", .item (.string id)), ("tenantCode", .item (.string (js "t1")))] := by
  rfl

theorem newProduct_isolated :
    Keeps products.Outside (fun around => products.create around none newProduct) foreignProducts ∧
      Keeps products.Outside (fun around => products.delete around none (.text (js "p")))
        foreignProducts := by
  have isolated := writes_isolated none foreignProducts products_guarded
  refine ⟨(isolated.1 newProduct).mpr ?_, (isolated.2.2.2.1 _).1⟩
  rintro ⟨-, audited, stamped, row, _, isAudited, isStamped, member, -, carried, -⟩
  obtain rfl := Except.ok.inj isAudited
  obtain rfl := Except.ok.inj (isStamped.symm.trans (fillTenancy_products (js "q")))
  rw [List.mem_singleton.mp member] at carried
  revert carried
  decide

theorem takenProduct_moved :
    ¬Keeps products.Outside (fun around => products.create around none takenProduct) foreignProducts := by
  intro keeps
  have kept : foreignProduct ∈
      ((products.create (calmly .null) none takenProduct).run foreignProducts).2 :=
    keeps (calmly .null) foreignProduct (List.mem_singleton_self _) foreignProduct_outside
  have done : ((products.create (calmly .null) none takenProduct).run foreignProducts).2 = _ :=
    create_done products (calm_calmly .null) (by simp) rfl (fillTenancy_products (js "p"))
      (List.mem_singleton_self foreignProduct) rfl (by decide)
  rw [done, mem_update_iff _ (List.mem_singleton_self _)] at kept
  have same := congrFun (kept (by decide)) "tenantCode"
  revert same
  decide

end Repository

end SdcoreNest.Orm
