/-
# Orm.RelationPaths -- one relation, three names

The alias of a joined relation is derived three times: by the joins, for a filter on a path
through the relation, and for a sort on it.  Sorts agree with the joins.  Filters know the first
relation of a path only, and two paths may come to the same alias.
-/
import SdcoreNest.Orm.Injection
import SdcoreNest.Orm.Query

namespace SdcoreNest.Orm

open Theory

set_option autoImplicit false

/-! ## Paths and aliases -/

theorem aliasOf_of_undotted {part : Text} (undotted : '.' ∉ part) : aliasOf part = part := by
  have same : (part.map fun c => if c = '.' then '_' else c) = part.map id := by
    refine List.map_congr_left fun c member => ?_
    rw [if_neg]
    · rfl
    · rintro rfl
      exact undotted member
  rw [aliasOf, same, List.map_id]

/-- Dots between the parts become underscores. -/
theorem aliasOf_joinParts {parts : List Text} (undotted : ∀ part ∈ parts, '.' ∉ part) :
    aliasOf (joinParts '.' parts) = joinParts '_' parts := by
  induction parts with
  | nil => rfl
  | cons first rest ih =>
      obtain ⟨own, others⟩ := List.forall_mem_cons.mp undotted
      cases rest with
      | nil =>
          rw [joinParts, joinParts, List.intercalate_singleton, List.intercalate_singleton]
          exact aliasOf_of_undotted own
      | cons second rest =>
          have later := ih others
          rw [joinParts, joinParts, List.intercalate_cons_cons, List.intercalate_cons_cons]
          rw [joinParts, joinParts] at later
          rw [aliasOf, List.map_append, List.map_append]
          rw [aliasOf] at later
          rw [later]
          exact congrArg (· ++ ['_'] ++ _) (aliasOf_of_undotted own)

theorem aliasOf_eq_root {path : Text} : aliasOf path = ['e'] ↔ path = ['e'] := by
  constructor
  · intro same
    rw [aliasOf, List.map_eq_singleton_iff] at same
    obtain ⟨c, rfl, isRoot⟩ := same
    split at isRoot
    · cases isRoot
    · rw [isRoot]
  · rintro rfl
    rfl

theorem undotted_of_mem_partsOf {field part : Text} (member : part ∈ partsOf field) : '.' ∉ part := by
  induction field generalizing part with
  | nil =>
      obtain rfl := List.mem_singleton.mp member
      simp
  | cons c rest ih =>
      rw [partsOf, List.splitOn_cons_eq_if_modifyHead] at member
      split at member
      · rcases List.mem_cons.mp member with rfl | member
        · simp
        · exact ih member
      case isFalse differs =>
          cases parts : rest.splitOn '.' with
          | nil => exact absurd parts (List.splitOn_ne_nil '.' rest)
          | cons first others =>
              rw [parts, List.modifyHead_cons] at member
              have later (later : Text) (inside : later ∈ first :: others) : '.' ∉ later :=
                ih (by rw [partsOf, parts]; exact inside)
              rcases List.mem_cons.mp member with rfl | member
              · have own := later first List.mem_cons_self
                intro inside
                rcases List.mem_cons.mp inside with rfl | inside
                · simp at differs
                · exact own inside
              · exact later part (List.mem_cons_of_mem _ member)

/-! ## Joins -/

section Joins

variable {Entity : Type} {schema : Schema Entity} {scoping : Scoping Entity}

theorem of_joinRelation {target : Entity} {count : Nat} {relation : Text} {join : Join Entity}
    (joined : joinRelation schema scoping target count relation = .ok join) :
    join.path = relation ∧ join.table = aliasOf relation := by
  rw [joinRelation] at joined
  obtain ⟨entity, -, joined⟩ := of_bind_ok joined
  obtain ⟨condition, -, joined⟩ := of_bind_ok joined
  cases joined
  exact ⟨rfl, rfl⟩

theorem of_mapM_joinRelation {target : Entity} {count : Nat} {paths : List Text} {joins : List (Join Entity)}
    (joined : paths.mapM (joinRelation schema scoping target count) = .ok joins) :
    joins.map (fun join => (join.path, join.table)) = paths.map fun path => (path, aliasOf path) := by
  induction paths generalizing joins with
  | nil =>
      cases joined
      rfl
  | cons path rest ih =>
      rw [List.mapM_cons] at joined
      obtain ⟨first, isFirst, joined⟩ := of_bind_ok joined
      obtain ⟨others, areOthers, joined⟩ := of_bind_ok joined
      cases joined
      obtain ⟨isPath, isTable⟩ := of_joinRelation isFirst
      rw [List.map_cons, List.map_cons, ih areOthers, isPath, isTable]

/-- Every joined path has its alias, and nothing else is joined. -/
theorem joinRelations_tables {target : Entity} {relations : List Text} {joins : List (Join Entity)}
    (joined : joinRelations schema scoping target relations = .ok joins) :
    joins.map (fun join => (join.path, join.table)) =
      (relationPaths relations).map fun path => (path, aliasOf path) := of_mapM_joinRelation joined

theorem relationPaths_nodup (relations : List Text) : (relationPaths relations).Nodup :=
  Text.sort_nodup (List.nodup_dedup _)

theorem followRelations_of_relationMetadata {code : String} {target entity : Entity} {parts : List Text}
    (leads : relationMetadata schema target parts = .ok entity) :
    followRelations schema code (schema target) parts = .ok (schema entity) := by
  induction parts generalizing target with
  | nil =>
      cases leads
      rfl
  | cons part rest ih =>
      rw [relationMetadata] at leads
      rw [followRelations]
      cases found : (schema target).findRelationWithPropertyPath part with
      | none =>
          rw [found] at leads
          cases leads
      | some relation =>
          rw [found] at leads
          exact ih leads

/-! ## References -/

/-- A path `r1…rk.c`, `k ≥ 1`, that leads over relations to an entity and a column of it. -/
structure LeadsTo (schema : Schema Entity) (target : Entity) (field : Text) (relations : List Text)
    (entity : Entity) (name : Text) (column : ColumnMetadata) : Prop where
  parts : partsOf field = relations ++ [name]
  nested : relations ≠ []
  reached : relationMetadata schema target relations = .ok entity
  found : (schema entity).findColumnWithPropertyName name = some column

/-- The column in the database that a path of properties comes to; an unknown path stays as it is. -/
def EntityMetadata.databaseNameAt (metadata : EntityMetadata Entity) (path : Text) : Text :=
  orElse (((metadata.findColumnWithPropertyPath path).map ColumnMetadata.databaseName).getD []) path

theorem LeadsTo.undotted {target entity : Entity} {field name : Text} {relations : List Text}
    {column : ColumnMetadata} (leads : LeadsTo schema target field relations entity name column) :
    ∀ part ∈ relations, '.' ∉ part := by
  intro part member
  apply undotted_of_mem_partsOf
  rw [leads.parts]
  exact List.mem_append_left _ member

/-- A sort on the path names the alias of the join. -/
theorem resolveSortColumn_of_leadsTo {target entity : Entity} {field name : Text} {relations : List Text}
    {column : ColumnMetadata} (leads : LeadsTo schema target field relations entity name column)
    (safe : isSafeField field = true) :
    resolveSortColumn schema (schema target) "e" field =
      .ok ⟨aliasOf (joinParts '.' relations), column.propertyPath⟩ := by
  have reached := leads.reached
  rw [aliasOf_joinParts leads.undotted, resolveSortColumn, if_neg (by simp [safe]), leads.parts]
  obtain ⟨first, rest, rfl⟩ : ∃ first rest, relations = first :: rest :=
    List.exists_cons_of_ne_nil leads.nested
  rw [relationMetadata] at reached
  split at reached
  · cases reached
  case h_2 relation found =>
      have follows : followRelations schema "core.repository.relation-not-found-in"
          (schema relation.inverse) rest = .ok (schema entity) :=
        followRelations_of_relationMetadata reached
      obtain ⟨second, others, split⟩ : ∃ second others, rest ++ [name] = second :: others := by
        cases rest with
        | nil => exact ⟨name, [], rfl⟩
        | cons second others => exact ⟨second, others ++ [name], rfl⟩
      have init : (second :: others).dropLast = rest := by rw [← split, List.dropLast_concat]
      have last : (second :: others).getLastD [] = name := by rw [← split, List.getLastD_concat]
      simp only [List.cons_append, split, found, init, last, follows, bind, Except.bind, findSortColumn,
        leads.found]

/-- The reference to a column of a joined table. -/
def joinedColumn (table : Text) (column : ColumnMetadata) : Sql :=
  quoteIdentifier table ++ code "." ++ quoteIdentifier column.databaseName

/-- The first relation of the path is not the name of a JSON column as well. -/
def NotJson (metadata : EntityMetadata Entity) (relations : List Text) : Prop :=
  ∀ own, metadata.findColumnWithPropertyName (relations.headD []) = some own → isJson own = false

/-- What a filter on the path refers to. -/
theorem resolveColumnName_of_leadsTo {target entity : Entity} {field name first : Text} {rest : List Text}
    {column : ColumnMetadata} (leads : LeadsTo schema target field (first :: rest) entity name column)
    (safe : isSafeField field = true) (notJson : NotJson (schema target) (first :: rest)) :
    ∃ child, resolveColumnName schema (schema target) "e" field =
        .ok (quoteIdentifier first ++ code "." ++ quoteIdentifier child) ∧
      (rest = [] → child = (schema entity).databaseNameAt name) := by
  have reached := leads.reached
  rw [relationMetadata] at reached
  split at reached
  · cases reached
  case h_2 relation found =>
      obtain ⟨second, others, split⟩ : ∃ second others, rest ++ [name] = second :: others := by
        cases rest with
        | nil => exact ⟨name, [], rfl⟩
        | cons second others => exact ⟨second, others ++ [name], rfl⟩
      have parts : partsOf field = first :: second :: others := by
        rw [leads.parts, List.cons_append, split]
      have resolved : resolveColumnName schema (schema target) "e" field =
          .ok (resolveColumnName.viaRelation schema (schema target) "e" field first (second :: others)) := by
        rw [resolveColumnName, if_neg (by simp [safe]), parts]
        cases own : (schema target).findColumnWithPropertyName first with
        | none => simp only [own]
        | some column =>
            simp only [own]
            rw [if_neg (by simp [notJson column own])]
      refine ⟨(schema relation.inverse).databaseNameAt (joinParts '.' (second :: others)), ?_, ?_⟩
      · rw [resolved]
        unfold resolveColumnName.viaRelation
        rw [found]
        rfl
      · rintro rfl
        obtain ⟨rfl, rfl⟩ : name = second ∧ [] = others := by simpa using split
        obtain rfl : relation.inverse = entity := by
          cases reached
          rfl
        have joined : joinParts '.' [name] = name := List.intercalate_singleton
        rw [joined]

/-- Different names are quoted differently. -/
theorem quoteIdentifier_inj {name other : Text} (same : quoteIdentifier name = quoteIdentifier other) :
    name = other := by
  rw [quoteIdentifier, quoteIdentifier, List.cons.injEq, Piece.identifier.injEq] at same
  obtain ⟨same, -⟩ := same
  induction name generalizing other with
  | nil =>
      cases other with
      | nil => rfl
      | cons c rest =>
          rw [List.flatMap_nil, List.flatMap_cons] at same
          split at same <;> cases same
  | cons c rest ih =>
      cases other with
      | nil =>
          rw [List.flatMap_nil, List.flatMap_cons] at same
          split at same <;> cases same
      | cons d others =>
          rw [List.flatMap_cons, List.flatMap_cons] at same
          -- a doubled quote begins unlike any other character
          split at same <;> split at same <;> rename_i isQuote isOther
          · rw [isQuote, isOther, ih (by simpa using same)]
          · exact absurd (by simpa using (List.cons.inj same).1.symm) isOther
          · exact absurd (by simpa using (List.cons.inj same).1) isQuote
          · obtain ⟨rfl, later⟩ : c = d ∧ _ := by simpa using same
            rw [ih later]

theorem quoteIdentifier_append (text others : Text) :
    (text ++ others).flatMap (fun c => if c = '"' then ['"', '"'] else [c]) =
      (text.flatMap fun c => if c = '"' then ['"', '"'] else [c]) ++
        others.flatMap fun c => if c = '"' then ['"', '"'] else [c] := List.flatMap_append

/-- The alias of a longer path is longer than the name of its first relation. -/
theorem aliasOf_ne_first {first second : Text} {rest : List Text}
    (undotted : ∀ part ∈ first :: second :: rest, '.' ∉ part) :
    quoteIdentifier (aliasOf (joinParts '.' (first :: second :: rest))) ≠ quoteIdentifier first := by
  rw [aliasOf_joinParts undotted, joinParts, List.intercalate_cons_cons]
  intro same
  rw [quoteIdentifier, quoteIdentifier, List.cons.injEq, Piece.identifier.injEq, List.append_assoc,
    quoteIdentifier_append, quoteIdentifier_append] at same
  have lengths := congrArg List.length same.1
  simp at lengths

/-- A filter on the path refers to the joined table just when the path has one relation, whose name
is no JSON column, the field is accepted and the column is found by its path as well. -/
theorem resolveColumnName_leadsTo_iff {target entity : Entity} {field name : Text} {relations : List Text}
    {column : ColumnMetadata} (leads : LeadsTo schema target field relations entity name column) :
    resolveColumnName schema (schema target) "e" field =
        .ok (joinedColumn (aliasOf (joinParts '.' relations)) column) ↔
      isSafeField field = true ∧ relations.length = 1 ∧ NotJson (schema target) relations ∧
        (schema entity).databaseNameAt name = column.databaseName := by
  obtain ⟨first, rest, rfl⟩ : ∃ first rest, relations = first :: rest :=
    List.exists_cons_of_ne_nil leads.nested
  constructor
  · intro resolved
    have safe : isSafeField field = true := by
      by_contra unsafeField
      rw [resolveColumnName, if_pos (by simpa using unsafeField)] at resolved
      cases resolved
    have notJson : NotJson (schema target) (first :: rest) := by
      intro own found
      by_contra json
      have json : isJson own = true := by simpa using json
      obtain ⟨second, others, split⟩ : ∃ second others, rest ++ [name] = second :: others := by
        cases rest with
        | nil => exact ⟨name, [], rfl⟩
        | cons second others => exact ⟨second, others ++ [name], rfl⟩
      have parts : partsOf field = first :: second :: others := by
        rw [leads.parts, List.cons_append, split]
      rw [resolveColumnName, if_neg (by simp [safe]), parts] at resolved
      simp only [List.headD_cons] at found
      simp only [found, json, if_true, Except.ok.injEq] at resolved
      simp [joinedColumn, code, quoteIdentifier] at resolved
    obtain ⟨child, isChild, isColumn⟩ := resolveColumnName_of_leadsTo leads safe notJson
    cases rest with
    | nil =>
        rw [isChild, Except.ok.injEq, joinedColumn] at resolved
        have same : quoteIdentifier child = quoteIdentifier column.databaseName := by
          simpa [quoteIdentifier, code] using congrArg List.tail resolved
        exact ⟨safe, rfl, notJson, by rw [← isColumn rfl, quoteIdentifier_inj same]⟩
    | cons second rest =>
        exfalso
        rw [isChild, Except.ok.injEq, joinedColumn] at resolved
        apply aliasOf_ne_first leads.undotted
        simpa [quoteIdentifier, code] using (List.cons.inj resolved).1.symm
  · rintro ⟨safe, single, notJson, byPath⟩
    obtain rfl : rest = [] := List.eq_nil_of_length_eq_zero (by simpa using single)
    obtain ⟨child, isChild, isColumn⟩ := resolveColumnName_of_leadsTo leads safe notJson
    have own : aliasOf (joinParts '.' [first]) = first := by
      rw [aliasOf_joinParts leads.undotted]
      exact List.intercalate_singleton
    rw [isChild, isColumn rfl, byPath, joinedColumn, own]

/-! ## Agreement -/

/-- A filter and a sort on the path name the column of the table joined for it, and no two joins
share an alias, or have that of the root. -/
structure Agrees (schema : Schema Entity) (target : Entity) (joins : List (Join Entity)) (field : Text)
    (relations : List Text) (column : ColumnMetadata) : Prop where
  named : ∃ join ∈ joins, join.path = joinParts '.' relations ∧
    resolveColumnName schema (schema target) "e" field = .ok (joinedColumn join.table column) ∧
    resolveSortColumn schema (schema target) "e" field = .ok ⟨join.table, column.propertyPath⟩
  distinct : (joins.map Join.table).Nodup
  root : ['e'] ∉ joins.map Join.table

theorem pathAgrees_iff (schema : Schema Entity) (scoping : Scoping Entity) {target entity : Entity}
    {joined : List Text}
    {joins : List (Join Entity)} {field name : Text} {relations : List Text} {column : ColumnMetadata}
    (isJoined : joinRelations schema scoping target joined = .ok joins)
    (leads : LeadsTo schema target field relations entity name column)
    (member : joinParts '.' relations ∈ relationPaths joined) :
    Agrees schema target joins field relations column ↔
      isSafeField field = true ∧ relations.length = 1 ∧ NotJson (schema target) relations ∧
        (schema entity).databaseNameAt name = column.databaseName ∧
        (∀ path ∈ relationPaths joined, ∀ other ∈ relationPaths joined,
          aliasOf path = aliasOf other → path = other) ∧
        ['e'] ∉ relationPaths joined := by
  have tables := joinRelations_tables isJoined
  have tables' : joins.map Join.table = (relationPaths joined).map aliasOf := by
    simpa [Function.comp_def] using congrArg (List.map Prod.snd) tables
  have rootless : ['e'] ∉ joins.map Join.table ↔ ['e'] ∉ relationPaths joined := by
    rw [tables', List.mem_map, not_iff_not]
    constructor
    · rintro ⟨path, inside, same⟩
      rwa [← aliasOf_eq_root.mp same]
    · intro inside
      exact ⟨['e'], inside, rfl⟩
  have apart : (joins.map Join.table).Nodup ↔ ∀ path ∈ relationPaths joined,
      ∀ other ∈ relationPaths joined, aliasOf path = aliasOf other → path = other := by
    rw [tables', List.nodup_map_iff_inj_on (relationPaths_nodup joined)]
  constructor
  · rintro ⟨⟨join, inside, isPath, filtered, -⟩, distinct, root⟩
    have isTable : join.table = aliasOf (joinParts '.' relations) := by
      have pair : (join.path, join.table) ∈ (relationPaths joined).map fun path => (path, aliasOf path) := by
        rw [← tables]
        exact List.mem_map_of_mem inside
      obtain ⟨path, -, same⟩ := List.mem_map.mp pair
      obtain ⟨samePath, sameTable⟩ := Prod.mk.inj same
      rw [← sameTable, samePath, isPath]
    rw [isTable] at filtered
    obtain ⟨safe, single, notJson, byPath⟩ := (resolveColumnName_leadsTo_iff leads).mp filtered
    exact ⟨safe, single, notJson, byPath, apart.mp distinct, rootless.mp root⟩
  · rintro ⟨safe, single, notJson, byPath, distinct, root⟩
    refine ⟨?_, apart.mpr distinct, rootless.mpr root⟩
    obtain ⟨join, inside, same⟩ : ∃ join ∈ joins, (join.path, join.table) =
        (joinParts '.' relations, aliasOf (joinParts '.' relations)) := by
      have pair : (joinParts '.' relations, aliasOf (joinParts '.' relations)) ∈
          joins.map fun join => (join.path, join.table) := by
        rw [tables]
        exact List.mem_map_of_mem member
      obtain ⟨join, inside, same⟩ := List.mem_map.mp pair
      exact ⟨join, inside, same⟩
    obtain ⟨isPath, isTable⟩ := Prod.mk.inj same
    refine ⟨join, inside, isPath, ?_, ?_⟩
    · rw [isTable]
      exact (resolveColumnName_leadsTo_iff leads).mpr ⟨safe, single, notJson, byPath⟩
    · rw [isTable]
      exact resolveSortColumn_of_leadsTo leads safe

end Joins

/-! ### Poles -/

def columnC : ColumnMetadata := ⟨['c'], ['c'], ['c'], .other, false⟩

/-- Entities in a chain: each has the relation `r` to the next, and the column `c`. -/
def chained : Schema Nat := fun entity =>
  ⟨[columnC], [⟨['r'], [], entity + 1⟩]⟩

def chainScoping : Scoping Nat := ⟨fun _ => [], fun _ => .ok none⟩

theorem firstRelation_agrees : LeadsTo chained 0 "r.c".toList [['r']] 1 ['c'] columnC ∧
    Agrees chained 0 [⟨['r'], ['r'], ['e'], ['r'], 1, []⟩] "r.c".toList [['r']] columnC := by
  have leads : LeadsTo chained 0 "r.c".toList [['r']] 1 ['c'] columnC :=
    ⟨rfl, by simp, rfl, rfl⟩
  have paths : relationPaths [['r']] = [['r']] := rfl
  have joined : joinRelations chained chainScoping 0 [['r']] = .ok [⟨['r'], ['r'], ['e'], ['r'], 1, []⟩] := rfl
  have member : joinParts '.' [['r']] ∈ relationPaths [['r']] := by
    rw [paths]
    exact List.mem_singleton_self _
  refine ⟨leads, (pathAgrees_iff chained chainScoping joined leads member).mpr ⟨rfl, rfl, ?_, rfl, ?_, ?_⟩⟩
  · intro own found
    cases found
  · rw [paths]
    intro path member other inside _
    rw [List.mem_singleton.mp member, List.mem_singleton.mp inside]
  · rw [paths]
    simp

/-- A filter on `r.r.c` names the table joined for `r`. -/
theorem secondRelation_differs :
    LeadsTo chained 0 "r.r.c".toList [['r'], ['r']] 2 ['c'] columnC ∧
    ∃ joins, joinRelations chained chainScoping 0 ["r.r".toList] = .ok joins ∧
      ¬ Agrees chained 0 joins "r.r.c".toList [['r'], ['r']] columnC := by
  refine ⟨⟨rfl, by simp, rfl, rfl⟩,
    [⟨['r'], ['r'], ['e'], ['r'], 1, []⟩, ⟨"r.r".toList, "r_r".toList, ['r'], ['r'], 2, []⟩], rfl, ?_⟩
  rintro ⟨⟨join, inside, isPath, filtered, -⟩, -, -⟩
  have refers : resolveColumnName chained (chained 0) "e" "r.r.c".toList =
      .ok (quoteIdentifier ['r'] ++ code "." ++ quoteIdentifier "r.c".toList) := rfl
  rw [refers, Except.ok.injEq, joinedColumn] at filtered
  have tail := congrArg List.tail filtered
  simp [quoteIdentifier, code, columnC] at tail

end SdcoreNest.Orm
