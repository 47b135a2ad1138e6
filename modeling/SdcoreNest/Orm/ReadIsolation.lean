/-
# Orm.ReadIsolation -- reads stay within the scope

Every read filters the rows of its target by the scope, in ANDs with whatever the caller asks for,
and every join demands the scope of the joined entity in its condition.  So nothing outside of the
scope is returned, and nothing that is returned depends on what is outside.

* `inScope_of_filters`, `inScope_of_join` -- what the two conditions say;
* `Read.isolates` -- the query of each of the six reads has them;
* `reads_isolated` -- whole reads, over two databases.
-/
import SdcoreNest.Orm.Reads
import SdcoreNest.Orm.Fragments
import SdcoreNest.Orm.ScopeAgreement

namespace SdcoreNest.Orm

open Theory

set_option autoImplicit false

/-! ## Scopes of rows -/

section Scopes

variable {Cell Entity : Type} (db : Database Cell) (schema : Schema Entity) (scoping : Scoping Entity)

/-- The value in the column of a predicate meets it. -/
def admits (metadata : EntityMetadata Entity) (stored : Stored Cell) (predicate : ResolvedScopePredicate) :
    Bool :=
  (metadata.findColumnWithPropertyName predicate.propertyName.toList).any fun mapped =>
    decide (predicate.truth db (stored mapped.databaseName) = some true)

/-- The row satisfies every scope predicate of its entity.  An entity without scoped columns has
none; nothing is in a scope that can not be resolved; a bypass lets everything in. -/
def inScope (entity : Entity) (stored : Stored Cell) : Bool :=
  if (scoping.scopedColumns entity).isEmpty then true
  else
    match scoping.currentScope entity with
    | .error _ => false
    | .ok none => true
    | .ok (some scope) =>
        match resolveScopePredicates scope (scoping.scopedColumns entity) with
        | .error _ => false
        | .ok predicates => predicates.all (admits db (schema entity) stored)

theorem admits_iff {metadata : EntityMetadata Entity} {stored : Stored Cell}
    {predicate : ResolvedScopePredicate} :
    admits db metadata stored predicate = true ↔ Admits db metadata stored predicate := by
  unfold admits Admits
  rw [Option.any_eq_true]
  simp only [decide_eq_true_eq]

end Scopes

section

variable {Cell Entity : Type} {db : Database Cell} {host : Host} {schema : Schema Entity}
  {scoping : Scoping Entity} {draws : Nat → Text} {target entity : Entity}

/-- What has to be shown of a row, once the scope of its entity was resolved. -/
theorem inScope_of_resolved {stored : Stored Cell}
    (known : (scoping.scopedColumns entity).isEmpty = false →
      ∃ scope?, scoping.currentScope entity = .ok scope? ∧ ∀ scope, scope? = some scope →
        ∃ predicates, resolveScopePredicates scope (scoping.scopedColumns entity) = .ok predicates ∧
          ∀ predicate ∈ predicates, Admits db (schema entity) stored predicate) :
    inScope db schema scoping entity stored = true := by
  unfold inScope
  split
  · rfl
  · rename_i scoped_
    obtain ⟨scope?, current, resolved⟩ := known (by simpa using scoped_)
    rw [current]
    cases scope? with
    | none => rfl
    | some scope =>
        obtain ⟨predicates, isResolved, admitted⟩ := resolved scope rfl
        simp only [isResolved]
        exact List.all_eq_true.mpr fun predicate listed => (admits_iff db).mpr (admitted predicate listed)

/-! ## Joins -/

/-- The conditions that the loop collects say what the predicates say. -/
theorem relationConditions_admits {metadata : EntityMetadata Entity} {table stem : Text}
    {predicates : List ResolvedScopePredicate} {index : Nat} {conditions wheres : Wheres}
    (built : relationConditions metadata table stem predicates index conditions = .ok wheres)
    (ands : Ands conditions) :
    Ands wheres ∧ ∀ stored row, Shows (joinReference table) stored row →
      (∀ condition ∈ wheres, evalCondition db row condition.2 = some true) →
      (∀ condition ∈ conditions, evalCondition db row condition.2 = some true) ∧
        ∀ predicate ∈ predicates, Admits db metadata stored predicate := by
  induction predicates generalizing index conditions with
  | nil =>
      cases built
      exact ⟨ands, fun _ _ _ hold => ⟨hold, nofun⟩⟩
  | cons predicate rest ih =>
      rw [relationConditions] at built
      obtain ⟨condition, isCondition, built⟩ := of_bind_ok built
      cases found : metadata.findColumnWithPropertyName predicate.propertyName.toList with
      | none =>
          rw [relationPredicate, found] at isCondition
          cases isCondition
      | some mapped =>
          rw [relationPredicate_eq found index] at isCondition
          have means (stored : Stored Cell) (row : Sql → Option Cell)
              (shows : Shows (joinReference table) stored row)
              (holds : evalCondition db row condition = some true) : Admits db metadata stored predicate := by
            rw [← Except.ok.inj isCondition, ResolvedScopePredicate.eval_condition, shows] at holds
            exact ⟨mapped, found, holds⟩
          by_cases never : condition = .never
          · subst never
            cases built
            refine ⟨by simp [Ands], fun stored row shows hold => ?_⟩
            have holds := hold _ (List.mem_singleton_self _)
            rw [evalCondition] at holds
            cases holds
          · have continued : relationConditions metadata table stem rest (index + 1)
                (conditions ++ [(.and, condition)]) = .ok wheres := by
              rw [← built]
              cases condition <;> first | rfl | exact absurd rfl never
            obtain ⟨whole, later⟩ := ih continued (ands.append (by simp [Ands]))
            refine ⟨whole, fun stored row shows hold => ?_⟩
            obtain ⟨before, others⟩ := later stored row shows hold
            rw [List.forall_mem_append, List.forall_mem_singleton] at before
            exact ⟨before.1, List.forall_mem_cons.mpr ⟨means stored row shows before.2, others⟩⟩

/-- A row that meets the condition of a join is in scope. -/
theorem inScope_of_join {table stem : Text} {condition : Wheres}
    (built : relationScope schema scoping entity table stem = .ok condition) {stored : Stored Cell}
    {row : Sql → Option Cell} (shows : Shows (joinReference table) stored row)
    (holds : evalCondition db row (.brackets condition) = some true) :
    inScope db schema scoping entity stored = true := by
  refine inScope_of_resolved fun scoped_ => ?_
  rw [relationScope, if_neg (by simp [scoped_])] at built
  obtain ⟨scope?, current, built⟩ := of_bind_ok built
  refine ⟨scope?, current, ?_⟩
  rintro scope rfl
  obtain ⟨predicates, resolved, built⟩ := of_bind_ok built
  obtain ⟨ands, means⟩ := @relationConditions_admits Cell Entity db _ _ _ _ _ _ _ built (by simp [Ands])
  exact ⟨predicates, resolved, (means stored row shows ((brackets_eq_true db row ands).mp holds)).2⟩

/-! ## Filters -/

/-- A property that is a column of the entity. -/
structure EntityMetadata.Declares (metadata : EntityMetadata Entity) (name : String)
    (mapped : ColumnMetadata) : Prop where
  byName : metadata.findColumnWithPropertyName name.toList = some mapped
  named : mapped.databaseName ≠ []
  nonempty : name.toList ≠ []
  undotted : '.' ∉ name.toList

/-- What a filter on the property refers to, if its name is accepted. -/
theorem EntityMetadata.Declares.reference {metadata : EntityMetadata Entity} {name : String}
    {mapped : ColumnMetadata} (declares : metadata.Declares name mapped) {column : Sql}
    (isColumn : resolveColumnName schema metadata "e" name.toList = .ok column) :
    column = rootReference mapped.databaseName := by
  rw [resolveColumnName] at isColumn
  split at isColumn
  · cases isColumn
  · rw [partsOf_of_undotted declares.undotted] at isColumn
    simp only [declares.byName] at isColumn
    rw [orElse, if_neg (by simpa using declares.named)] at isColumn
    exact (Except.ok.inj isColumn).symm

/-- The filter of a predicate, where it is accepted. -/
theorem applyFilterToQuery_admits {metadata : EntityMetadata Entity} {predicate : ResolvedScopePredicate}
    (declares : ∃ mapped, metadata.Declares predicate.propertyName mapped)
    (scalars : ∀ value ∈ predicate.values, value.isScalar = true)
    (single : predicate.operator = .equal → predicate.values ≠ []) {idx : Count} {draw n : Nat} {wheres : Wheres}
    (built : applyFilterToQuery host schema metadata "e" draws (scopeFilter predicate) idx draw =
      .ok (wheres, n)) {stored : Stored Cell} {row : Sql → Option Cell}
    (shows : Shows rootReference stored row)
    (hold : ∀ condition ∈ wheres, evalCondition db row condition.2 = some true) :
    Admits db metadata stored predicate := by
  obtain ⟨mapped, isMapped⟩ := declares
  have leaf : ∃ leaf : Leaf, scopeFilter predicate = .leaf leaf ∧
      leaf.name = predicate.propertyName.toList := by
    unfold scopeFilter
    cases predicate.operator <;> exact ⟨_, rfl, rfl⟩
  obtain ⟨leaf, isLeaf, named⟩ := leaf
  have steps := built
  rw [isLeaf, applyFilterToQuery] at steps
  obtain ⟨_, valid, steps⟩ := of_bind_ok steps
  rw [applyLeaf, named, if_neg (by simpa using isMapped.nonempty)] at steps
  obtain ⟨column, isColumn, -⟩ := of_bind_ok steps
  rw [applyFilterToQuery_scope (isLeaf ▸ valid) isMapped.nonempty isColumn scalars single] at built
  cases built
  have holds := hold _ (List.mem_singleton_self _)
  rw [ResolvedScopePredicate.eval_condition, isMapped.reference isColumn, shows] at holds
  exact ⟨mapped, isMapped.byName, holds⟩

theorem applyFilters_admits {metadata : EntityMetadata Entity} {predicates : List ResolvedScopePredicate}
    (declares : ∀ predicate ∈ predicates, ∃ mapped, metadata.Declares predicate.propertyName mapped)
    (scalars : ∀ predicate ∈ predicates, ∀ value ∈ predicate.values, value.isScalar = true)
    (single : ∀ predicate ∈ predicates, predicate.operator = .equal → predicate.values ≠ [])
    {i draw n : Nat} {wheres : Wheres}
    (built : applyFilters host schema metadata "e" draws (predicates.map scopeFilter) i draw =
      .ok (wheres, n)) {stored : Stored Cell} {row : Sql → Option Cell}
    (shows : Shows rootReference stored row)
    (hold : ∀ condition ∈ wheres, evalCondition db row condition.2 = some true) :
    ∀ predicate ∈ predicates, Admits db metadata stored predicate := by
  induction predicates generalizing i draw wheres with
  | nil => exact nofun
  | cons predicate rest ih =>
      rw [List.forall_mem_cons] at declares scalars single
      rw [List.map_cons, applyFilters] at built
      obtain ⟨⟨first, between⟩, isFirst, built⟩ := of_bind_ok built
      obtain ⟨⟨others, last⟩, areOthers, built⟩ := of_bind_ok built
      cases built
      rw [List.forall_mem_append] at hold
      refine List.forall_mem_cons.mpr ⟨?_, ih declares.2 scalars.2 single.2 areOthers hold.2⟩
      exact applyFilterToQuery_admits declares.1 scalars.1 single.1 isFirst shows hold.1

/-- What stands behind other filters is built behind their conditions. -/
theorem applyFilters_append {metadata : EntityMetadata Entity} {filters others : List Filter}
    {i draw n : Nat} {wheres : Wheres}
    (built : applyFilters host schema metadata "e" draws (filters ++ others) i draw = .ok (wheres, n)) :
    ∃ front back i' draw', wheres = front ++ back ∧
      applyFilters host schema metadata "e" draws others i' draw' = .ok (back, n) := by
  induction filters generalizing i draw wheres with
  | nil => exact ⟨[], wheres, i, draw, rfl, built⟩
  | cons filter rest ih =>
      rw [List.cons_append, applyFilters] at built
      obtain ⟨⟨first, between⟩, isFirst, built⟩ := of_bind_ok built
      obtain ⟨⟨later, last⟩, isLater, built⟩ := of_bind_ok built
      cases built
      obtain ⟨front, back, i', draw', rfl, isBack⟩ := ih isLater
      exact ⟨first ++ front, back, i', draw', (List.append_assoc _ _ _).symm, isBack⟩

/-- A row in which all filters hold is in scope: the scope is among them. -/
theorem inScope_of_filters
    (declares : ∀ column ∈ scoping.scopedColumns target,
      ∃ mapped, (schema target).Declares column.propertyName mapped)
    {filters prepared : List Filter} (added : addonFilter host scoping target filters = .ok prepared)
    {i draw n : Nat} {wheres : Wheres}
    (built : applyFilters host schema (schema target) "e" draws prepared i draw = .ok (wheres, n))
    {stored : Stored Cell} {row : Sql → Option Cell} (shows : Shows rootReference stored row)
    (hold : ∀ condition ∈ wheres, evalCondition db row condition.2 = some true) :
    inScope db schema scoping target stored = true := by
  refine inScope_of_resolved fun scoped_ => ?_
  rw [addonFilter] at added
  obtain ⟨cleaned, -, added⟩ := of_bind_ok added
  rw [if_neg (by simp [scoped_])] at added
  obtain ⟨scope?, current, added⟩ := of_bind_ok added
  refine ⟨scope?, current, ?_⟩
  rintro scope rfl
  obtain ⟨injected, isInjected, added⟩ := of_bind_ok added
  cases added
  obtain ⟨predicates, resolved, rfl⟩ := of_map_ok isInjected
  refine ⟨predicates, resolved, ?_⟩
  obtain ⟨front, back, i', draw', rfl, isBack⟩ := applyFilters_append built
  rw [List.forall_mem_append] at hold
  refine applyFilters_admits ?_ (scalar_of_resolved resolved) ?_ isBack shows hold.2
  · intro predicate listed
    obtain ⟨column, member, answered⟩ := Repository.of_resolveScopePredicates resolved predicate listed
    rw [Repository.propertyName_resolved answered]
    exact declares column member
  · intro predicate listed equal
    obtain ⟨column, -, answered⟩ := Repository.of_resolveScopePredicates resolved predicate listed
    obtain ⟨item, values⟩ := Repository.equal_resolved answered equal
    simp [values]

/-! ## Queries -/

/-- The joins demand the scope, and so does the WHERE clause. -/
structure Isolates (db : Database Cell) (schema : Schema Entity) (scoping : Scoping Entity) (target : Entity)
    (query : Query Entity (Sql → Option Cell)) : Prop where
  joins : ∀ join ∈ query.joins, ∃ stem,
    relationScope schema scoping join.entity join.table stem = .ok join.condition
  roots : ∀ stored row, Shows rootReference stored row → query.selects row = some true →
    inScope db schema scoping target stored = true

theorem joinRelations_scope {relations : List Text} {joins : List (Join Entity)}
    (joined : joinRelations schema scoping target relations = .ok joins) :
    ∀ join ∈ joins, ∃ stem,
      relationScope schema scoping join.entity join.table stem = .ok join.condition := by
  intro join listed
  obtain ⟨relation, -, isJoin⟩ := of_mem_mapM joined listed
  rw [joinRelation] at isJoin
  obtain ⟨entity, -, isJoin⟩ := of_bind_ok isJoin
  obtain ⟨condition, isCondition, isJoin⟩ := of_bind_ok isJoin
  cases isJoin
  exact ⟨_, isCondition⟩

/-- Filters in brackets, if there are any, hold where the chain that they end holds. -/
theorem inScope_of_queryFilters
    (declares : ∀ column ∈ scoping.scopedColumns target,
      ∃ mapped, (schema target).Declares column.propertyName mapped)
    {given prepared : List Filter} (added : addonFilter host scoping target given = .ok prepared)
    {filters : Option (Wheres × Nat)} (built : queryFilters host schema draws target prepared = .ok filters)
    {stored : Stored Cell} {row : Sql → Option Cell} (shows : Shows rootReference stored row)
    (hold : ∀ built ∈ filters, evalCondition db row (.brackets built.1) = some true) :
    inScope db schema scoping target stored = true := by
  rw [queryFilters] at built
  split at built
  · rename_i none_
    obtain rfl : prepared = [] := by simpa using none_
    have nothing : applyFilters host schema (schema target) "e" draws [] 0 0 = .ok ([], 0) := rfl
    refine inScope_of_filters declares added nothing shows fun _ listed => ?_
    cases listed
  · obtain ⟨⟨wheres, n⟩, isBuilt, rfl⟩ := of_map_ok built
    refine inScope_of_filters declares added isBuilt shows ?_
    exact (brackets_eq_true db row (applyFilters_ands isBuilt)).mp (hold _ rfl)

theorem createBaseQueryBuilder_isolates
    (declares : ∀ column ∈ scoping.scopedColumns target,
      ∃ mapped, (schema target).Declares column.propertyName mapped)
    {given : List Filter} {req : PagingReq} (added : addonFilter host scoping target given = .ok req.filters)
    {args : BaseRepositoryArgs (Sql → Option Cell)} (plain : args.andWheres = []) {paginate : Bool}
    {query : Query Entity (Sql → Option Cell)}
    (created : createBaseQueryBuilder db host schema scoping draws target req args paginate = .ok query) :
    Isolates db schema scoping target query := by
  rw [createBaseQueryBuilder] at created
  obtain ⟨joins, areJoins, created⟩ := of_bind_ok created
  obtain ⟨filters, areFilters, created⟩ := of_bind_ok created
  obtain ⟨orders, -, created⟩ := of_bind_ok created
  cases created
  refine ⟨joinRelations_scope areJoins, fun stored row shows selects => ?_⟩
  refine inScope_of_queryFilters declares added areFilters shows fun built isBuilt => ?_
  cases isBuilt
  rw [Query.selects, plain] at selects
  exact selects

theorem of_preparePagingReq {req : RawPagingReq} {prepared : PagingReq}
    (isPrepared : preparePagingReq host scoping target req = .ok prepared) :
    addonFilter host scoping target req.filters = .ok prepared.filters := by
  rw [preparePagingReq] at isPrepared
  obtain ⟨filters, added, isPrepared⟩ := of_bind_ok isPrepared
  cases isPrepared
  exact added

end

section

variable {Cell Entity : Type} {db : Database Cell} {host : Host} {schema : Schema Entity}
  {scoping : Scoping Entity} {draws : Nat → Text} {isUuid : JsString → Bool}
  {searchable : Option SearchableConfig} {target : Entity} {query : Query Entity (Sql → Option Cell)}

/-- The bracketed filters of a search. -/
theorem inScope_of_bracketed
    (declares : ∀ column ∈ scoping.scopedColumns target,
      ∃ mapped, (schema target).Declares column.propertyName mapped)
    {given prepared : List Filter} (added : addonFilter host scoping target given = .ok prepared)
    {wheres : Wheres} (built : bracketed host schema (schema target) draws prepared = .ok wheres) :
    Ands wheres ∧ ∀ stored row, Shows rootReference stored row →
      (∀ condition ∈ wheres, evalCondition db row condition.2 = some true) →
      inScope db schema scoping target stored = true := by
  rw [bracketed] at built
  split at built
  · rename_i none_
    cases built
    obtain rfl : prepared = [] := by simpa using none_
    have nothing : applyFilters host schema (schema target) "e" draws [] 0 0 = .ok ([], 0) := rfl
    exact ⟨by simp [Ands], fun stored row shows _ => inScope_of_filters declares added nothing shows nofun⟩
  · obtain ⟨⟨conditions, n⟩, isBuilt, rfl⟩ := of_map_ok built
    refine ⟨by simp [Ands], fun stored row shows hold => ?_⟩
    have holds := hold _ (List.mem_singleton_self _)
    refine inScope_of_filters declares added isBuilt shows ?_
    exact (brackets_eq_true db row (applyFilters_ands isBuilt)).mp holds

/-- Conditions with ANDs between them, as the query of a search has them. -/
theorem chain_evaluated {wheres : Wheres} (ands : Ands wheres) {row : Sql → Option Cell}
    (holds : chain ((wheres.map fun condition =>
      (condition.1, fun row => evalCondition db row condition.2)).map
        fun condition => (condition.1, condition.2 row)) = some true) :
    ∀ condition ∈ wheres, evalCondition db row condition.2 = some true := by
  rw [List.map_map] at holds
  refine (brackets_eq_true db row ands).mp ?_
  rw [evalCondition, evalWheres_eq_map]
  exact holds

theorem searchQuery_isolates
    (declares : ∀ column ∈ scoping.scopedColumns target,
      ∃ mapped, (schema target).Declares column.propertyName mapped)
    {keyword : JsString} {filters : List Filter}
    (created : searchQuery db host schema scoping draws isUuid searchable target keyword filters =
      .ok (some query)) : Isolates db schema scoping target query := by
  rw [searchQuery] at created
  obtain ⟨wheres?, areWheres, created⟩ := of_bind_ok created
  obtain ⟨wheres, rfl, rfl⟩ := Option.map_eq_some_iff.mp (Except.ok.inj created)
  refine ⟨nofun, fun stored row shows selects => ?_⟩
  unfold searchWheres at areWheres
  split at areWheres
  · -- the id, and the scope alone
    obtain ⟨prepared, added, areWheres⟩ := of_bind_ok areWheres
    obtain ⟨own, isOwn, areWheres⟩ := of_bind_ok areWheres
    cases areWheres
    obtain ⟨ands, within⟩ := @inScope_of_bracketed Cell Entity db _ _ _ _ _ declares _ _ added _ isOwn
    refine within stored row shows fun condition inside => ?_
    refine chain_evaluated ?_ selects condition (List.mem_cons_of_mem _ inside)
    exact List.forall_mem_cons.mpr ⟨rfl, ands⟩
  · split at areWheres
    · cases areWheres
    · obtain ⟨prepared, added, areWheres⟩ := of_bind_ok areWheres
      obtain ⟨own, isOwn, areWheres⟩ := of_bind_ok areWheres
      obtain ⟨ands, within⟩ := @inScope_of_bracketed Cell Entity db _ _ _ _ _ declares _ _ added _ isOwn
      split at areWheres
      · cases areWheres
        exact within stored row shows (chain_evaluated ands selects)
      · obtain ⟨members, -, areWheres⟩ := of_bind_ok areWheres
        cases areWheres
        refine within stored row shows fun condition inside => ?_
        refine chain_evaluated (ands.append (by simp [Ands])) selects condition ?_
        exact List.mem_append_left _ inside

/-! ## Reads -/

/-- No fragments come with the arguments. -/
def Read.IsPlain : Read Cell → Prop
  | .paging _ args | .pagingDeleted _ args | .all _ args | .findByIds _ args | .detail _ args =>
      args.andWheres = []
  | .search _ _ => True

theorem pagingQuery_isolates
    (declares : ∀ column ∈ scoping.scopedColumns target,
      ∃ mapped, (schema target).Declares column.propertyName mapped)
    {req : RawPagingReq} {args : BaseRepositoryArgs (Sql → Option Cell)} (plain : args.andWheres = [])
    (created : pagingQuery db host schema scoping draws target req args = .ok query) :
    Isolates db schema scoping target query := by
  obtain ⟨prepared, isPrepared, created⟩ := of_bind_ok created
  exact createBaseQueryBuilder_isolates declares (of_preparePagingReq isPrepared) plain created

theorem allQuery_isolates
    (declares : ∀ column ∈ scoping.scopedColumns target,
      ∃ mapped, (schema target).Declares column.propertyName mapped)
    {filters : List Filter} {args : BaseRepositoryArgs (Sql → Option Cell)} (plain : args.andWheres = [])
    (created : allQuery db host schema scoping draws target filters args = .ok query) :
    Isolates db schema scoping target query := by
  obtain ⟨prepared, isPrepared, created⟩ := of_bind_ok created
  exact createBaseQueryBuilder_isolates declares (of_preparePagingReq isPrepared) plain created

/-- Whichever read it is, its query is filtered by the scope. -/
theorem Read.isolates
    (declares : ∀ column ∈ scoping.scopedColumns target,
      ∃ mapped, (schema target).Declares column.propertyName mapped)
    {read : Read Cell} (plain : read.IsPlain)
    (created : read.query db host schema scoping draws isUuid searchable target = .ok (some query)) :
    Isolates db schema scoping target query := by
  cases read with
  | paging req args =>
      obtain ⟨built, isBuilt, same⟩ := of_map_ok created
      cases same
      exact pagingQuery_isolates declares plain isBuilt
  | pagingDeleted req args =>
      obtain ⟨built, isBuilt, same⟩ := of_map_ok created
      cases same
      have plain : ({ args with withDeleted := true } : BaseRepositoryArgs (Sql → Option Cell)).andWheres =
        [] := plain
      exact pagingQuery_isolates declares plain isBuilt
  | all filters args =>
      obtain ⟨built, isBuilt, same⟩ := of_map_ok created
      cases same
      exact allQuery_isolates declares plain isBuilt
  | findByIds ids args =>
      simp only [Read.query] at created
      split at created
      · cases created
      · obtain ⟨built, isBuilt, same⟩ := of_map_ok created
        cases same
        exact allQuery_isolates declares plain isBuilt
  | detail id args =>
      simp only [Read.query] at created
      split at created
      · obtain ⟨built, isBuilt, same⟩ := of_map_ok created
        cases same
        obtain ⟨prepared, isPrepared, isBuilt⟩ := of_bind_ok isBuilt
        exact createBaseQueryBuilder_isolates declares (of_preparePagingReq isPrepared) plain isBuilt
      · cases created
  | search keyword filters => exact searchQuery_isolates declares created

/-! ## Answers -/

/-- References are read from the row under their alias, and an order adds and drops nothing. -/
structure Engine.IsStandard (engine : Engine Entity Cell) : Prop where
  root : ∀ joined name, engine.resolve joined (rootReference name) = joined.root name
  relation : ∀ joined table name, engine.resolve joined (joinReference table name) =
    (rowAt joined table).bind fun stored => stored name
  order : ∀ orders rows, (engine.order orders rows).Perm rows

variable {engine : Engine Entity Cell} {tables tables' : Tables Entity Cell}

theorem joinAccepts_inScope (standard : engine.IsStandard)
    (isolates : Isolates db schema scoping target query) (joined : JoinedRow Entity Cell) (join : Join Entity)
    (listed : join ∈ query.joins) (row : Stored Cell)
    (accepted : joinAccepts db engine query.withDeleted joined join row = true) :
    inScope db schema scoping join.entity row = true := by
  obtain ⟨stem, isCondition⟩ := isolates.joins join listed
  rw [joinAccepts, Bool.and_eq_true, decide_eq_true_eq] at accepted
  refine inScope_of_join isCondition (fun name => ?_) accepted.2
  rw [standard.relation]
  simp [rowAt, Joined.bind]

theorem queryAccepts_inScope (standard : engine.IsStandard)
    (isolates : Isolates db schema scoping target query) (joined : JoinedRow Entity Cell)
    (accepted : queryAccepts engine target query joined = true) :
    inScope db schema scoping target joined.root = true := by
  rw [queryAccepts, Bool.and_eq_true, decide_eq_true_eq] at accepted
  exact isolates.roots joined.root _ (fun name => standard.root joined name) accepted.2

/-- Every row of an answer is in the scope of its entity. -/
def InScope (db : Database Cell) (schema : Schema Entity) (scoping : Scoping Entity) (target : Entity)
    (entity : Hydrated Entity Cell) : Prop :=
  inScope db schema scoping target entity.root = true ∧
    ∀ join row, (join, row) ∈ entity.relations → inScope db schema scoping join.entity row = true

/-- The tables hold the same rows, as far as they are in scope. -/
def SameInScope (db : Database Cell) (schema : Schema Entity) (scoping : Scoping Entity)
    (tables tables' : Tables Entity Cell) : Prop :=
  ∀ entity, (tables entity).filter (inScope db schema scoping entity) =
    (tables' entity).filter (inScope db schema scoping entity)

theorem rows_inScope (standard : engine.IsStandard) (isolates : Isolates db schema scoping target query)
    {rows : List (JoinedRow Entity Cell)} (ran : query.rows db engine tables target = .ok rows)
    {joined : JoinedRow Entity Cell} (member : joined ∈ rows) :
    inScope db schema scoping target joined.root = true ∧
      ∀ join row, (join, row) ∈ joined.found → inScope db schema scoping join.entity row = true := by
  rw [Query.rows] at ran
  split at ran
  · cases ran
    obtain ⟨root, -, member⟩ := List.mem_flatMap.mp member
    obtain ⟨member, accepted⟩ := List.mem_filter.mp member
    refine ⟨queryAccepts_inScope standard isolates joined accepted, fun join row inside => ?_⟩
    refine (mem_leftJoins (joinAccepts_inScope standard isolates) ?_ member).2 join row
      (Joined.mem_found.mp inside)
    exact fun _ _ => nofun
  · cases ran

theorem rows_congr (standard : engine.IsStandard) (isolates : Isolates db schema scoping target query)
    (same : SameInScope db schema scoping tables tables') :
    query.rows db engine tables target = query.rows db engine tables' target := by
  rw [Query.rows, Query.rows]
  split
  · refine congrArg Except.ok ?_
    exact selected_congr (joinAccepts_inScope standard isolates) (fun join _ => same join.entity)
      (queryAccepts_inScope standard isolates) (same target)
  · rfl

theorem mem_distinctRoots {rows : List (Stored Cell)} {row : Stored Cell}
    (member : row ∈ distinctRoots engine rows) : row ∈ rows := by
  induction rows with
  | nil => cases member
  | cons first rest ih =>
      rcases List.mem_cons.mp member with rfl | member
      · exact List.mem_cons_self
      · exact List.mem_cons_of_mem _ (ih (List.mem_filter.mp member).1)

/-- What is made of rows in scope is in scope. -/
theorem hydrate_inScope {rows : List (JoinedRow Entity Cell)}
    (inside : ∀ joined ∈ rows, inScope db schema scoping target joined.root = true ∧
      ∀ join row, (join, row) ∈ joined.found → inScope db schema scoping join.entity row = true)
    {entity : Hydrated Entity Cell} (member : entity ∈ hydrate engine rows) :
    InScope db schema scoping target entity := by
  obtain ⟨root, isRoot, rfl⟩ := List.mem_map.mp member
  obtain ⟨joined, listed, rfl⟩ := List.mem_map.mp (mem_distinctRoots isRoot)
  refine ⟨(inside joined listed).1, fun join row found => ?_⟩
  obtain ⟨other, chosen, found⟩ := List.mem_flatMap.mp found
  exact (inside other (List.mem_filter.mp chosen).1).2 join row found

theorem answer_inScope (standard : engine.IsStandard) (isolates : Isolates db schema scoping target query)
    {answer : Answer Entity Cell} (ran : query.answer db engine tables target = .ok answer) :
    ∀ entity ∈ answer.items, InScope db schema scoping target entity := by
  obtain ⟨rows, areRows, rfl⟩ := of_map_ok ran
  intro entity member
  have whole : entity ∈ hydrate engine (engine.order query.orders rows) := by
    simp only at member
    split at member
    · exact List.mem_of_mem_drop (List.mem_of_mem_take member)
    · exact member
  refine hydrate_inScope (fun joined inside => ?_) whole
  exact rows_inScope standard isolates areRows ((standard.order _ _).mem_iff.mp inside)

/-- **Reads are isolated.**  Whatever is read, with whatever filters, sorts, relations and keyword,
every row that is returned is in the scope of its own entity, and databases that agree on the rows in
scope return the same. -/
theorem reads_isolated (standard : engine.IsStandard)
    (declares : ∀ column ∈ scoping.scopedColumns target,
      ∃ mapped, (schema target).Declares column.propertyName mapped)
    (read : Read Cell) (plain : read.IsPlain) :
    (∀ answer, read.run db host schema scoping draws isUuid searchable target engine tables = .ok answer →
        ∀ entity ∈ answer.items, InScope db schema scoping target entity) ∧
      (SameInScope db schema scoping tables tables' →
        read.run db host schema scoping draws isUuid searchable target engine tables =
          read.run db host schema scoping draws isUuid searchable target engine tables') := by
  unfold Read.run
  cases created : read.query db host schema scoping draws isUuid searchable target with
  | error failure => exact ⟨nofun, fun _ => rfl⟩
  | ok query? =>
      cases query? with
      | none =>
          refine ⟨?_, fun _ => rfl⟩
          rintro answer ⟨⟩
          exact nofun
      | some query =>
          have isolates := Read.isolates declares plain created
          refine ⟨fun answer ran => answer_inScope standard isolates ran, fun same => ?_⟩
          change query.answer db engine tables target = query.answer db engine tables' target
          rw [Query.answer, Query.answer, rows_congr standard isolates same]

end

/-! ### Poles -/

/-- Inside quotes a double quote is written twice. -/
def undoubled : Text → Text
  | '"' :: '"' :: rest => '"' :: undoubled rest
  | c :: rest => c :: undoubled rest
  | [] => []

theorem undoubled_doubled (name : Text) :
    undoubled (name.flatMap fun c => if c = '"' then ['"', '"'] else [c]) = name := by
  induction name with
  | nil => rfl
  | cons c rest ih =>
      rw [List.flatMap_cons]
      by_cases quote : c = '"'
      · rw [if_pos quote, quote]
        exact congrArg _ ih
      · rw [if_neg quote, List.singleton_append, undoubled, ih]
        intro _ same
        exact absurd same quote

/-- Rows in the order of the table, and every row of its own. -/
def itemEngine : Engine Unit Item where
  resolve joined sql :=
    match sql with
    | [.code _, .code _, .identifier name] => joined.root (undoubled name)
    | [.identifier table, .code _, .identifier name] => (rowAt joined table).bind fun stored => stored name
    | _ => none
  related _ _ _ := false
  isDeleted _ _ := false
  sameKey row other := decide (row "tenant_id".toList = other "tenant_id".toList)
  order _ rows := rows

theorem itemEngine_isStandard : itemEngine.IsStandard where
  root joined name := congrArg joined.root (undoubled_doubled name)
  relation _ _ _ := rfl
  order _ rows := .refl rows

def tenantRow (tenant : String) : Stored Item := fun name =>
  if name = "tenant_id".toList then some (.string (JsString.js tenant)) else none

/-- A row of the tenant, and one of another. -/
def tenantTables (other : String) : Tables Unit Item := fun _ => [tenantRow "a", tenantRow other]

def readAll (other : String) : Except Failure (Answer Unit Item) :=
  (Read.all [] ⟨[], false, []⟩).run itemDatabase plainHost (fun _ => tenantEntity "tenant")
    (tenantScoping "tenant") (fun _ => []) (fun _ => false) none () itemEngine (tenantTables other)

theorem readAll_isolated :
    readAll "b" = .ok ⟨[⟨tenantRow "a", []⟩], 1⟩ ∧
      inScope itemDatabase (fun _ => tenantEntity "tenant") (tenantScoping "tenant") () (tenantRow "a") =
        true ∧
      readAll "b" = readAll "c" := by
  have declares : ∀ column ∈ (tenantScoping "tenant").scopedColumns (),
      ∃ mapped, (tenantEntity "tenant").Declares column.propertyName mapped := by
    intro column member
    obtain rfl := List.mem_singleton.mp member
    exact ⟨_, rfl, by simp, by simp, by decide⟩
  have isolated := @reads_isolated Item Unit itemDatabase plainHost (fun _ => tenantEntity "tenant")
    (tenantScoping "tenant") (fun _ => []) (fun _ => false) none () itemEngine (tenantTables "b")
    (tenantTables "c") itemEngine_isStandard declares (.all [] ⟨[], false, []⟩) rfl
  refine ⟨rfl, ?_, isolated.2 fun _ => rfl⟩
  exact (isolated.1 ⟨[⟨tenantRow "a", []⟩], 1⟩ rfl _ (List.mem_singleton_self _)).1

end SdcoreNest.Orm
