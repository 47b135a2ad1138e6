/-
# Orm.ScopeAgreement -- one scope, four ways to enforce it

Reads filter by the scope, joins carry it in their condition, mutations in their criteria, and new
entities are stamped with it.  All of them resolve it to the same predicates first; what is shown
is that each path says what the predicates say.

* `readScope_spec`, `relationScope_spec`, `criteriaColumns_spec` -- the three paths, one by one;
* `applyScopeToEntity_spec` -- what stamping makes of the values of a caller.
-/
import SdcoreNest.Orm.MutationRuns
import SdcoreNest.Orm.Query

namespace SdcoreNest.Orm

open Theory

set_option autoImplicit false

/-! ## Predicates -/

section Predicates

variable {Cell : Type} (db : Database Cell)

/-- What a predicate makes of the value in its column. -/
def ResolvedScopePredicate.truth (predicate : ResolvedScopePredicate) (cell : Option Cell) : Truth :=
  match predicate.operator with
  | .isIn => db.equalsOne cell (predicate.values.map fun item => db.bind (.item item))
  | .equal => db.compared .equal cell (db.bind (.item (predicate.values.headD .undefined)))

/-- The condition of a predicate on a column. -/
def ResolvedScopePredicate.condition (predicate : ResolvedScopePredicate) (column : Sql)
    (parameter : Text) : Condition :=
  match predicate.operator with
  | .isIn =>
      if predicate.values.isEmpty then .never
      else .isIn false column ⟨parameter, .array predicate.values⟩
  | .equal => .compare .equal column (.parameter ⟨parameter, .item (predicate.values.headD .undefined)⟩)

theorem ResolvedScopePredicate.eval_condition (row : Sql → Option Cell)
    (predicate : ResolvedScopePredicate) (column : Sql) (parameter : Text) :
    evalCondition db row (predicate.condition column parameter) = predicate.truth db (row column) := by
  unfold condition truth
  cases predicate.operator with
  | equal => simp only [evalCondition, evalOperand]
  | isIn =>
      cases values : predicate.values with
      | nil => simp [evalCondition, Database.equalsOne, Truth.disj]
      | cons first rest => simp [evalCondition, Data.items]

/-- No value is in an empty set. -/
theorem ResolvedScopePredicate.truth_of_empty {predicate : ResolvedScopePredicate}
    (isIn : predicate.operator = .isIn) (empty : predicate.values = []) (cell : Option Cell) :
    predicate.truth db cell = some false := by
  simp [truth, isIn, empty, Database.equalsOne, Truth.disj]

end Predicates

theorem Item.isNullish_of_isScalar {item : Item} (scalar : item.isScalar = true) :
    item.isNullish = false := by
  cases item with
  | undefined => cases scalar
  | null => cases scalar
  | _ => rfl

theorem mem_normalizeAllowedValues {column : String} {items values : List Item}
    (normalized : normalizeAllowedValues column items = .ok values) {value : Item}
    (member : value ∈ values) : value.isScalar = true := by
  unfold normalizeAllowedValues at normalized
  simp only at normalized
  split at normalized
  · cases normalized
  case isFalse scalars =>
      cases normalized
      rw [List.mem_eraseDups, List.mem_map] at member
      obtain ⟨item, inside, rfl⟩ := member
      have scalar : item.isScalar = true := by
        by_contra other
        exact scalars (List.any_eq_true.mpr ⟨item, inside, by simpa using other⟩)
      cases item <;> exact scalar

theorem normalizeAllowedValues_nullish {column : String} {items values : List Item}
    (nullish : ∀ item ∈ items, item.isNullish = true)
    (normalized : normalizeAllowedValues column items = .ok values) : values = [] := by
  have none_ : items.filter (fun item => !item.isNullish) = [] := by
    rw [List.filter_eq_nil_iff]
    intro item member
    simp [nullish item member]
  simp only [normalizeAllowedValues, none_] at normalized
  cases normalized
  rfl

/-- What a resolved predicate says, by the value in the scope. -/
theorem resolveScopePredicate_cases {scope : Record} {column : ScopedColumnMetadata}
    {predicate : ResolvedScopePredicate}
    (resolved : resolveScopePredicate scope column = .ok (some predicate)) :
    predicate.propertyName = column.propertyName ∧
      ((∃ item, scope.get column.propertyName = .item item ∧ item.isScalar = true ∧
          predicate.operator = .equal ∧ predicate.values = [item]) ∨
        ∃ items, scope.get column.propertyName = .array items ∧ predicate.operator = .isIn ∧
          normalizeAllowedValues column.propertyName items = .ok predicate.values) := by
  unfold resolveScopePredicate at resolved
  split at resolved
  case h_1 items isArray =>
      obtain ⟨values, normalized, same⟩ := of_map_ok resolved
      obtain rfl := Option.some.inj same
      exact ⟨rfl, .inr ⟨items, isArray, rfl, normalized⟩⟩
  case h_2 item isItem =>
      split at resolved
      · cases resolved
      · split at resolved
        · cases resolved
        case isFalse scalar =>
            obtain rfl := Option.some.inj (Except.ok.inj resolved)
            exact ⟨rfl, .inl ⟨item, isItem, by simpa using scalar, rfl, rfl⟩⟩

theorem scalar_of_resolved {scope : Record} {columns : List ScopedColumnMetadata}
    {predicates : List ResolvedScopePredicate}
    (resolved : resolveScopePredicates scope columns = .ok predicates) :
    ∀ predicate ∈ predicates, ∀ value ∈ predicate.values, value.isScalar = true := by
  intro predicate listed value member
  obtain ⟨column, -, answered⟩ := Repository.of_resolveScopePredicates resolved predicate listed
  obtain ⟨-, ⟨item, -, scalar, -, values⟩ | ⟨items, -, -, normalized⟩⟩ := resolveScopePredicate_cases answered
  · rw [values, List.mem_singleton] at member
    rwa [member]
  · exact mem_normalizeAllowedValues normalized member

/-! ## Columns -/

section Columns

variable {Cell Entity : Type}

/-- A property of the entity that is mapped to a column, and may stand in a filter. -/
structure EntityMetadata.Maps (metadata : EntityMetadata Entity) (name : String)
    (mapped : ColumnMetadata) : Prop where
  byName : metadata.findColumnWithPropertyName name.toList = some mapped
  byPath : metadata.findColumnWithPropertyPath name.toList = some mapped
  named : mapped.databaseName ≠ []
  safe : isSafeField name.toList = true
  undotted : '.' ∉ name.toList

def rootReference (name : Text) : Sql := code "e" ++ code "." ++ quoteIdentifier name

def joinReference (table name : Text) : Sql := escaped table ++ code "." ++ escaped name

/-- The columns of one stored row, under the references of a query. -/
def Shows (reference : Text → Sql) (stored : Text → Option Cell) (row : Sql → Option Cell) : Prop :=
  ∀ name, row (reference name) = stored name

/-- The stored row satisfies the predicate. -/
def Admits (db : Database Cell) (metadata : EntityMetadata Entity) (stored : Text → Option Cell)
    (predicate : ResolvedScopePredicate) : Prop :=
  ∃ mapped, metadata.findColumnWithPropertyName predicate.propertyName.toList = some mapped ∧
    predicate.truth db (stored mapped.databaseName) = some true

theorem partsOf_of_undotted {field : Text} (undotted : '.' ∉ field) : partsOf field = [field] := by
  induction field with
  | nil => rfl
  | cons c rest ih =>
      have other : c ≠ '.' := fun same => undotted (same ▸ List.mem_cons_self)
      have later := ih fun inside => undotted (List.mem_cons_of_mem _ inside)
      rw [partsOf] at later
      rw [partsOf, List.splitOn_cons_eq_if_modifyHead, if_neg (by simpa using other), later,
        List.modifyHead_cons]

theorem EntityMetadata.Maps.nonempty {metadata : EntityMetadata Entity} {name : String}
    {mapped : ColumnMetadata} (maps : metadata.Maps name mapped) : name.toList ≠ [] := by
  intro empty
  have safe := maps.safe
  rw [empty] at safe
  cases safe

theorem EntityMetadata.Maps.resolveColumnName {schema : Schema Entity} {metadata : EntityMetadata Entity}
    {name : String} {mapped : ColumnMetadata} (maps : metadata.Maps name mapped) :
    resolveColumnName schema metadata "e" name.toList = .ok (rootReference mapped.databaseName) := by
  rw [Orm.resolveColumnName, if_neg (by simp [maps.safe]), partsOf_of_undotted maps.undotted]
  simp only [maps.byName]
  rw [orElse, if_neg (by simpa using maps.named)]
  rfl

end Columns

/-! ## Reads -/

section Reads

variable {Cell Entity : Type} {db : Database Cell} {host : Host} {schema : Schema Entity}
  {metadata : EntityMetadata Entity} {draws : Nat → Text}

/-- `FilterUtilities.validateFilter` accepts the scalar values of scopes. -/
def Host.AcceptsScopes (host : Host) : Prop :=
  ∀ predicate : ResolvedScopePredicate, (∀ value ∈ predicate.values, value.isScalar = true) →
    host.validateFilter (scopeFilter predicate) = .ok ()

/-- The filter of a predicate becomes its condition. -/
theorem applyFilterToQuery_scope {predicate : ResolvedScopePredicate}
    (accepted : host.validateFilter (scopeFilter predicate) = .ok ())
    (nonempty : predicate.propertyName.toList ≠ []) {column : Sql}
    (isColumn : resolveColumnName schema metadata "e" predicate.propertyName.toList = .ok column)
    (scalars : ∀ value ∈ predicate.values, value.isScalar = true)
    (single : predicate.operator = .equal → predicate.values ≠ []) (idx : Count) (draw : Nat) :
    applyFilterToQuery host schema metadata "e" draws (scopeFilter predicate) idx draw =
      .ok ([(.and, predicate.condition column (parameterName idx (draws draw)))], draw + 1) := by
  cases operator : predicate.operator with
  | isIn =>
      simp only [scopeFilter, operator] at accepted ⊢
      rw [applyFilterToQuery, accepted, ResolvedScopePredicate.condition, operator]
      simp only [applyLeaf, Leaf.name, Option.getD_some, isColumn, applyData, Data.isNullish,
        normalizeTimestampOperand, applyOperand, bind, Except.bind, pure, Except.pure]
      cases values : predicate.values with
      | nil => simp [nonempty]
      | cons first rest => simp [nonempty]
  | equal =>
      obtain ⟨value, rest, values⟩ := List.exists_cons_of_ne_nil (single operator)
      have scalar := scalars value (values ▸ List.mem_cons_self)
      have known := Item.isNullish_of_isScalar scalar
      simp only [scopeFilter, operator] at accepted ⊢
      rw [applyFilterToQuery, accepted, ResolvedScopePredicate.condition, operator]
      simp [applyLeaf, Leaf.name, isColumn, applyData, Data.isNullish,
        normalizeTimestampOperand, applyOperand, bind, Except.bind, pure, Except.pure, values, known, nonempty]

/-- The conditions of a list of predicates. -/
theorem applyFilters_scope (accepts : host.AcceptsScopes) {predicates : List ResolvedScopePredicate}
    (maps : ∀ predicate ∈ predicates, ∃ mapped, metadata.Maps predicate.propertyName mapped)
    (scalars : ∀ predicate ∈ predicates, ∀ value ∈ predicate.values, value.isScalar = true)
    (single : ∀ predicate ∈ predicates, predicate.operator = .equal → predicate.values ≠ [])
    (i draw : Nat) :
    ∃ wheres n, applyFilters host schema metadata "e" draws (predicates.map scopeFilter) i draw =
        .ok (wheres, n) ∧
      ∀ stored row, Shows rootReference stored row →
        ((∀ condition ∈ wheres, evalCondition db row condition.2 = some true) ↔
          ∀ predicate ∈ predicates, Admits db metadata stored predicate) := by
  induction predicates generalizing i draw with
  | nil => exact ⟨[], draw, rfl, by simp⟩
  | cons predicate rest ih =>
      rw [List.forall_mem_cons] at maps scalars single
      obtain ⟨mapped, isMapped⟩ := maps.1
      have first := @applyFilterToQuery_scope Entity host schema metadata draws predicate
        (accepts predicate scalars.1) isMapped.nonempty _ isMapped.resolveColumnName scalars.1 single.1 (.ofNat i) draw
      obtain ⟨wheres, n, later, means⟩ := ih maps.2 scalars.2 single.2 (i + 1) (draw + 1)
      refine ⟨[(.and, predicate.condition (rootReference mapped.databaseName)
        (parameterName (.ofNat i) (draws draw)))] ++ wheres, n, ?_, ?_⟩
      · rw [List.map_cons, applyFilters, first]
        simp only [bind, Except.bind, later]
        rfl
      · intro stored row shows
        rw [List.singleton_append, List.forall_mem_cons, List.forall_mem_cons, means stored row shows,
          ResolvedScopePredicate.eval_condition, shows]
        simp [Admits, isMapped.byName]

end Reads

/-! ## Joins -/

section Joins

variable {Cell Entity : Type} {db : Database Cell} {metadata : EntityMetadata Entity} {table stem : Text}

theorem relationPredicate_eq {predicate : ResolvedScopePredicate} {mapped : ColumnMetadata}
    (found : metadata.findColumnWithPropertyName predicate.propertyName.toList = some mapped) (index : Nat) :
    relationPredicate metadata table stem predicate index =
      .ok (predicate.condition (joinReference table mapped.databaseName)
        (stem ++ '_' :: Text.decimal index)) := by
  unfold relationPredicate ResolvedScopePredicate.condition
  rw [found]
  cases predicate.operator with
  | equal => rfl
  | isIn =>
      cases values : predicate.values with
      | nil => rfl
      | cons first rest => rfl

/-- The loop collects the conditions of the predicates, unless one of them can not be met. -/
theorem relationConditions_spec {predicates : List ResolvedScopePredicate}
    (maps : ∀ predicate ∈ predicates, ∃ mapped, metadata.Maps predicate.propertyName mapped)
    (index : Nat) (conditions : Wheres) :
    ∃ wheres, relationConditions metadata table stem predicates index conditions = .ok wheres ∧
      (Ands conditions → Ands wheres) ∧
      ∀ stored row, Shows (joinReference table) stored row →
        ((∀ condition ∈ wheres, evalCondition db row condition.2 = some true) ↔
          (∀ condition ∈ conditions, evalCondition db row condition.2 = some true) ∧
            ∀ predicate ∈ predicates, Admits db metadata stored predicate) := by
  induction predicates generalizing index conditions with
  | nil => exact ⟨conditions, rfl, id, by simp⟩
  | cons predicate rest ih =>
      rw [List.forall_mem_cons] at maps
      obtain ⟨mapped, isMapped⟩ := maps.1
      have first := @relationPredicate_eq Entity metadata table stem predicate mapped isMapped.byName index
      have means (stored : Text → Option Cell) (row : Sql → Option Cell)
          (shows : Shows (joinReference table) stored row) :
          evalCondition db row (predicate.condition (joinReference table mapped.databaseName)
            (stem ++ '_' :: Text.decimal index)) = some true ↔ Admits db metadata stored predicate := by
        rw [ResolvedScopePredicate.eval_condition, shows]
        simp [Admits, isMapped.byName]
      generalize predicate.condition (joinReference table mapped.databaseName)
        (stem ++ '_' :: Text.decimal index) = condition at first means
      by_cases never : condition = .never
      · subst never
        refine ⟨[(.and, .never)], ?_, ?_, ?_⟩
        · rw [relationConditions, first]
          rfl
        · intro _
          simp [Ands]
        · intro stored row shows
          have unmet : ¬Admits db metadata stored predicate := by
            rw [← means stored row shows]
            simp [evalCondition]
          simp [evalCondition, unmet]
      · obtain ⟨wheres, later, ands, others⟩ := ih maps.2 (index + 1) (conditions ++ [(.and, condition)])
        refine ⟨wheres, ?_, ?_, ?_⟩
        · rw [relationConditions, first, ← later]
          cases condition <;> first | rfl | exact absurd rfl never
        · intro before
          exact ands (before.append (by simp [Ands]))
        · intro stored row shows
          rw [others stored row shows, List.forall_mem_append, List.forall_mem_singleton,
            means stored row shows, List.forall_mem_cons, and_assoc]

end Joins

/-! ## Mutations -/

section Mutations

variable {Cell Entity : Type} {db : Database Cell} {metadata : EntityMetadata Entity}

/-- What a criterion makes of the value in its column; `In([])` matches nothing. -/
def Criterion.truth (db : Database Cell) (cell : Option Cell) : Criterion → Truth
  | .equal (.item value) => db.compared .equal cell (db.bind (.item value))
  | .equal (.array values) => db.compared .equal cell (db.bind (.array values))
  | .isIn values => db.equalsOne cell (values.map fun item => db.bind (.item item))

/-- The columns of the criteria; a property that is not mapped is refused. -/
def criteriaColumns (metadata : EntityMetadata Entity) (criteria : Criteria) :
    Except Failure (List (ColumnMetadata × Criterion)) :=
  criteria.mapM fun condition =>
    match metadata.findColumnWithPropertyPath condition.1.toList with
    | none => .error .thrown
    | some column => .ok (column, condition.2)

/-- The stored row meets all criteria. -/
def Meets (db : Database Cell) (stored : Text → Option Cell)
    (criteria : List (ColumnMetadata × Criterion)) : Prop :=
  ∀ condition ∈ criteria, condition.2.truth db (stored condition.1.databaseName) = some true

/-- The criterion of a predicate. -/
def ResolvedScopePredicate.criterion (predicate : ResolvedScopePredicate) : Criterion :=
  match predicate.operator with
  | .isIn => .isIn predicate.values
  | .equal => .equal (.item (predicate.values.headD .undefined))

theorem ResolvedScopePredicate.truth_criterion (predicate : ResolvedScopePredicate) (cell : Option Cell) :
    predicate.criterion.truth db cell = predicate.truth db cell := by
  unfold criterion ResolvedScopePredicate.truth
  cases predicate.operator <;> rfl

theorem criteriaColumns_spec {predicates : List ResolvedScopePredicate}
    (maps : ∀ predicate ∈ predicates, ∃ mapped, metadata.Maps predicate.propertyName mapped) :
    ∃ criteria, criteriaColumns metadata
        (predicates.map fun predicate => (predicate.propertyName, predicate.criterion)) = .ok criteria ∧
      ∀ stored, Meets db stored criteria ↔
        ∀ predicate ∈ predicates, Admits db metadata stored predicate := by
  induction predicates with
  | nil => exact ⟨[], rfl, by simp [Meets]⟩
  | cons predicate rest ih =>
      rw [List.forall_mem_cons] at maps
      obtain ⟨mapped, isMapped⟩ := maps.1
      obtain ⟨criteria, areCriteria, means⟩ := ih maps.2
      refine ⟨(mapped, predicate.criterion) :: criteria, ?_, ?_⟩
      · rw [criteriaColumns] at areCriteria
        rw [criteriaColumns, List.map_cons, List.mapM_cons, areCriteria]
        simp only [isMapped.byPath]
        rfl
      · intro stored
        have later := means stored
        rw [Meets] at later
        rw [Meets, List.forall_mem_cons, List.forall_mem_cons, later,
          ResolvedScopePredicate.truth_criterion]
        simp [Admits, isMapped.byName]

end Mutations

/-! ## Writes -/

section Writes

theorem Record.lookup_map {record : Record} {name other : String} {value : Value} :
    (record.map fun property => if property.1 = name then (name, value) else property).lookup other =
      if other = name then (record.lookup name).map fun _ => value else record.lookup other := by
  induction record with
  | nil =>
      rw [List.map_nil, List.lookup_nil, List.lookup_nil]
      split <;> rfl
  | cons property rest ih =>
      obtain ⟨own, present⟩ := property
      rw [List.map_cons]
      by_cases isOwn : own = name
      · subst isOwn
        rw [if_pos rfl, List.lookup_cons, List.lookup_cons, List.lookup_cons, ih]
        by_cases same : other = own
        · simp [same]
        · simp [same, beq_false_of_ne same]
      · rw [if_neg isOwn, List.lookup_cons, List.lookup_cons, List.lookup_cons, ih]
        by_cases same : other = name
        · subst same
          simp [beq_false_of_ne (Ne.symm isOwn)]
        · simp [same]

theorem Record.get_set (record : Record) (name other : String) (value : Value) :
    (record.set name value).get other = if other = name then value else record.get other := by
  unfold Record.set
  split
  case isTrue present =>
      obtain ⟨old, isOld⟩ := Option.isSome_iff_exists.mp present
      rw [Record.get, Record.lookup_map, isOld]
      split <;> rfl
  case isFalse absent =>
      have missing : record.lookup name = none := by
        rwa [Record.has, Bool.not_eq_true, Option.isSome_eq_false_iff, Option.isNone_iff_eq_none] at absent
      rw [Record.get, List.lookup_append]
      by_cases same : other = name
      · subst same
        simp [missing]
      · have apart : List.lookup other [(name, value)] = none := by simp [same]
        rw [apart, Option.or_none, if_neg same]
        rfl

/-- What stamping makes of a value, by what the scope holds for its column: a scalar replaces it, and
of several values one must have been chosen, unless there is one only. -/
def Stamps (column : String) : Value → Value → Value → Prop
  | .item item, before, after =>
      if item.isNullish then after = before else item.isScalar = true ∧ after = .item item
  | .array items, before, after =>
      ∃ values selected, normalizeAllowedValues column items = .ok values ∧ selected ∈ values ∧
        after = .item selected ∧
        (before = .item selected ∨ isMissing before = true ∧ values = [selected])

theorem Stamps.trans {column : String} {scope before between after : Value}
    (first : Stamps column scope before between) (second : Stamps column scope between after) :
    Stamps column scope before after := by
  cases scope with
  | item item =>
      simp only [Stamps] at first second ⊢
      split at first
      case isTrue nullish =>
          rw [if_pos nullish] at second ⊢
          rw [second, first]
      case isFalse known =>
          rw [if_neg known] at second ⊢
          exact second
  | array items =>
      obtain ⟨values, selected, normalized, member, rfl, chosen⟩ := first
      obtain ⟨values', selected', normalized', member', rfl, kept⟩ := second
      obtain rfl : values = values' := Except.ok.inj (normalized.symm.trans normalized')
      have scalar := mem_normalizeAllowedValues normalized member
      rcases kept with same | ⟨missing, -⟩
      · obtain rfl : selected = selected' := Value.item.inj same
        exact ⟨values, selected, normalized, member, rfl, chosen⟩
      · -- what was chosen is a scalar, so it is not missing
        rw [isMissing, Item.isNullish_of_isScalar scalar] at missing
        cases missing

theorem applyScopeColumn_spec {scope entity written : Record} {column : ScopedColumnMetadata}
    (applied : applyScopeColumn scope entity column = .ok written) :
    (∀ other, other ≠ column.propertyName → written.get other = entity.get other) ∧
      Stamps column.propertyName (scope.get column.propertyName) (entity.get column.propertyName)
        (written.get column.propertyName) := by
  unfold applyScopeColumn at applied
  split at applied
  case h_1 item isItem =>
      rw [isItem]
      simp only [Stamps]
      split at applied
      case isTrue nullish =>
          cases applied
          exact ⟨fun _ _ => rfl, by rw [if_pos nullish]⟩
      case isFalse known =>
          split at applied
          · cases applied
          case isFalse scalar =>
              cases applied
              rw [if_neg known, Record.get_set, if_pos rfl]
              refine ⟨fun other differs => ?_, by simpa using scalar, rfl⟩
              rw [Record.get_set, if_neg differs]
  case h_2 items isArray =>
      obtain ⟨values, normalized, applied⟩ := of_bind_ok applied
      rw [isArray]
      split at applied
      · cases applied
      case h_2 only missing =>
          cases applied
          rw [Record.get_set, if_pos rfl, missing]
          refine ⟨fun other differs => ?_, [only], only, normalized, List.mem_singleton_self _, rfl,
            .inr ⟨rfl, rfl⟩⟩
          rw [Record.get_set, if_neg differs]
      case h_3 only missing =>
          cases applied
          rw [Record.get_set, if_pos rfl, missing]
          refine ⟨fun other differs => ?_, [only], only, normalized, List.mem_singleton_self _, rfl,
            .inr ⟨rfl, rfl⟩⟩
          rw [Record.get_set, if_neg differs]
      · cases applied
      · cases applied
      case h_6 isSelected =>
          split at applied
          case isTrue allowed =>
              cases applied
              rw [Bool.and_eq_true, List.contains_iff_mem] at allowed
              exact ⟨fun _ _ => rfl, _, _, normalized, allowed.2, isSelected, .inl isSelected⟩
          · cases applied
      · cases applied

/-- Stamping keeps what is not scoped, and stamps what is. -/
theorem foldlM_applyScopeColumn {scope : Record} {columns : List ScopedColumnMetadata}
    {entity written : Record} (applied : columns.foldlM (applyScopeColumn scope) entity = .ok written)
    (name : String) :
    ((∀ column ∈ columns, column.propertyName ≠ name) → written.get name = entity.get name) ∧
      ((∃ column ∈ columns, column.propertyName = name) →
        Stamps name (scope.get name) (entity.get name) (written.get name)) := by
  induction columns generalizing entity with
  | nil =>
      cases applied
      simp
  | cons column rest ih =>
      rw [List.foldlM_cons] at applied
      obtain ⟨between, first, applied⟩ := of_bind_ok applied
      obtain ⟨kept, stamped⟩ := applyScopeColumn_spec first
      obtain ⟨laterKept, laterStamped⟩ := ih applied
      constructor
      · intro others
        rw [List.forall_mem_cons] at others
        rw [laterKept others.2, kept name (Ne.symm others.1)]
      · intro some_
        by_cases later : ∃ column ∈ rest, column.propertyName = name
        · by_cases own : column.propertyName = name
          · subst own
            exact stamped.trans (laterStamped later)
          · rw [← kept name (Ne.symm own)]
            exact laterStamped later
        · have unscoped : ∀ column ∈ rest, column.propertyName ≠ name := by
            intro column member same
            exact later ⟨column, member, same⟩
          rw [laterKept unscoped]
          obtain ⟨own, member, rfl⟩ := some_
          rcases List.mem_cons.mp member with rfl | member
          · exact stamped
          · exact absurd rfl (unscoped own member)

theorem applyScopeToEntity_spec {entity scope written : Record} {columns : List ScopedColumnMetadata}
    (applied : applyScopeToEntity entity scope columns = .ok written) :
    ∀ column ∈ columns, Stamps column.propertyName (scope.get column.propertyName)
      (entity.get column.propertyName) (written.get column.propertyName) := by
  obtain ⟨-, -, applied⟩ := of_bind_ok applied
  intro column member
  exact (foldlM_applyScopeColumn applied column.propertyName).2 ⟨column, member, rfl⟩

end Writes

/-! ## Agreement -/

section Agreement

variable {Cell Entity : Type}

/-- The read filters of a scope, as the query gets them. -/
def readScope (host : Host) (schema : Schema Entity) (entity : Entity) (draws : Nat → Text) (scope : Record)
    (columns : List ScopedColumnMetadata) (i draw : Nat) : Except Failure Wheres := do
  let filters ← buildScopeFilters scope columns
  let built ← applyFilters host schema (schema entity) "e" draws filters i draw
  return built.1

/-- The criteria of a mutation. -/
def mutationScope (metadata : EntityMetadata Entity) (scope : Record) (columns : List ScopedColumnMetadata) :
    Except Failure (List (ColumnMetadata × Criterion)) := do
  let criteria ← buildScopeWhere scope columns
  criteriaColumns metadata criteria

/-- The stored row holds the values of the entity in its scoped columns. -/
def Stores (db : Database Cell) (metadata : EntityMetadata Entity) (columns : List ScopedColumnMetadata)
    (entity : Record) (stored : Text → Option Cell) : Prop :=
  ∀ column ∈ columns, ∀ mapped item,
    metadata.findColumnWithPropertyName column.propertyName.toList = some mapped →
    entity.get column.propertyName = .item item → stored mapped.databaseName = db.bind (.item item)

/-- A scalar is bound to a value that equals itself. -/
def Database.BindsScalars (db : Database Cell) : Prop :=
  ∀ item : Item, item.isScalar = true →
    ∃ cell, db.bind (.item item) = some cell ∧ db.compare .equal cell cell = true

theorem Database.BindsScalars.compared {db : Database Cell} (binds : db.BindsScalars) {item : Item}
    (scalar : item.isScalar = true) :
    db.compared .equal (db.bind (.item item)) (db.bind (.item item)) = some true := by
  obtain ⟨cell, isCell, same⟩ := binds item scalar
  rw [isCell, Database.compared, same]

/-- A stamped entity is stored in scope. -/
theorem admits_of_stamped {db : Database Cell} (binds : db.BindsScalars) {metadata : EntityMetadata Entity}
    {scope entity written : Record} {columns : List ScopedColumnMetadata}
    {predicates : List ResolvedScopePredicate} {stored : Text → Option Cell}
    (maps : ∀ column ∈ columns, ∃ mapped, metadata.Maps column.propertyName mapped)
    (resolved : resolveScopePredicates scope columns = .ok predicates)
    (applied : applyScopeToEntity entity scope columns = .ok written)
    (stores : Stores db metadata columns written stored) :
    ∀ predicate ∈ predicates, Admits db metadata stored predicate := by
  intro predicate listed
  obtain ⟨column, member, answered⟩ := Repository.of_resolveScopePredicates resolved predicate listed
  obtain ⟨mapped, isMapped⟩ := maps column member
  have stamps := applyScopeToEntity_spec applied column member
  obtain ⟨isName, cases_⟩ := resolveScopePredicate_cases answered
  refine ⟨mapped, isName ▸ isMapped.byName, ?_⟩
  rcases cases_ with ⟨item, isItem, scalar, operator, values⟩ | ⟨items, isArray, operator, normalized⟩
  · rw [isItem, Stamps, if_neg (by simp [Item.isNullish_of_isScalar scalar])] at stamps
    rw [stores column member mapped item isMapped.byName stamps.2]
    simp only [ResolvedScopePredicate.truth, operator, values, List.headD_cons]
    exact binds.compared scalar
  · rw [isArray] at stamps
    obtain ⟨allowed, selected, normalized', inside, isSelected, -⟩ := stamps
    obtain rfl : predicate.values = allowed := Except.ok.inj (normalized.symm.trans normalized')
    rw [stores column member mapped selected isMapped.byName isSelected]
    simp only [ResolvedScopePredicate.truth, operator]
    rw [Database.equalsOne, Truth.disj_eq_true, List.map_map]
    exact ⟨_, List.mem_map_of_mem inside, binds.compared (mem_normalizeAllowedValues normalized inside)⟩

/-- No row satisfies a predicate whose set of values is empty. -/
theorem not_admits_of_empty {db : Database Cell} {metadata : EntityMetadata Entity} {scope : Record}
    {columns : List ScopedColumnMetadata} {predicates : List ResolvedScopePredicate}
    (resolved : resolveScopePredicates scope columns = .ok predicates) {column : ScopedColumnMetadata}
    (member : column ∈ columns) {items : List Item}
    (isArray : scope.get column.propertyName = .array items)
    (nullish : ∀ item ∈ items, item.isNullish = true) (stored : Text → Option Cell) :
    ¬∀ predicate ∈ predicates, Admits db metadata stored predicate := by
  intro all
  obtain ⟨predicate, listed, isIn, empty⟩ : ∃ predicate ∈ predicates,
      predicate.operator = .isIn ∧ predicate.values = [] := by
    obtain ⟨_, -, resolved⟩ := of_bind_ok resolved
    obtain ⟨answers, each, resolved⟩ := of_bind_ok resolved
    cases resolved
    obtain ⟨answer, listed, isAnswer⟩ := mem_of_mapM each member
    rw [resolveScopePredicate, isArray] at isAnswer
    obtain ⟨values, normalized, rfl⟩ := of_map_ok isAnswer
    exact ⟨_, List.reduceOption_mem_iff.mpr listed, rfl, normalizeAllowedValues_nullish nullish normalized⟩
  obtain ⟨mapped, -, isTrue⟩ := all predicate listed
  rw [ResolvedScopePredicate.truth_of_empty db isIn empty] at isTrue
  cases isTrue

/-- Cells are the values themselves. -/
def itemDatabase : Database Item where
  compare comparison a b :=
    match comparison with
    | .equal => a == b
    | .notEqual => a != b
    | _ => false
  text _ := []
  fold := id
  elements _ := []
  bind data :=
    match data with
    | .item item => if item.isNullish then none else some item
    | _ => none

theorem itemDatabase_bindsScalars : itemDatabase.BindsScalars := by
  intro item scalar
  refine ⟨item, ?_, ?_⟩
  · simp [itemDatabase, Item.isNullish_of_isScalar scalar]
  · simp [itemDatabase]

/-- An entity with one scoped column. -/
def tenantEntity (property : String) : EntityMetadata Unit where
  columns := [⟨property.toList, property.toList, "tenant_id".toList, .other, false⟩]
  relations := []

def tenantScope (property : String) : Record := [(property, .item (.string (JsString.js "a")))]

def tenantScoping (property : String) : Scoping Unit where
  scopedColumns _ := [⟨property, true⟩]
  currentScope _ := .ok (some (tenantScope property))

end Agreement

end SdcoreNest.Orm
