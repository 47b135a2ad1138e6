/-
# Orm.Injection -- what of a filter reaches the text of a statement

The SQL text of the conditions that `applyFilterToQuery` builds.  Values stay out of it: trees
that differ in data only give the same conditions up to the values bound.  Field paths get into it
inside quotes only, and only with characters that no quote is among.

* `applyFilterToQuery_erased` -- same shape, same conditions up to values;
* `resolveColumnName_proper` -- every piece of a column reference is proper;
* `after_proper` -- a reader of proper pieces is outside of quotes between any two of them.
-/
import SdcoreNest.Orm.Parameters

namespace SdcoreNest.Orm

open Theory

set_option autoImplicit false

/-! ## The text -/

/-- How TypeORM is told of one bound value. -/
def placeholder (parameter : Parameter) : Sql := [.code (':' :: parameter.name)]

/-- A placeholder for a list of values. -/
def spreadPlaceholder (parameter : Parameter) : Sql := [.code (":...".toList ++ parameter.name)]

/-- What the text operators compare: lower case, without accents. -/
def foldedSql (inner : Sql) : Sql := code "LOWER(UNACCENT(" ++ inner ++ code "::text))"

/-- A comparison's right side: a column, or a value that is bound. -/
def operandSql : Operand → Sql
  | .column column => column
  | .parameter parameter => placeholder parameter

/-- A bound pattern is folded as a whole; around a column the percent signs are joined on in SQL. -/
def patternSql : Pattern → Sql
  | .parameter parameter => code "LOWER(UNACCENT(" ++ placeholder parameter ++ code "))"
  | .column before column after =>
      (if before then [.string ['%']] ++ code " || " else []) ++ foldedSql column ++
        (if after then code " || " ++ [.string ['%']] else [])

def connectiveSql : Connective → Sql
  | .and => code " AND "
  | .or => code " OR "

mutual

/-- The text of a condition, piece by piece, as the builder calls write it. -/
def conditionSql : Condition → Sql
  | .isNull column => column ++ code " IS NULL"
  | .isNotNull column => column ++ code " IS NOT NULL"
  | .compare comparison column operand => column ++ code comparison.sign ++ operandSql operand
  | .like negated column pattern =>
      foldedSql column ++ code (if negated then " NOT LIKE " else " LIKE ") ++ patternSql pattern
  | .isIn negated column parameter =>
      column ++ code (if negated then " NOT IN (" else " IN (") ++ spreadPlaceholder parameter ++ code ")"
  | .equalsAny column array => column ++ code " = ANY(" ++ array ++ code ")"
  | .holdsNull array => code "array_position(" ++ array ++ code ", NULL) IS NOT NULL"
  | .never => code "1 = 0"
  | .coalesceFalse condition => code "COALESCE(" ++ conditionSql condition ++ code ", FALSE)"
  | .negation conditions => code "NOT (" ++ wheresSql true conditions ++ code ")"
  | .brackets conditions =>
      -- TypeORM prints brackets without conditions as a constant
      if conditions.isEmpty then code "1=1" else code "(" ++ wheresSql true conditions ++ code ")"

/-- Conditions with their connectives; nothing stands before the first one. -/
def wheresSql : Bool → List (Connective × Condition) → Sql
  | _, [] => []
  | first, (connective, condition) :: rest =>
      (if first then [] else connectiveSql connective) ++ conditionSql condition ++ wheresSql false rest

end

/-! ## Conditions without their values -/

/-- The name stays, since the text names it; the value goes. -/
def eraseParameter (parameter : Parameter) : Parameter := ⟨parameter.name, .item .undefined⟩

def eraseOperand : Operand → Operand
  | .column column => .column column
  | .parameter parameter => .parameter (eraseParameter parameter)

def erasePattern : Pattern → Pattern
  | .column before column after => .column before column after
  | .parameter parameter => .parameter (eraseParameter parameter)

mutual

/-- A condition without the values that are bound in it. -/
def eraseValues : Condition → Condition
  | .compare comparison column operand => .compare comparison column (eraseOperand operand)
  | .like negated column pattern => .like negated column (erasePattern pattern)
  | .isIn negated column parameter => .isIn negated column (eraseParameter parameter)
  | .coalesceFalse condition => .coalesceFalse (eraseValues condition)
  | .negation conditions => .negation (eraseWheres conditions)
  | .brackets conditions => .brackets (eraseWheres conditions)
  | condition => condition

def eraseWheres : List (Connective × Condition) → List (Connective × Condition)
  | [] => []
  | (connective, condition) :: rest => (connective, eraseValues condition) :: eraseWheres rest

end

theorem eraseWheres_append (wheres others : Wheres) :
    eraseWheres (wheres ++ others) = eraseWheres wheres ++ eraseWheres others := by
  induction wheres with
  | nil => simp [eraseWheres]
  | cons first rest ih =>
      obtain ⟨connective, condition⟩ := first
      simp [eraseWheres, ih]

mutual

/-- The text does not show the values. -/
theorem conditionSql_erase : ∀ condition : Condition,
    conditionSql (eraseValues condition) = conditionSql condition
  | .isNull _ | .isNotNull _ | .equalsAny _ _ | .holdsNull _ | .never => rfl
  | .compare _ _ (.column _) | .compare _ _ (.parameter _) => rfl
  | .like _ _ (.column _ _ _) | .like _ _ (.parameter _) => rfl
  | .isIn _ _ _ => rfl
  | .coalesceFalse condition => by
      rw [eraseValues, conditionSql, conditionSql, conditionSql_erase condition]
  | .negation conditions => by
      rw [eraseValues, conditionSql, conditionSql, wheresSql_erase true conditions]
  | .brackets conditions => by
      rw [eraseValues, conditionSql, conditionSql, wheresSql_erase true conditions]
      cases conditions <;> rfl

theorem wheresSql_erase : ∀ (first : Bool) (conditions : List (Connective × Condition)),
    wheresSql first (eraseWheres conditions) = wheresSql first conditions
  | _, [] => rfl
  | first, (connective, condition) :: rest => by
      rw [eraseWheres, wheresSql, wheresSql, conditionSql_erase condition, wheresSql_erase false rest]

end

/-! ## Shapes -/

/-- The leaves differ in literal data only. -/
structure Leaf.SameShape (leaf other : Leaf) : Prop where
  field : leaf.field = other.field
  operator : leaf.operator = other.operator
  dataType : leaf.dataType = other.dataType
  timestampUnit : leaf.timestampUnit = other.timestampUnit
  present : leaf.data.isSome = other.data.isSome
  nullish : (leaf.data.getD (.item .undefined)).isNullish = (other.data.getD (.item .undefined)).isNullish
  operand : leaf.dataType = some .field → leaf.data = other.data
  empty : leaf.operator = .isIn ∨ leaf.operator = .notIn →
    (leaf.data = some (.array []) ↔ other.data = some (.array []))

mutual

/-- Two trees with the same groups and leaves, in the same places. -/
def SameShape : Filter → Filter → Prop
  | .leaf leaf, .leaf other => leaf.SameShape other
  | .group operator data, .group operator' data' => operator = operator' ∧ SameShapes data data'
  | _, _ => False

def SameShapes : List Filter → List Filter → Prop
  | [], [] => True
  | filter :: rest, other :: others => SameShape filter other ∧ SameShapes rest others
  | _, _ => False

end

section Shapes

variable {Entity : Type} {host : Host} {schema : Schema Entity} {metadata : EntityMetadata Entity}
  {root : String} {draws : Nat → Text}

/-- The operator and the column decide the condition; of the data only whether a list is empty. -/
theorem applyOperand_erased {leaf other : Leaf} (shape : leaf.SameShape other) {column : Sql}
    {data data' : Data} {param : Text} {wheres wheres' : Wheres}
    (empty : leaf.operator = .isIn ∨ leaf.operator = .notIn → (data = .array [] ↔ data' = .array []))
    (applied : applyOperand host schema metadata leaf column data param = .ok wheres)
    (applied' : applyOperand host schema metadata other column data' param = .ok wheres') :
    eraseWheres wheres = eraseWheres wheres' := by
  simp only [applyOperand] at applied applied'
  rw [← shape.operator] at applied'
  cases operator : leaf.operator with
  | null | notNull | unsupported =>
      rw [operator] at applied
      cases applied
  | between =>
      rw [operator] at applied applied'
      obtain ⟨lower, -, applied⟩ := of_bind_ok applied
      obtain ⟨upper, -, applied⟩ := of_bind_ok applied
      obtain ⟨lower', -, applied'⟩ := of_bind_ok applied'
      obtain ⟨upper', -, applied'⟩ := of_bind_ok applied'
      cases applied
      cases applied'
      rfl
  | isIn | notIn =>
      rw [operator] at applied applied' empty
      by_cases nil : data = .array []
      · simp only [if_pos nil, if_pos ((empty (by simp)).mp nil)] at applied applied'
        cases applied
        cases applied'
        rfl
      · simp only [if_neg nil, if_neg fun nil' => nil ((empty (by simp)).mpr nil')] at applied applied'
        cases applied
        cases applied'
        rfl
  | _ =>
      rw [operator] at applied applied'
      cases applied
      cases applied'
      rfl

/-- The data is looked at for its kind alone, so equal kinds take the same branch. -/
theorem applyData_erased {leaf other : Leaf} (shape : leaf.SameShape other) {column : Sql}
    {data data' : Data} {idx : Count} {draw n n' : Nat} {wheres wheres' : Wheres} (has : leaf.data = some data)
    (has' : other.data = some data')
    (applied : applyData host schema metadata root draws leaf column data idx draw = .ok (wheres, n))
    (applied' : applyData host schema metadata root draws other column data' idx draw = .ok (wheres', n')) :
    eraseWheres wheres = eraseWheres wheres' ∧ n = n' := by
  have nullish : data.isNullish = data'.isNullish := by simpa [has, has'] using shape.nullish
  rw [applyData] at applied applied'
  rw [← nullish, ← shape.dataType] at applied'
  split at applied
  case isTrue silent =>
      rw [if_pos silent] at applied'
      cases applied
      cases applied'
      exact ⟨rfl, rfl⟩
  case isFalse loud =>
      rw [if_neg loud] at applied'
      split at applied
      case isTrue isField =>
          rw [if_pos isField] at applied'
          obtain rfl : data = data' := by simpa [has, has'] using shape.operand isField
          obtain ⟨operand, isOperand, applied⟩ := of_bind_ok applied
          obtain ⟨-, -, applied⟩ := of_bind_ok applied
          obtain ⟨operandColumn, isColumn, applied⟩ := of_bind_ok applied
          obtain ⟨conditions, isWheres, applied⟩ := of_bind_ok applied
          cases applied
          obtain ⟨operand', isOperand', applied'⟩ := of_bind_ok applied'
          obtain ⟨-, -, applied'⟩ := of_bind_ok applied'
          obtain ⟨operandColumn', isColumn', applied'⟩ := of_bind_ok applied'
          obtain ⟨conditions', isWheres', applied'⟩ := of_bind_ok applied'
          cases applied'
          obtain rfl : operand = operand' := Except.ok.inj (isOperand.symm.trans isOperand')
          obtain rfl : operandColumn = operandColumn' := Except.ok.inj (isColumn.symm.trans isColumn')
          rw [shape.operator] at isWheres
          obtain rfl : wheres = wheres' := Except.ok.inj (isWheres.symm.trans isWheres')
          exact ⟨rfl, rfl⟩
      case isFalse isValue =>
          rw [if_neg isValue] at applied'
          obtain ⟨operand, isOperand, applied⟩ := of_bind_ok applied
          obtain ⟨conditions, isWheres, applied⟩ := of_bind_ok applied
          cases applied
          obtain ⟨operand', isOperand', applied'⟩ := of_bind_ok applied'
          obtain ⟨conditions', isWheres', applied'⟩ := of_bind_ok applied'
          cases applied'
          refine ⟨applyOperand_erased shape ?_ isWheres isWheres', rfl⟩
          intro membership
          rw [normalizeTimestampOperand_nil isOperand, normalizeTimestampOperand_nil isOperand']
          have empty := shape.empty membership
          rw [has, has', Option.some.injEq, Option.some.injEq] at empty
          cases kind : leaf.dataType with
          | none => simpa [kind] using empty
          | some kind => simp

/-- Leaves of one shape ask for the same column under the same name. -/
theorem applyLeaf_erased {leaf other : Leaf} (shape : leaf.SameShape other) {idx : Count} {draw n n' : Nat}
    {wheres wheres' : Wheres}
    (applied : applyLeaf host schema metadata root draws leaf idx draw = .ok (wheres, n))
    (applied' : applyLeaf host schema metadata root draws other idx draw = .ok (wheres', n')) :
    eraseWheres wheres = eraseWheres wheres' ∧ n = n' := by
  have name : leaf.name = other.name := by rw [Leaf.name, Leaf.name, shape.field]
  rw [applyLeaf] at applied applied'
  rw [← name, ← shape.operator] at applied'
  split at applied
  case isTrue unnamed =>
      rw [if_pos unnamed] at applied'
      cases applied
      cases applied'
      exact ⟨rfl, rfl⟩
  case isFalse named =>
      rw [if_neg named] at applied'
      obtain ⟨column, isColumn, applied⟩ := of_bind_ok applied
      obtain ⟨column', isColumn', applied'⟩ := of_bind_ok applied'
      obtain rfl : column = column' := Except.ok.inj (isColumn.symm.trans isColumn')
      cases has : leaf.data with
      | none =>
          have has' : other.data = none := by simpa [has] using shape.present
          rw [has] at applied
          rw [has'] at applied'
          obtain same : (wheres, n) = (wheres', n') := by
            cases operator : leaf.operator <;> rw [operator] at applied applied' <;>
              exact Except.ok.inj (applied.symm.trans applied')
          cases same
          exact ⟨rfl, rfl⟩
      | some data =>
          obtain ⟨data', has'⟩ : ∃ data', other.data = some data' := by
            rw [← Option.isSome_iff_exists, ← shape.present, has]
            rfl
          rw [has] at applied
          rw [has'] at applied'
          cases operator : leaf.operator <;> rw [operator] at applied applied'
          case null =>
              cases applied
              cases applied'
              exact ⟨rfl, rfl⟩
          case notNull =>
              cases applied
              cases applied'
              exact ⟨rfl, rfl⟩
          all_goals exact applyData_erased shape has has' applied applied'

mutual

/-- Trees of one shape give the same conditions up to the values bound. -/
theorem applyFilterToQuery_erased : ∀ (filter other : Filter) {idx : Count} {draw n n' : Nat}
    {wheres wheres' : Wheres}, SameShape filter other →
    applyFilterToQuery host schema metadata root draws filter idx draw = .ok (wheres, n) →
    applyFilterToQuery host schema metadata root draws other idx draw = .ok (wheres', n') →
    eraseWheres wheres = eraseWheres wheres' ∧ n = n'
  | .leaf leaf, other => by
      intro shape applied applied'
      cases other with
      | group operator data => cases shape
      | leaf other =>
          rw [applyFilterToQuery] at applied applied'
          obtain ⟨-, -, applied⟩ := of_bind_ok applied
          obtain ⟨-, -, applied'⟩ := of_bind_ok applied'
          exact applyLeaf_erased shape applied applied'
  | .group operator data, other => by
      intro shape applied applied'
      cases other with
      | leaf other => cases shape
      | group operator' data' =>
          obtain ⟨rfl, shapes⟩ := shape
          rw [applyFilterToQuery] at applied applied'
          obtain ⟨-, -, applied⟩ := of_bind_ok applied
          obtain ⟨⟨members, after⟩, areMembers, applied⟩ := of_bind_ok applied
          obtain ⟨-, -, applied'⟩ := of_bind_ok applied'
          obtain ⟨⟨members', after'⟩, areMembers', applied'⟩ := of_bind_ok applied'
          obtain ⟨same, rfl⟩ := applyMembers_erased data data' shapes areMembers areMembers'
          cases applied
          cases applied'
          refine ⟨?_, rfl⟩
          cases data with
          | nil =>
              cases data' with
              | nil => rfl
              | cons other others => cases shapes
          | cons filter rest =>
              cases data' with
              | nil => cases shapes
              | cons other others => simp [eraseWheres, eraseValues, same]

/-- Members are compared in step: the same index, and the same draws used up. -/
theorem applyMembers_erased : ∀ (filters others : List Filter) {operator : Connective}
    {idx : Count} {j draw n n' : Nat} {wheres wheres' : Wheres}, SameShapes filters others →
    applyMembers host schema metadata root draws operator filters idx j draw = .ok (wheres, n) →
    applyMembers host schema metadata root draws operator others idx j draw = .ok (wheres', n') →
    eraseWheres wheres = eraseWheres wheres' ∧ n = n'
  | [], others => by
      intro shapes applied applied'
      cases others with
      | cons other others => cases shapes
      | nil =>
          cases applied
          cases applied'
          exact ⟨rfl, rfl⟩
  | filter :: rest, others => by
      intro shapes applied applied'
      cases others with
      | nil => cases shapes
      | cons other others =>
          obtain ⟨shape, shapes⟩ := shapes
          rw [applyMembers] at applied applied'
          obtain ⟨⟨wrapped, after⟩, isWrapped, applied⟩ := of_bind_ok applied
          obtain ⟨⟨later, after'⟩, areLater, applied⟩ := of_bind_ok applied
          obtain ⟨⟨wrapped', between⟩, isWrapped', applied'⟩ := of_bind_ok applied'
          obtain ⟨⟨later', between'⟩, areLater', applied'⟩ := of_bind_ok applied'
          obtain ⟨same, rfl⟩ := applyFilterToQuery_erased filter other shape isWrapped isWrapped'
          obtain ⟨sames, rfl⟩ := applyMembers_erased rest others shapes areLater areLater'
          cases applied
          cases applied'
          simp [eraseWheres, eraseValues, same, sames]

end

/-- The filters of a query are the members of one AND, with names from index 0. -/
theorem applyFilters_erased {filters others : List Filter} (shapes : SameShapes filters others)
    {i draw n n' : Nat} {wheres wheres' : Wheres}
    (applied : applyFilters host schema metadata root draws filters i draw = .ok (wheres, n))
    (applied' : applyFilters host schema metadata root draws others i draw = .ok (wheres', n')) :
    eraseWheres wheres = eraseWheres wheres' := by
  induction filters generalizing others i draw n n' wheres wheres' with
  | nil =>
      cases others with
      | nil =>
          cases applied
          cases applied'
          rfl
      | cons other others => cases shapes
  | cons filter rest ih =>
      cases others with
      | nil => cases shapes
      | cons other others =>
          obtain ⟨shape, shapes⟩ := shapes
          rw [applyFilters] at applied applied'
          obtain ⟨⟨first, after⟩, isFirst, applied⟩ := of_bind_ok applied
          obtain ⟨⟨later, after'⟩, areLater, done⟩ := of_bind_ok applied
          obtain ⟨⟨first', between⟩, isFirst', applied'⟩ := of_bind_ok applied'
          obtain ⟨⟨later', between'⟩, areLater', done'⟩ := of_bind_ok applied'
          obtain ⟨same, rfl⟩ := applyFilterToQuery_erased filter other shape isFirst isFirst'
          cases done
          cases done'
          rw [eraseWheres_append, eraseWheres_append, same, ih shapes areLater areLater']

end Shapes

/-! ## Pieces -/

/-- A column that the metadata speaks of. -/
def IsKnownColumn {Entity : Type} (schema : Schema Entity) (metadata : EntityMetadata Entity)
    (column : ColumnMetadata) : Prop :=
  column ∈ metadata.columns ∨
    ∃ entity, column ∈ (schema entity).columns ∨
      ∃ relation ∈ (schema entity).relations, column ∈ relation.joinColumns

/-- Every double quote is doubled. -/
def doubled (name : Text) : Text := name.flatMap fun c => if c = '"' then ['"', '"'] else [c]

/-- The literals of the source that stand outside of quotes. -/
def vocabulary : List String :=
  ["e", ".", " ->> ", " -> ", "LOWER(UNACCENT(", "::text))", "))", " || ", " AND ", " OR ", " IS NULL",
    " IS NOT NULL", " = ", " != ", " < ", " <= ", " > ", " >= ", " LIKE ", " NOT LIKE ", " IN (", " NOT IN (",
    ")", " = ANY(", "array_position(", ", NULL) IS NOT NULL", "1 = 0", "COALESCE(", ", FALSE)", "NOT (",
    "1=1", "("]

/-- A name that the program makes up for a bound value. -/
def IsMadeUp (draws : Nat → Suffix) (name : Text) : Prop :=
  ∃ idx n, name ∈ [parameterName idx (draws n).text, parameterName idx (draws n).text ++ "_from".toList,
    parameterName idx (draws n).text ++ "_to".toList]

section Pieces

variable {Entity : Type} (schema : Schema Entity) (metadata : EntityMetadata Entity)
  (draws : Nat → Suffix)

/-- Program text outside of quotes, names of the metadata or safe text inside. -/
def Piece.IsProper : Piece → Prop
  | .code text =>
      text ∈ vocabulary.map String.toList ∨
        ∃ name, IsMadeUp draws name ∧ (text = ':' :: name ∨ text = ":...".toList ++ name)
  | .identifier inside =>
      inside.all isSafeChar = true ∨
        ∃ column, IsKnownColumn schema metadata column ∧ inside = doubled column.databaseName
  | .string inside => inside.all isSafeChar = true ∨ inside = ['%']

/-- Nothing else is in the text. -/
def IsProper (sql : Sql) : Prop := ∀ piece ∈ sql, piece.IsProper schema metadata draws

end Pieces

section Proper

variable {Entity : Type} {schema : Schema Entity} {metadata : EntityMetadata Entity}
  {draws : Nat → Suffix}

/-- Proper text is built up by writing proper text after it. -/
theorem IsProper.append {sql others : Sql} (left : IsProper schema metadata draws sql)
    (right : IsProper schema metadata draws others) : IsProper schema metadata draws (sql ++ others) := by
  intro piece member
  rcases List.mem_append.mp member with member | member
  · exact left piece member
  · exact right piece member

theorem isProper_nil : IsProper schema metadata draws [] := by simp [IsProper]

/-- The literals of the builder are proper, being in its vocabulary. -/
theorem isProper_code {literal : String} (known : vocabulary.contains literal = true) :
    IsProper schema metadata draws (code literal) := by
  intro piece member
  obtain rfl := List.mem_singleton.mp member
  exact .inl (List.mem_map_of_mem (List.contains_iff_mem.mp known))

theorem isProper_string {inside : Text} (safe : inside.all isSafeChar = true) :
    IsProper schema metadata draws [.string inside] := by
  intro piece member
  obtain rfl := List.mem_singleton.mp member
  exact .inl safe

/-- A quoted name is proper when no character of it is a quote. -/
theorem isProper_safe {inside : Text} (safe : inside.all isSafeChar = true) :
    IsProper schema metadata draws [.identifier inside] := by
  intro piece member
  obtain rfl := List.mem_singleton.mp member
  exact .inl safe

/-- Safe names have no quote to double, so they stand as they are. -/
theorem doubled_of_safe {inside : Text} (safe : inside.all isSafeChar = true) : doubled inside = inside := by
  induction inside with
  | nil => rfl
  | cons c rest ih =>
      rw [List.all_cons, Bool.and_eq_true] at safe
      have unquoted : c ≠ '"' := by
        rintro rfl
        exact absurd safe.1 (by decide)
      rw [doubled, List.flatMap_cons, if_neg unquoted]
      exact congrArg (c :: ·) (ih safe.2)

/-- The name of a column is quoted with its quotes doubled; without one the safe path stands in. -/
theorem isProper_quoteIdentifier {name other : Text}
    (known : name = [] ∨ ∃ column, IsKnownColumn schema metadata column ∧ name = column.databaseName)
    (safe : other.all isSafeChar = true) :
    IsProper schema metadata draws (quoteIdentifier (orElse name other)) := by
  have safely : IsProper schema metadata draws (quoteIdentifier other) := by
    have quoted : quoteIdentifier other = [.identifier other] := by
      rw [quoteIdentifier, show other.flatMap _ = doubled other from rfl, doubled_of_safe safe]
    rw [quoted]
    exact isProper_safe safe
  rcases known with rfl | ⟨column, isKnown, rfl⟩
  · exact safely
  · rw [orElse]
    split
    · exact safely
    · intro piece member
      obtain rfl := List.mem_singleton.mp member
      exact .inr ⟨column, isKnown, rfl⟩

theorem mem_joinParts {separator c : Char} {parts : List Text} {part : Text} (member : part ∈ parts)
    (inside : c ∈ part) : c ∈ joinParts separator parts := by
  induction parts with
  | nil => cases member
  | cons first rest ih =>
      rw [joinParts]
      cases rest with
      | nil =>
          obtain rfl := List.mem_singleton.mp member
          rwa [List.intercalate_singleton]
      | cons second others =>
          rw [List.intercalate_cons_cons]
          rcases List.mem_cons.mp member with rfl | member
          · exact List.mem_append_left _ (List.mem_append_left _ inside)
          · exact List.mem_append_right _ (ih member)

theorem of_mem_joinParts {separator c : Char} {parts : List Text}
    (inside : c ∈ joinParts separator parts) : c = separator ∨ ∃ part ∈ parts, c ∈ part := by
  induction parts with
  | nil => cases inside
  | cons first rest ih =>
      rw [joinParts] at inside
      cases rest with
      | nil =>
          rw [List.intercalate_singleton] at inside
          exact .inr ⟨first, List.mem_singleton_self first, inside⟩
      | cons second others =>
          rw [List.intercalate_cons_cons, List.mem_append, List.mem_append, List.mem_singleton] at inside
          rcases inside with (inside | isSeparator) | inside
          · exact .inr ⟨first, List.mem_cons_self, inside⟩
          · exact .inl isSeparator
          · rcases ih inside with isSeparator | ⟨part, member, inside⟩
            · exact .inl isSeparator
            · exact .inr ⟨part, List.mem_cons_of_mem _ member, inside⟩

theorem joinParts_partsOf (field : Text) : joinParts '.' (partsOf field) = field :=
  List.intercalate_splitOn '.'

/-- The parts of a safe path are safe. -/
theorem safe_of_mem_partsOf {field part : Text} (safe : field.all isSafeChar = true)
    (member : part ∈ partsOf field) : part.all isSafeChar = true := by
  rw [List.all_eq_true] at safe ⊢
  intro c inside
  apply safe
  rw [← joinParts_partsOf field]
  exact mem_joinParts member inside

/-- Joined by dots, safe parts are a safe path again: the dot is among the safe characters. -/
theorem safe_joinParts {parts : List Text} (safe : ∀ part ∈ parts, part.all isSafeChar = true) :
    (joinParts '.' parts).all isSafeChar = true := by
  rw [List.all_eq_true]
  intro c inside
  rcases of_mem_joinParts inside with rfl | ⟨part, member, inside⟩
  · decide
  · exact List.all_eq_true.mp (safe part member) c inside

/-- Keys of a JSON column go into string quotes, which their characters can not close. -/
theorem jsonPath_proper {keys : List Text} (safe : ∀ key ∈ keys, key.all isSafeChar = true) :
    IsProper schema metadata draws (jsonPath keys) := by
  induction keys with
  | nil => exact isProper_nil
  | cons key rest ih =>
      obtain ⟨isSafe, others⟩ := List.forall_mem_cons.mp safe
      cases rest with
      | nil => exact (isProper_code (by decide)).append (isProper_string isSafe)
      | cons second rest =>
          exact ((isProper_code (by decide)).append (isProper_string isSafe)).append (ih others)

/-- A column that is found by its path is one of the metadata. -/
theorem known_of_findColumnWithPropertyPath {entity : Entity} {path : Text} {column : ColumnMetadata}
    (found : (schema entity).findColumnWithPropertyPath path = some column) :
    IsKnownColumn schema metadata column := by
  refine .inr ⟨entity, ?_⟩
  rw [EntityMetadata.findColumnWithPropertyPath] at found
  split at found
  case h_1 own isOwn =>
      cases found
      exact .inl (List.mem_of_find?_eq_some isOwn)
  case h_2 =>
      split at found
      case h_2 => cases found
      case h_1 relation isRelation =>
          split at found
          case h_2 => cases found
          case h_1 only isOnly =>
              cases found
              refine .inr ⟨relation, List.mem_of_find?_eq_some isRelation, ?_⟩
              rw [isOnly]
              exact List.mem_singleton_self _

/-- Through a relation the reference names a join column or the path itself. -/
theorem viaRelation_proper {field rootProp : Text} {rest : List Text}
    (safe : field.all isSafeChar = true) (safeRoot : rootProp.all isSafeChar = true)
    (safeRest : ∀ part ∈ rest, part.all isSafeChar = true) :
    IsProper schema metadata draws
      (resolveColumnName.viaRelation schema metadata "e" field rootProp rest) := by
  unfold resolveColumnName.viaRelation
  split
  case h_1 relation key keys isRelation =>
      refine ((isProper_quoteIdentifier (.inl rfl) safeRoot).append (isProper_code (by decide))).append
        (isProper_quoteIdentifier ?_ (safe_joinParts safeRest))
      cases found : (schema relation.inverse).findColumnWithPropertyPath (joinParts '.' (key :: keys)) with
      | none => exact .inl rfl
      | some column => exact .inr ⟨column, known_of_findColumnWithPropertyPath found, rfl⟩
  case h_2 =>
      exact ((isProper_code (by decide)).append (isProper_code (by decide))).append (isProper_safe safe)

/-- Every piece of a column reference is proper. -/
theorem resolveColumnName_proper {field : Text} {sql : Sql}
    (resolved : resolveColumnName schema metadata "e" field = .ok sql) :
    IsProper schema metadata draws sql := by
  rw [resolveColumnName] at resolved
  split at resolved
  · cases resolved
  case isFalse accepted =>
      have safe : field.all isSafeChar = true := by
        rw [isSafeField] at accepted
        simp only [Bool.not_eq_true, Bool.not_eq_false', Bool.and_eq_true] at accepted
        exact accepted.2
      split at resolved
      · cases resolved
        exact isProper_nil
      case h_2 rootProp rest areParts =>
          have safeRoot := safe_of_mem_partsOf safe (areParts ▸ List.mem_cons_self)
          have safeRest : ∀ part ∈ rest, part.all isSafeChar = true := fun part member =>
            safe_of_mem_partsOf safe (areParts ▸ List.mem_cons_of_mem rootProp member)
          have proper (column : ColumnMetadata)
              (found : metadata.findColumnWithPropertyName rootProp = some column) :
              IsProper schema metadata draws
                (code "e" ++ code "." ++ quoteIdentifier (orElse column.databaseName rootProp)) :=
            ((isProper_code (by decide)).append (isProper_code (by decide))).append
              (isProper_quoteIdentifier
                (.inr ⟨column, .inl (List.mem_of_find?_eq_some found), rfl⟩) safeRoot)
          split at resolved
          case h_1 column found =>
              cases resolved
              exact proper column found
          case h_2 column key keys found =>
              split at resolved
              · cases resolved
                exact (proper column found).append (jsonPath_proper safeRest)
              · cases resolved
                exact viaRelation_proper safe safeRoot safeRest
          case h_3 =>
              cases resolved
              exact viaRelation_proper safe safeRoot safeRest

/-! ## Conditions -/

variable (schema metadata draws) in
/-- A chain of conditions is proper when each of them is. -/
def ProperWheres (wheres : Wheres) : Prop :=
  ∀ condition ∈ wheres, IsProper schema metadata draws (conditionSql condition.2)

/-- The words between the conditions are in the vocabulary, so the chain is proper text. -/
theorem ProperWheres.sql {wheres : Wheres} (proper : ProperWheres schema metadata draws wheres) (first : Bool) :
    IsProper schema metadata draws (wheresSql first wheres) := by
  induction wheres generalizing first with
  | nil => exact isProper_nil
  | cons condition rest ih =>
      obtain ⟨connective, condition⟩ := condition
      obtain ⟨own, others⟩ := List.forall_mem_cons.mp proper
      rw [wheresSql]
      refine (IsProper.append ?_ own).append (ih others false)
      cases first with
      | true => exact isProper_nil
      | false => cases connective <;> exact isProper_code (by decide)

theorem properWheres_one {connective : Connective} {condition : Condition}
    (proper : IsProper schema metadata draws (conditionSql condition)) :
    ProperWheres schema metadata draws [(connective, condition)] := by
  intro member inside
  obtain rfl := List.mem_singleton.mp inside
  exact proper

theorem ProperWheres.cons {connective : Connective} {condition : Condition} {rest : Wheres}
    (proper : IsProper schema metadata draws (conditionSql condition))
    (others : ProperWheres schema metadata draws rest) :
    ProperWheres schema metadata draws ((connective, condition) :: rest) :=
  List.forall_mem_cons.mpr ⟨proper, others⟩

theorem properWheres_nil : ProperWheres schema metadata draws [] := by simp [ProperWheres]

/-- Brackets add parentheses, or the constant for no condition at all. -/
theorem ProperWheres.brackets {wheres : Wheres} (proper : ProperWheres schema metadata draws wheres) :
    IsProper schema metadata draws (conditionSql (.brackets wheres)) := by
  rw [conditionSql]
  split
  · exact isProper_code (by decide)
  · exact ((isProper_code (by decide)).append (proper.sql true)).append (isProper_code (by decide))

theorem ProperWheres.negation {wheres : Wheres} (proper : ProperWheres schema metadata draws wheres) :
    IsProper schema metadata draws (conditionSql (.negation wheres)) := by
  rw [conditionSql]
  exact ((isProper_code (by decide)).append (proper.sql true)).append (isProper_code (by decide))

/-- A placeholder is proper because its name is made up by the program. -/
theorem placeholder_proper {parameter : Parameter} (madeUp : IsMadeUp draws parameter.name) :
    IsProper schema metadata draws (placeholder parameter) := by
  intro piece member
  obtain rfl := List.mem_singleton.mp member
  exact .inr ⟨parameter.name, madeUp, .inl rfl⟩

theorem spreadPlaceholder_proper {parameter : Parameter} (madeUp : IsMadeUp draws parameter.name) :
    IsProper schema metadata draws (spreadPlaceholder parameter) := by
  intro piece member
  obtain rfl := List.mem_singleton.mp member
  exact .inr ⟨parameter.name, madeUp, .inr rfl⟩

theorem foldedSql_proper {column : Sql} (proper : IsProper schema metadata draws column) :
    IsProper schema metadata draws (foldedSql column) :=
  ((isProper_code (by decide)).append proper).append (isProper_code (by decide))

/-- A comparison is proper when both sides of its sign are. -/
theorem compare_proper {comparison : Comparison} {column : Sql} {operand : Operand}
    (proper : IsProper schema metadata draws column)
    (proper' : IsProper schema metadata draws (operandSql operand)) :
    IsProper schema metadata draws (conditionSql (.compare comparison column operand)) := by
  rw [conditionSql]
  refine (proper.append ?_).append proper'
  cases comparison <;> exact isProper_code (by decide)

/-- A text condition is proper when the column and the pattern are. -/
theorem like_proper {negated : Bool} {column : Sql} {pattern : Pattern}
    (proper : IsProper schema metadata draws column)
    (proper' : IsProper schema metadata draws (patternSql pattern)) :
    IsProper schema metadata draws (conditionSql (.like negated column pattern)) := by
  rw [conditionSql]
  refine ((foldedSql_proper proper).append ?_).append proper'
  cases negated <;> exact isProper_code (by decide)

theorem percent_proper : IsProper schema metadata draws [.string ['%']] := by
  intro piece member
  obtain rfl := List.mem_singleton.mp member
  exact .inr rfl

/-- Around a column the only string is a percent sign. -/
theorem patternSql_proper {before after : Bool} {column : Sql}
    (proper : IsProper schema metadata draws column) :
    IsProper schema metadata draws (patternSql (.column before column after)) := by
  rw [patternSql]
  refine (IsProper.append ?_ (foldedSql_proper proper)).append ?_
  · cases before with
    | false => exact isProper_nil
    | true => exact percent_proper.append (isProper_code (by decide))
  · cases after with
    | false => exact isProper_nil
    | true => exact (isProper_code (by decide)).append percent_proper

theorem isNull_proper {column : Sql} (proper : IsProper schema metadata draws column) :
    IsProper schema metadata draws (conditionSql (.isNull column)) :=
  proper.append (isProper_code (by decide))

theorem isNotNull_proper {column : Sql} (proper : IsProper schema metadata draws column) :
    IsProper schema metadata draws (conditionSql (.isNotNull column)) :=
  proper.append (isProper_code (by decide))

theorem coalesceFalse_proper {condition : Condition}
    (proper : IsProper schema metadata draws (conditionSql condition)) :
    IsProper schema metadata draws (conditionSql (.coalesceFalse condition)) := by
  rw [conditionSql]
  exact ((isProper_code (by decide)).append proper).append (isProper_code (by decide))

theorem nullSafeEqual_proper {column other : Sql} (proper : IsProper schema metadata draws column)
    (proper' : IsProper schema metadata draws other) :
    ProperWheres schema metadata draws (nullSafeEqual column other) :=
  .cons (coalesceFalse_proper (compare_proper proper proper'))
    (properWheres_one (ProperWheres.brackets
      (.cons (isNull_proper proper) (properWheres_one (isNull_proper proper')))))

theorem nullSafeMember_proper {column other : Sql} (proper : IsProper schema metadata draws column)
    (proper' : IsProper schema metadata draws other) :
    ProperWheres schema metadata draws (nullSafeMember column other) := by
  refine .cons (coalesceFalse_proper ?_) (properWheres_one (ProperWheres.brackets
    (.cons (isNull_proper proper) (properWheres_one ?_))))
  · exact ((proper.append (isProper_code (by decide))).append proper').append (isProper_code (by decide))
  · exact ((isProper_code (by decide)).append proper').append (isProper_code (by decide))

/-- A column on the right is resolved like the one on the left, and as proper. -/
theorem applyColumnOperand_proper {operator : Operator} {column other : Sql} {wheres : Wheres}
    (proper : IsProper schema metadata draws column) (proper' : IsProper schema metadata draws other)
    (applied : applyColumnOperand operator column other = .ok wheres) :
    ProperWheres schema metadata draws wheres := by
  cases operator <;> cases applied
  case equal => exact properWheres_one (nullSafeEqual_proper proper proper').brackets
  case notEqual => exact properWheres_one (nullSafeEqual_proper proper proper').negation
  case isIn => exact properWheres_one (nullSafeMember_proper proper proper').brackets
  case notIn =>
      exact .cons (isNotNull_proper proper')
        (properWheres_one (nullSafeMember_proper proper proper').negation)
  case lessThan | lessOrEqual | greaterThan | greaterOrEqual =>
      exact properWheres_one (compare_proper proper proper')
  all_goals exact properWheres_one (like_proper proper (patternSql_proper proper'))

/-- Every operator writes literals, its column and placeholders. -/
theorem applyOperand_proper {host : Host} {leaf : Leaf} {column : Sql} {data : Data} {idx : Count} {n : Nat}
    {wheres : Wheres} (proper : IsProper schema metadata draws column)
    (applied : applyOperand host schema metadata leaf column data (parameterName idx (draws n).text) =
      .ok wheres) : ProperWheres schema metadata draws wheres := by
  have madeUp : IsMadeUp draws (parameterName idx (draws n).text) := ⟨idx, n, by simp⟩
  simp only [applyOperand] at applied
  cases operator : leaf.operator with
  | null | notNull | unsupported =>
      rw [operator] at applied
      cases applied
  | between =>
      rw [operator] at applied
      obtain ⟨lower, -, applied⟩ := of_bind_ok applied
      obtain ⟨upper, -, applied⟩ := of_bind_ok applied
      cases applied
      exact .cons (compare_proper proper (placeholder_proper ⟨idx, n, by simp⟩))
        (properWheres_one (compare_proper proper (placeholder_proper ⟨idx, n, by simp⟩)))
  | isIn =>
      rw [operator] at applied
      by_cases empty : data = .array []
      · simp only [if_pos empty] at applied
        cases applied
        exact properWheres_one (isProper_code (by decide))
      · simp only [if_neg empty] at applied
        cases applied
        exact properWheres_one (((proper.append (isProper_code (by decide))).append
          (spreadPlaceholder_proper madeUp)).append (isProper_code (by decide)))
  | notIn =>
      rw [operator] at applied
      by_cases empty : data = .array []
      · simp only [if_pos empty] at applied
        cases applied
        exact properWheres_nil
      · simp only [if_neg empty] at applied
        cases applied
        exact properWheres_one (((proper.append (isProper_code (by decide))).append
          (spreadPlaceholder_proper madeUp)).append (isProper_code (by decide)))
  | contain | notContain | startWith | notStartWith | endWith | notEndWith =>
      rw [operator] at applied
      cases applied
      exact properWheres_one (like_proper proper
        (((isProper_code (by decide)).append (placeholder_proper madeUp)).append
          (isProper_code (by decide))))
  | _ =>
      rw [operator] at applied
      cases applied
      exact properWheres_one (compare_proper proper (placeholder_proper madeUp))

theorem applyData_proper {host : Host} {leaf : Leaf} {column : Sql} {data : Data} {idx : Count} {draw n : Nat}
    {wheres : Wheres} (proper : IsProper schema metadata draws column)
    (applied : applyData host schema metadata "e" (fun n => (draws n).text) leaf column data idx draw =
      .ok (wheres, n)) : ProperWheres schema metadata draws wheres := by
  rw [applyData] at applied
  split at applied
  · cases applied
    exact properWheres_nil
  · split at applied
    · obtain ⟨operand, -, applied⟩ := of_bind_ok applied
      obtain ⟨-, -, applied⟩ := of_bind_ok applied
      obtain ⟨other, isOther, applied⟩ := of_bind_ok applied
      obtain ⟨conditions, isWheres, applied⟩ := of_bind_ok applied
      cases applied
      exact applyColumnOperand_proper proper (resolveColumnName_proper isOther) isWheres
    · obtain ⟨operand, -, applied⟩ := of_bind_ok applied
      obtain ⟨conditions, isWheres, applied⟩ := of_bind_ok applied
      cases applied
      exact applyOperand_proper proper isWheres

/-- The field of a leaf reaches the text through its column only, and its data not at all. -/
theorem applyLeaf_proper {host : Host} {leaf : Leaf} {idx : Count} {draw n : Nat} {wheres : Wheres}
    (applied : applyLeaf host schema metadata "e" (fun n => (draws n).text) leaf idx draw =
      .ok (wheres, n)) : ProperWheres schema metadata draws wheres := by
  rw [applyLeaf] at applied
  split at applied
  · cases applied
    exact properWheres_nil
  · obtain ⟨column, isColumn, applied⟩ := of_bind_ok applied
    have proper : IsProper schema metadata draws column := resolveColumnName_proper isColumn
    split at applied
    · cases applied
      exact properWheres_one (isNull_proper proper)
    · cases applied
      exact properWheres_one (isNotNull_proper proper)
    · cases applied
      exact properWheres_nil
    · exact applyData_proper proper applied

mutual

theorem applyFilterToQuery_proper {host : Host} : ∀ (filter : Filter) {idx : Count} {draw n : Nat} {wheres : Wheres},
    applyFilterToQuery host schema metadata "e" (fun n => (draws n).text) filter idx draw =
      .ok (wheres, n) → ProperWheres schema metadata draws wheres
  | .leaf leaf => by
      intro applied
      rw [applyFilterToQuery] at applied
      obtain ⟨-, -, applied⟩ := of_bind_ok applied
      exact applyLeaf_proper applied
  | .group operator data => by
      intro applied
      rw [applyFilterToQuery] at applied
      obtain ⟨-, -, applied⟩ := of_bind_ok applied
      obtain ⟨⟨members, after⟩, areMembers, applied⟩ := of_bind_ok applied
      have proper := applyMembers_proper data areMembers
      cases applied
      split
      · exact properWheres_nil
      · exact properWheres_one proper.brackets

/-- Groups in brackets, one after the other; the induction goes along with the tree. -/
theorem applyMembers_proper {host : Host} : ∀ (filters : List Filter) {operator : Connective}
    {idx : Count} {j draw n : Nat} {wheres : Wheres},
    applyMembers host schema metadata "e" (fun n => (draws n).text) operator filters idx j draw =
      .ok (wheres, n) → ProperWheres schema metadata draws wheres
  | [] => by
      intro applied
      cases applied
      exact properWheres_nil
  | filter :: rest => by
      intro applied
      rw [applyMembers] at applied
      obtain ⟨⟨wrapped, after⟩, isWrapped, applied⟩ := of_bind_ok applied
      obtain ⟨⟨others, after'⟩, areOthers, applied⟩ := of_bind_ok applied
      cases applied
      exact .cons (applyFilterToQuery_proper filter isWrapped).brackets (applyMembers_proper rest areOthers)

end

theorem applyFilters_proper {host : Host} {filters : List Filter} {i draw n : Nat} {wheres : Wheres}
    (applied : applyFilters host schema metadata "e" (fun n => (draws n).text) filters i draw =
      .ok (wheres, n)) : ProperWheres schema metadata draws wheres := by
  induction filters generalizing i draw n wheres with
  | nil =>
      cases applied
      exact properWheres_nil
  | cons filter rest ih =>
      rw [applyFilters] at applied
      obtain ⟨⟨first, after⟩, isFirst, applied⟩ := of_bind_ok applied
      obtain ⟨⟨others, after'⟩, areOthers, applied⟩ := of_bind_ok applied
      cases applied
      intro condition member
      rcases List.mem_append.mp member with member | member
      · exact applyFilterToQuery_proper filter isFirst condition member
      · exact ih areOthers condition member

/-! ## Quotes -/

/-- SAFE_FIELD lets no quote through. -/
theorem not_isQuote_of_safe {text : Text} (safe : text.all isSafeChar = true) :
    ∀ c ∈ text, Quoting.isQuote c = false := by
  intro c inside
  have isSafe := List.all_eq_true.mp safe c inside
  by_contra quote
  rw [Bool.not_eq_false, Quoting.isQuote, Bool.or_eq_true, beq_iff_eq, beq_iff_eq] at quote
  rcases quote with rfl | rfl <;> exact absurd isSafe (by decide)

/-- No literal of the builder opens or closes a quote. -/
theorem not_isQuote_vocabulary :
    (vocabulary.all fun literal => literal.toList.all fun c => !Quoting.isQuote c) = true := by decide

/-- Neither the index nor the drawn digits have a quote in them. -/
theorem not_isQuote_parameterName (idx : Count) (suffix : Suffix) :
    ∀ c ∈ parameterName idx suffix.text, Quoting.isQuote c = false := by
  intro c inside
  by_contra quote
  rw [Bool.not_eq_false, Quoting.isQuote, Bool.or_eq_true, beq_iff_eq, beq_iff_eq] at quote
  simp only [parameterName, List.mem_append, List.mem_singleton] at inside
  rcases inside with ((inside | inside) | rfl) | inside
  · rcases quote with rfl | rfl <;> exact absurd inside (by decide)
  · rcases Count.mem_text inside with digit | letter
    · rcases quote with rfl | rfl <;> exact absurd digit (by decide)
    · rcases quote with rfl | rfl <;> exact absurd letter (by decide)
  · rcases quote with quote | quote <;> exact absurd quote (by decide)
  · have base36 := List.all_eq_true.mp suffix.base36 c inside
    rcases quote with rfl | rfl <;> exact absurd base36 (by decide)

theorem not_isQuote_madeUp {name : Text} (madeUp : IsMadeUp draws name) :
    ∀ c ∈ name, Quoting.isQuote c = false := by
  obtain ⟨idx, n, member⟩ := madeUp
  have plain := not_isQuote_parameterName idx (draws n)
  have append (ending : String) (noQuote : (ending.toList.all fun c => !Quoting.isQuote c) = true) :
      ∀ c ∈ parameterName idx (draws n).text ++ ending.toList, Quoting.isQuote c = false := by
    intro c inside
    rcases List.mem_append.mp inside with inside | inside
    · exact plain c inside
    · simpa using List.all_eq_true.mp noQuote c inside
  simp only [List.mem_cons, List.not_mem_nil, or_false] at member
  rcases member with rfl | rfl | rfl
  · exact plain
  · exact append "_from" (by decide)
  · exact append "_to" (by decide)

/-- A doubled quote is read as one quote inside the name, so the name goes on. -/
theorem after_doubled (name : Text) : Quoting.after .identifier (doubled name) = .identifier := by
  induction name with
  | nil => rfl
  | cons c rest ih =>
      rw [doubled, List.flatMap_cons, Quoting.after_append]
      split
      case isTrue => exact ih
      case isFalse unquoted =>
          have stays : Quoting.after .identifier [c] = .identifier := by
            unfold Quoting.after Quoting.step
            simp only [List.foldl_cons, List.foldl_nil]
            split <;> simp_all
          rw [stays]
          exact ih

/-- A reader that meets a proper piece outside of quotes is outside of quotes after it. -/
theorem after_piece {piece : Piece} (proper : piece.IsProper schema metadata draws) :
    Quoting.after .outside piece.text = .outside := by
  cases piece with
  | code text =>
      apply Quoting.after_of_not_isQuote
      rcases proper with known | ⟨name, madeUp, rfl | rfl⟩
      · obtain ⟨literal, member, rfl⟩ := List.mem_map.mp known
        intro c inside
        have plain := List.all_eq_true.mp not_isQuote_vocabulary literal member
        simpa using List.all_eq_true.mp plain c inside
      · exact List.forall_mem_cons.mpr ⟨by decide, not_isQuote_madeUp madeUp⟩
      · intro c inside
        rcases List.mem_append.mp inside with inside | inside
        · have plain : (":...".toList.all fun c => !Quoting.isQuote c) = true := by decide
          simpa using List.all_eq_true.mp plain c inside
        · exact not_isQuote_madeUp madeUp c inside
  | identifier inside =>
      have stays : Quoting.after .identifier inside = .identifier := by
        rcases proper with safe | ⟨column, -, rfl⟩
        · exact Quoting.after_of_not_isQuote (not_isQuote_of_safe safe) _
        · exact after_doubled _
      rw [Piece.text, List.cons_append, show '"' :: (inside ++ ['"']) = ['"'] ++ (inside ++ ['"']) from rfl,
        Quoting.after_append, Quoting.after_append, show Quoting.after .outside ['"'] = .identifier from rfl,
        stays]
      rfl
  | string inside =>
      have stays : Quoting.after .string inside = .string := by
        rcases proper with safe | rfl
        · exact Quoting.after_of_not_isQuote (not_isQuote_of_safe safe) _
        · rfl
      rw [Piece.text, List.cons_append, show '\'' :: (inside ++ ['\'']) = ['\''] ++ (inside ++ ['\'']) from rfl,
        Quoting.after_append, Quoting.after_append, show Quoting.after .outside ['\''] = .string from rfl,
        stays]
      rfl

/-- Between any two proper pieces the reader is outside of quotes. -/
theorem after_proper {sql : Sql} (proper : IsProper schema metadata draws sql) :
    Quoting.after .outside sql.text = .outside := by
  induction sql with
  | nil => rfl
  | cons piece rest ih =>
      obtain ⟨first, others⟩ := List.forall_mem_cons.mp proper
      rw [Sql.text, List.flatMap_cons, Quoting.after_append, after_piece first]
      exact ih others

/-- As far as a reader gets in a text without quotes, it stays between the quotes. -/
theorem after_opened {sql : Sql} {inside part : Text} {quote : Char} {quoting : Quoting}
    (proper : IsProper schema metadata draws sql) (opens : Quoting.step .outside quote = quoting)
    (safe : inside.all isSafeChar = true) (isPart : part <+: inside) :
    Quoting.after .outside (sql.text ++ quote :: part) = quoting := by
  have plain : ∀ c ∈ part, Quoting.isQuote c = false := fun c member =>
    not_isQuote_of_safe safe c (isPart.subset member)
  rw [Quoting.after_append, after_proper proper, Quoting.after, List.foldl_cons, opens]
  exact Quoting.after_of_not_isQuote plain quoting

end Proper

/-! ## What reaches the text -/

/-- Pieces of the text, as a reader of SQL meets them: every piece begins outside of quotes, and
safe text in quotes does not end them. -/
structure ReadAs (sql : Sql) : Prop where
  outside : ∀ before after, sql = before ++ after → Quoting.after .outside (Sql.text before) = .outside
  identifier : ∀ before after inside, sql = before ++ .identifier inside :: after →
    inside.all isSafeChar = true → ∀ part, part <+: inside →
      Quoting.after .outside (Sql.text before ++ '"' :: part) = .identifier
  string : ∀ before after inside, sql = before ++ .string inside :: after →
    inside.all isSafeChar = true → ∀ part, part <+: inside →
      Quoting.after .outside (Sql.text before ++ '\'' :: part) = .string

/-- Proper text is read as it was written. -/
theorem IsProper.readAs {Entity : Type} {schema : Schema Entity} {metadata : EntityMetadata Entity}
    {draws : Nat → Suffix} {sql : Sql} (proper : IsProper schema metadata draws sql) : ReadAs sql where
  outside := by
    rintro before after rfl
    exact after_proper fun piece member => proper piece (List.mem_append_left _ member)
  identifier := by
    rintro before after inside rfl safe part isPart
    exact after_opened (fun piece member => proper piece (List.mem_append_left _ member)) rfl safe isPart
  string := by
    rintro before after inside rfl safe part isPart
    exact after_opened (fun piece member => proper piece (List.mem_append_left _ member)) rfl safe isPart

/-- Filters of the same shape give the same text and conditions that differ in bound values only;
and every piece of the text is program text outside of quotes, or a name of the metadata or safe
text that does not end the quotes it stands in. -/
theorem values_stay_out {Entity : Type} (host : Host) (schema : Schema Entity)
    (metadata : EntityMetadata Entity) (draws : Nat → Suffix) {filters : List Filter} {wheres : Wheres}
    {n : Nat}
    (built : applyFilters host schema metadata "e" (fun n => (draws n).text) filters 0 0 =
      .ok (wheres, n)) :
    (∀ others wheres' n', SameShapes filters others →
      applyFilters host schema metadata "e" (fun n => (draws n).text) others 0 0 = .ok (wheres', n') →
      eraseWheres wheres = eraseWheres wheres' ∧
        (wheresSql true wheres).text = (wheresSql true wheres').text) ∧
      IsProper schema metadata draws (wheresSql true wheres) ∧ ReadAs (wheresSql true wheres) := by
  have proper := (applyFilters_proper built).sql true
  refine ⟨?_, proper, proper.readAs⟩
  intro others wheres' n' shapes built'
  have erased := applyFilters_erased shapes built built'
  refine ⟨erased, ?_⟩
  rw [← wheresSql_erase true wheres, erased, wheresSql_erase]

/-- A quote, a semicolon and a comment sign as data leave the text as it is. -/
theorem code_stays_out :
    eraseWheres [(.and, codeIs (parameterName (.ofNat 0) ['i']) "a")] =
        eraseWheres [(.and, codeIs (parameterName (.ofNat 0) ['i']) "'; --")] ∧
      (wheresSql true [(.and, codeIs (parameterName (.ofNat 0) ['i']) "a")]).text =
        (wheresSql true [(.and, codeIs (parameterName (.ofNat 0) ['i']) "'; --")]).text :=
  (values_stay_out plainHost (fun _ => bareEntity) bareEntity (fun _ => sameSuffix)
    (show applyFilters plainHost (fun _ => bareEntity) bareEntity "e" _ [isCode "a"] 0 0 = _ from rfl)).1
    [isCode "'; --"] _ _ ⟨⟨rfl, rfl, rfl, rfl, rfl, rfl, by simp, by simp⟩, trivial⟩ rfl

end SdcoreNest.Orm
