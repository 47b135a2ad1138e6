/-
# Orm.Parameters -- the names of bound values

Every leaf that binds a value names its parameter after an index and a random suffix.  The index
of a member of a group is `idx * 1000 + j`, which is not its own: the second member of the first
group has the index of the second filter, and far down in a tree, where the index is a double with
no room for `j`, neighbours have one index.  What keeps the names apart is then the suffix alone.

* `applyFilters_names` -- the names are those of the slots of the forest, in order;
* `slotNames_disjoint` -- two slots share a name just when kind, index and suffix agree.
-/
import SdcoreNest.Orm.FilterMeaning

namespace SdcoreNest.Orm

open Theory

set_option autoImplicit false

/-! ## Bound values -/

mutual

def Condition.parameters : Condition → List Parameter
  | .compare _ _ (.parameter parameter) => [parameter]
  | .like _ _ (.parameter parameter) => [parameter]
  | .isIn _ _ parameter => [parameter]
  | .coalesceFalse condition => condition.parameters
  | .negation conditions => parametersOf conditions
  | .brackets conditions => parametersOf conditions
  | _ => []

def parametersOf : List (Connective × Condition) → List Parameter
  | [] => []
  | (_, condition) :: rest => condition.parameters ++ parametersOf rest

end

theorem parametersOf_append (wheres others : Wheres) :
    parametersOf (wheres ++ others) = parametersOf wheres ++ parametersOf others := by
  induction wheres with
  | nil => simp [parametersOf]
  | cons first rest ih =>
      obtain ⟨connective, condition⟩ := first
      simp [parametersOf, ih]

/-- The value that a name has in the end: the query keeps one value a name, the last one set. -/
def boundValue (parameters : List Parameter) (name : Text) : Option Data :=
  (parameters.reverse.find? fun parameter => parameter.name == name).map Parameter.value

theorem boundValue_eq {parameters : List Parameter} (distinct : (parameters.map Parameter.name).Nodup)
    {parameter : Parameter} (member : parameter ∈ parameters) :
    boundValue parameters parameter.name = some parameter.value := by
  have found : parameters.reverse.find? (fun other => other.name == parameter.name) = some parameter := by
    cases search : parameters.reverse.find? (fun other => other.name == parameter.name) with
    | none =>
        have absent := List.find?_eq_none.mp search parameter (List.mem_reverse.mpr member)
        simp at absent
    | some other =>
        have same : other.name = parameter.name := by simpa using List.find?_some search
        have inside : other ∈ parameters := List.mem_reverse.mp (List.mem_of_find?_eq_some search)
        rw [List.inj_on_of_nodup_map distinct inside member same]
  rw [boundValue, found]
  rfl

/-! ## Suffixes and slots -/

def isBase36 (c : Char) : Bool := ('0' ≤ c && c ≤ '9') || ('a' ≤ c && c ≤ 'z')

/-- What `Math.random().toString(36).slice(2, 8)` can be. -/
structure Suffix where
  text : Text
  short : text.length ≤ 6
  base36 : text.all isBase36 = true

/-- A leaf that binds a value: its index, the draw it names the value with, and whether it binds
two values. -/
structure Slot where
  idx : Count
  draw : Nat
  between : Bool
deriving DecidableEq

/-- The leaf draws a random number. -/
def Leaf.drawsOne (leaf : Leaf) : Bool :=
  !leaf.name.isEmpty && leaf.operator != .null && leaf.operator != .notNull &&
    !(leaf.data.getD (.item .undefined)).isNullish && leaf.dataType != some .field

/-- An empty membership list draws and binds nothing. -/
def Leaf.slots (leaf : Leaf) (idx : Count) (draw : Nat) : List Slot :=
  if !leaf.drawsOne then []
  else if (leaf.operator == .isIn || leaf.operator == .notIn) && leaf.data == some (.array []) &&
      leaf.dataType == none then []
  else [⟨idx, draw, leaf.operator == .between⟩]

mutual

def drawCount : Filter → Nat
  | .leaf leaf => if leaf.drawsOne then 1 else 0
  | .group _ data => drawCounts data

def drawCounts : List Filter → Nat
  | [] => 0
  | filter :: rest => drawCount filter + drawCounts rest

end

mutual

def slots : Filter → Count → Nat → List Slot
  | .leaf leaf, idx, draw => leaf.slots idx draw
  | .group _ data, idx, draw => memberSlots data idx 0 draw

def memberSlots : List Filter → Count → Nat → Nat → List Slot
  | [], _, _, _ => []
  | member :: rest, idx, j, draw =>
      slots member (nestedIdx idx j) draw ++ memberSlots rest idx (j + 1) (draw + drawCount member)

end

/-- The slots of the filters of a query, numbered from `i`. -/
def forestSlots : List Filter → Nat → Nat → List Slot
  | [], _, _ => []
  | filter :: rest, i, draw => slots filter (.ofNat i) draw ++ forestSlots rest (i + 1) (draw + drawCount filter)

def slotNames (draws : Nat → Text) (slot : Slot) : List Text :=
  let name := parameterName slot.idx (draws slot.draw)
  if slot.between then [name ++ "_from".toList, name ++ "_to".toList] else [name]

/-! ## The names of a forest -/

section Names

variable {Entity : Type} {host : Host} {schema : Schema Entity} {metadata : EntityMetadata Entity}
  {root : String} {draws : Nat → Text}

/-- The names of the values that the conditions bind. -/
def namesOf (wheres : Wheres) : List Text := (parametersOf wheres).map Parameter.name

theorem namesOf_append (wheres others : Wheres) :
    namesOf (wheres ++ others) = namesOf wheres ++ namesOf others := by
  rw [namesOf, parametersOf_append, List.map_append]
  rfl

theorem applyColumnOperand_names {operator : Operator} {column other : Sql} {wheres : Wheres}
    (applied : applyColumnOperand operator column other = .ok wheres) : namesOf wheres = [] := by
  cases operator <;> cases applied <;> rfl

theorem normalizeTimestampOperand_nil {value operand : Data} {unit : Option FilterTimestampUnit}
    {field : Text} (normal : normalizeTimestampOperand host schema metadata value unit field = .ok operand) :
    operand = .array [] ↔ value = .array [] := by
  cases unit with
  | none =>
      cases normal
      rfl
  | some unit =>
      cases value with
      | array items =>
          obtain ⟨values, areValues, rfl⟩ := of_map_ok normal
          cases items with
          | nil =>
              cases areValues
              rfl
          | cons item rest =>
              rw [List.mapM_cons] at areValues
              obtain ⟨first, -, areValues⟩ := of_bind_ok areValues
              obtain ⟨others, -, areValues⟩ := of_bind_ok areValues
              cases areValues
              simp
      | item value =>
          obtain ⟨converted, -, rfl⟩ := of_map_ok normal
          simp
      | range lower upper =>
          obtain ⟨converted, -, rfl⟩ := of_map_ok normal
          simp

/-- What the `switch` binds, by the operator and whether the list is empty. -/
theorem applyOperand_names {leaf : Leaf} {column : Sql} {data : Data} {suffix : Text} {idx : Count}
    {wheres : Wheres}
    (applied : applyOperand host schema metadata leaf column data (parameterName idx suffix) = .ok wheres) :
    namesOf wheres =
      if (leaf.operator == .isIn || leaf.operator == .notIn) && data == .array [] then []
      else slotNames (fun _ => suffix) ⟨idx, 0, leaf.operator == .between⟩ := by
  simp only [applyOperand] at applied
  cases operator : leaf.operator with
  | null | notNull | unsupported =>
      rw [operator] at applied
      cases applied
  | between =>
      rw [operator] at applied
      obtain ⟨lower, -, applied⟩ := of_bind_ok applied
      obtain ⟨upper, -, applied⟩ := of_bind_ok applied
      cases applied
      rfl
  | isIn | notIn =>
      rw [operator] at applied
      by_cases empty : data = .array []
      · simp only [if_pos empty] at applied
        cases applied
        subst empty
        rfl
      · simp only [if_neg empty] at applied
        cases applied
        simp [empty, namesOf, parametersOf, Condition.parameters, slotNames]
  | _ =>
      rw [operator] at applied
      cases applied
      rfl

theorem applyData_names {leaf : Leaf} {column : Sql} {data : Data} {idx : Count} {draw n : Nat} {wheres : Wheres}
    (named : leaf.name.isEmpty = false) (has : leaf.data = some data)
    (compares : leaf.operator ≠ .null ∧ leaf.operator ≠ .notNull)
    (applied : applyData host schema metadata root draws leaf column data idx draw = .ok (wheres, n)) :
    namesOf wheres = (leaf.slots idx draw).flatMap (slotNames draws) ∧
      n = draw + drawCount (.leaf leaf) := by
  have count : leaf.drawsOne = (!data.isNullish && leaf.dataType != some .field) := by
    have isNull : (leaf.operator != .null) = true := by simpa using compares.1
    have isNotNull : (leaf.operator != .notNull) = true := by simpa using compares.2
    simp [Leaf.drawsOne, named, has, isNull, isNotNull]
  rw [applyData] at applied
  split at applied
  case isTrue nullish =>
      cases applied
      have none_ : leaf.drawsOne = false := by simp [count, nullish]
      simp [Leaf.slots, drawCount, none_, namesOf, parametersOf]
  case isFalse loud =>
      split at applied
      case isTrue isField =>
          obtain ⟨operand, -, applied⟩ := of_bind_ok applied
          obtain ⟨done, -, applied⟩ := of_bind_ok applied
          obtain ⟨other, -, applied⟩ := of_bind_ok applied
          obtain ⟨conditions, isWheres, applied⟩ := of_bind_ok applied
          cases applied
          have none_ : leaf.drawsOne = false := by simp [count, isField]
          simp [Leaf.slots, drawCount, none_, applyColumnOperand_names isWheres]
      case isFalse isValue =>
          obtain ⟨operand, isOperand, applied⟩ := of_bind_ok applied
          obtain ⟨conditions, isWheres, applied⟩ := of_bind_ok applied
          cases applied
          have one : leaf.drawsOne = true := by simp [count, loud, isValue]
          refine ⟨?_, by simp [drawCount, one]⟩
          rw [applyOperand_names isWheres]
          have empty : (operand == .array []) = (data == .array [] && leaf.dataType == none) := by
            rw [Bool.eq_iff_iff, beq_iff_eq, normalizeTimestampOperand_nil isOperand]
            cases kind : leaf.dataType <;> simp
          rw [empty, Leaf.slots, one, has]
          simp only [Bool.not_true, Bool.false_eq_true, if_false]
          have same : (some data == some (Data.array [])) = (data == .array []) := by
            rw [Bool.eq_iff_iff, beq_iff_eq, beq_iff_eq, Option.some.injEq]
          rw [same, Bool.and_assoc]
          split
          · rfl
          · simp [slotNames]

theorem applyLeaf_names {leaf : Leaf} {idx : Count} {draw n : Nat} {wheres : Wheres}
    (applied : applyLeaf host schema metadata root draws leaf idx draw = .ok (wheres, n)) :
    namesOf wheres = (leaf.slots idx draw).flatMap (slotNames draws) ∧
      n = draw + drawCount (.leaf leaf) := by
  rw [applyLeaf] at applied
  split at applied
  case isTrue unnamed =>
      cases applied
      have none_ : leaf.drawsOne = false := by simp [Leaf.drawsOne, unnamed]
      simp [Leaf.slots, drawCount, none_, namesOf, parametersOf]
  case isFalse named =>
      have named : leaf.name.isEmpty = false := by simpa using named
      obtain ⟨column, -, applied⟩ := of_bind_ok applied
      by_cases isNull : leaf.operator = .null ∨ leaf.operator = .notNull
      · have none_ : leaf.drawsOne = false := by
          rcases isNull with isNull | isNull <;> simp [Leaf.drawsOne, isNull]
        rcases isNull with isNull | isNull <;>
          (rw [isNull] at applied
           cases applied
           simp [Leaf.slots, drawCount, none_, namesOf, parametersOf, Condition.parameters])
      · obtain ⟨isNull, isNotNull⟩ := not_or.mp isNull
        cases has : leaf.data with
        | none =>
            have none_ : leaf.drawsOne = false := by simp [Leaf.drawsOne, has, Data.isNullish, Item.isNullish]
            have nothing : wheres = [] ∧ n = draw := by
              rw [has] at applied
              cases operator : leaf.operator <;>
                first
                | contradiction
                | (rw [operator] at applied; cases applied; exact ⟨rfl, rfl⟩)
            obtain ⟨rfl, rfl⟩ := nothing
            simp [Leaf.slots, drawCount, none_, namesOf, parametersOf]
        | some data =>
            have applied : applyData host schema metadata root draws leaf column data idx draw =
                .ok (wheres, n) := by
              rw [has] at applied
              cases operator : leaf.operator <;> simp_all
            exact applyData_names named has ⟨isNull, isNotNull⟩ applied

mutual

theorem applyFilterToQuery_names : ∀ {filter : Filter} {idx : Count} {draw n : Nat} {wheres : Wheres},
    applyFilterToQuery host schema metadata root draws filter idx draw = .ok (wheres, n) →
    namesOf wheres = (slots filter idx draw).flatMap (slotNames draws) ∧ n = draw + drawCount filter
  | .leaf leaf, idx, draw, n, wheres, applied => by
      rw [applyFilterToQuery] at applied
      obtain ⟨-, -, applied⟩ := of_bind_ok applied
      exact applyLeaf_names applied
  | .group operator data, idx, draw, n, wheres, applied => by
      rw [applyFilterToQuery] at applied
      obtain ⟨-, -, applied⟩ := of_bind_ok applied
      obtain ⟨⟨members, after⟩, areMembers, applied⟩ := of_bind_ok applied
      obtain ⟨names, count⟩ := applyMembers_names areMembers
      cases applied
      refine ⟨?_, count⟩
      rw [slots, ← names]
      cases data with
      | nil =>
          cases areMembers
          rfl
      | cons first rest => simp [namesOf, parametersOf, Condition.parameters]

theorem applyMembers_names : ∀ {filters : List Filter} {operator : Connective} {idx : Count} {j draw n : Nat}
    {wheres : Wheres},
    applyMembers host schema metadata root draws operator filters idx j draw = .ok (wheres, n) →
    namesOf wheres = (memberSlots filters idx j draw).flatMap (slotNames draws) ∧
      n = draw + drawCounts filters
  | [], operator, idx, j, draw, n, wheres, applied => by
      cases applied
      exact ⟨rfl, rfl⟩
  | member :: rest, operator, idx, j, draw, n, wheres, applied => by
      rw [applyMembers] at applied
      obtain ⟨⟨wrapped, after⟩, isWrapped, applied⟩ := of_bind_ok applied
      obtain ⟨⟨others, after'⟩, areOthers, applied⟩ := of_bind_ok applied
      cases applied
      obtain ⟨names, rfl⟩ := applyFilterToQuery_names isWrapped
      obtain ⟨later, rfl⟩ := applyMembers_names areOthers
      refine ⟨?_, by rw [drawCounts, Nat.add_assoc]⟩
      rw [memberSlots, List.flatMap_append, ← names, ← later]
      simp [namesOf, parametersOf, Condition.parameters]

end

/-- The conditions bind one value after the other, in the order of the leaves. -/
theorem applyFilters_names {filters : List Filter} {i draw n : Nat} {wheres : Wheres}
    (applied : applyFilters host schema metadata root draws filters i draw = .ok (wheres, n)) :
    namesOf wheres = (forestSlots filters i draw).flatMap (slotNames draws) := by
  induction filters generalizing i draw n wheres with
  | nil =>
      cases applied
      rfl
  | cons filter rest ih =>
      rw [applyFilters] at applied
      obtain ⟨⟨first, after⟩, isFirst, applied⟩ := of_bind_ok applied
      obtain ⟨⟨others, after'⟩, areOthers, applied⟩ := of_bind_ok applied
      cases applied
      obtain ⟨names, rfl⟩ := applyFilterToQuery_names isFirst
      rw [forestSlots, List.flatMap_append, ← names, ← ih areOthers, namesOf_append]

end Names

/-! ## Names that differ -/

theorem underscore_outside_text (idx : Count) : '_' ∉ idx.text := by
  intro inside
  rcases Count.mem_text inside with digit | letter
  · exact absurd digit (by decide)
  · exact absurd letter (by decide)

theorem Suffix.underscore_outside (suffix : Suffix) : '_' ∉ suffix.text := by
  intro inside
  have base36 := List.all_eq_true.mp suffix.base36 '_' inside
  simp [isBase36] at base36

/-- The index and the rest of a name, as far as the rest is one. -/
theorem name_inj {i j : Count} {rest others : Text}
    (same : parameterName i [] ++ rest = parameterName j [] ++ others) : i = j ∧ rest = others := by
  simp only [parameterName, List.append_nil, List.append_assoc, List.append_cancel_left_eq,
    List.singleton_append] at same
  obtain ⟨indices, rests⟩ :=
    append_mark_inj (underscore_outside_text i) (underscore_outside_text j) same
  exact ⟨Count.text_injective indices, rests⟩

theorem parameterName_append (i : Count) (suffix : Text) :
    parameterName i suffix = parameterName i [] ++ suffix := by
  simp [parameterName]

theorem slotNames_nodup (draws : Nat → Text) (slot : Slot) : (slotNames draws slot).Nodup := by
  rw [slotNames]
  split
  · simp
  · simp

/-- Two slots share a name just when kind, index and suffix agree. -/
theorem slotNames_disjoint (draws : Nat → Suffix) (slot other : Slot) :
    List.Disjoint (slotNames (fun n => (draws n).text) slot) (slotNames (fun n => (draws n).text) other) ↔
      ¬(slot.between = other.between ∧ slot.idx = other.idx ∧
        (draws slot.draw).text = (draws other.draw).text) := by
  have outside := (draws slot.draw).underscore_outside
  have outside' := (draws other.draw).underscore_outside
  constructor
  · rintro disjoint ⟨sameKind, sameIdx, sameSuffix⟩
    have same : slotNames (fun n => (draws n).text) slot = slotNames (fun n => (draws n).text) other := by
      rw [slotNames, slotNames, sameKind, sameIdx, sameSuffix]
    rw [same] at disjoint
    cases kind : other.between <;> simp [slotNames, kind] at disjoint
  · intro differ name inside inside'
    apply differ
    rw [slotNames, parameterName_append] at inside inside'
    cases kind : slot.between <;> cases kind' : other.between <;>
      simp only [kind, kind', Bool.false_eq_true, if_false, if_true, List.mem_cons, List.not_mem_nil,
        or_false] at inside inside'
    · obtain ⟨sameIdx, sameSuffix⟩ := name_inj (inside.symm.trans inside')
      exact ⟨rfl, sameIdx, sameSuffix⟩
    · -- one name has an underscore in its suffix, the other has none
      exfalso
      rcases inside' with inside' | inside' <;>
        (rw [List.append_assoc] at inside'
         obtain ⟨-, rests⟩ := name_inj (inside.symm.trans inside')
         exact outside (rests ▸ by simp))
    · exfalso
      rcases inside with inside | inside <;>
        (rw [List.append_assoc] at inside
         obtain ⟨-, rests⟩ := name_inj (inside.symm.trans inside')
         exact outside' (rests ▸ by simp))
    · refine ⟨rfl, ?_⟩
      rcases inside with inside | inside <;> rcases inside' with inside' | inside' <;>
        (rw [List.append_assoc] at inside inside'
         obtain ⟨sameIdx, rests⟩ := name_inj (inside.symm.trans inside')
         obtain ⟨sameSuffix, -⟩ := append_mark_inj outside outside' rests
         exact ⟨sameIdx, sameSuffix⟩)

/-- No two values share a name, and each is bound to the value of its own leaf. -/
def BoundApart (parameters : List Parameter) : Prop :=
  (parameters.map Parameter.name).Nodup ∧
    ∀ parameter ∈ parameters, boundValue parameters parameter.name = some parameter.value

/-- The values of a query are bound apart just when no two leaves of one kind that have the same
derived index draw the same suffix. -/
theorem boundApart_iff {Entity : Type} (host : Host) (schema : Schema Entity)
    (metadata : EntityMetadata Entity) (root : String) (draws : Nat → Suffix) {filters : List Filter}
    {wheres : Wheres} {n : Nat}
    (built : applyFilters host schema metadata root (fun n => (draws n).text) filters 0 0 =
      .ok (wheres, n)) :
    BoundApart (parametersOf wheres) ↔
      (forestSlots filters 0 0).Pairwise fun slot other =>
        ¬(slot.between = other.between ∧ slot.idx = other.idx ∧
          (draws slot.draw).text = (draws other.draw).text) := by
  have names : ((parametersOf wheres).map Parameter.name).Nodup ↔
      (forestSlots filters 0 0).Pairwise fun slot other =>
        ¬(slot.between = other.between ∧ slot.idx = other.idx ∧
          (draws slot.draw).text = (draws other.draw).text) := by
    rw [show (parametersOf wheres).map Parameter.name = namesOf wheres from rfl, applyFilters_names built,
      List.nodup_flatMap]
    rw [and_iff_right fun slot _ => slotNames_nodup _ slot]
    exact List.Pairwise.iff fun slot other => slotNames_disjoint draws slot other
  rw [← names]
  exact ⟨fun apart => apart.1, fun distinct => ⟨distinct, fun _ member => boundValue_eq distinct member⟩⟩

/-- A user's group of two filters, and the scope of the request. -/
def scopedForest : List Filter :=
  [.group .and [isCode "a", isCode "b"], codeLeaf .equal (.item (.string (JsString.js "tenant"))) none]

/-- Suffixes that tell the draws apart. -/
def lettered (n : Nat) : Suffix :=
  if n = 0 then ⟨['x'], by decide, by decide⟩
  else if n = 1 then ⟨['y'], by decide, by decide⟩
  else ⟨['z'], by decide, by decide⟩

def codeIs (name : Text) (value : String) : Condition :=
  .compare .equal [.code ['e'], .code ['.'], .identifier "code".toList]
    (.parameter ⟨name, .item (.string (JsString.js value))⟩)

theorem scopedForest_apart :
    BoundApart (parametersOf
      [(.and, .brackets [(.and, .brackets [(.and, codeIs (parameterName (nestedIdx (.ofNat 0) 0) ['x']) "a")]),
        (.and, .brackets [(.and, codeIs (parameterName (nestedIdx (.ofNat 0) 1) ['y']) "b")])]),
      (.and, codeIs (parameterName (.ofNat 1) ['z']) "tenant")]) ↔
    (forestSlots scopedForest 0 0).Pairwise fun slot other =>
      ¬(slot.between = other.between ∧ slot.idx = other.idx ∧
        (lettered slot.draw).text = (lettered other.draw).text) :=
  boundApart_iff plainHost (fun _ => bareEntity) bareEntity "e" lettered rfl

def sameSuffix : Suffix := ⟨['i'], by decide, by decide⟩

/-- A number drawn twice gives the second member of the group the name of the scope predicate, and
the user's value is lost. -/
theorem scopedForest_clash :
    ∃ wheres n, applyFilters plainHost (fun _ => bareEntity) bareEntity "e" (fun _ => sameSuffix.text)
        scopedForest 0 0 = .ok (wheres, n) ∧
      ¬BoundApart (parametersOf wheres) ∧
      ⟨"p_1_i".toList, .item (.string (JsString.js "b"))⟩ ∈ parametersOf wheres ∧
      boundValue (parametersOf wheres) "p_1_i".toList = some (.item (.string (JsString.js "tenant"))) := by
  have first : nestedIdx (.ofNat 0) 0 = .ofNat 0 := nestedIdx_ofNat (by decide)
  have second : nestedIdx (.ofNat 0) 1 = .ofNat 1 := nestedIdx_ofNat (by decide)
  have zero : parameterName (.ofNat 0) ['i'] = "p_0_i".toList := by decide +kernel
  have one : parameterName (.ofNat 1) ['i'] = "p_1_i".toList := by decide +kernel
  have bound : parametersOf
      [(.and, .brackets [(.and, .brackets [(.and, codeIs (parameterName (nestedIdx (.ofNat 0) 0) ['i']) "a")]),
        (.and, .brackets [(.and, codeIs (parameterName (nestedIdx (.ofNat 0) 1) ['i']) "b")])]),
      (.and, codeIs (parameterName (.ofNat 1) ['i']) "tenant")] =
      [⟨"p_0_i".toList, .item (.string (JsString.js "a"))⟩,
        ⟨"p_1_i".toList, .item (.string (JsString.js "b"))⟩,
        ⟨"p_1_i".toList, .item (.string (JsString.js "tenant"))⟩] := by
    rw [first, second, zero, one]
    rfl
  refine ⟨_, _, rfl, ?_, ?_, ?_⟩
  · intro apart
    exact absurd (bound ▸ apart.1) (by decide)
  · exact bound ▸ by decide
  · exact bound ▸ rfl

end SdcoreNest.Orm
