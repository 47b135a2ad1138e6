/-
# Orm.FilterMeaning -- filter trees compile to their meaning

What the database makes of the conditions that `applyFilterToQuery` builds, against a reference
that evaluates the forest itself: leaves without usable data and groups left with no member are
dropped, and the rest means what its operators say.  A placeholder stands for the value of its own
leaf here, as it does where no two names are the same (`Orm.Parameters` says when).

* `applyLeaf_truth` -- the conditions of a leaf with usable data are its comparison;
* `applyFilterToQuery_truth` -- by induction, those of a tree are its meaning.
-/
import SdcoreNest.Orm.Filter

namespace SdcoreNest.Orm

open Theory

set_option autoImplicit false

/-! ## The database -/

/-- How the database compares values that are not NULL. -/
structure Database (Cell : Type) where
  compare : Comparison → Cell → Cell → Bool
  /-- The cast `::text`. -/
  text : Cell → Text
  /-- `LOWER(UNACCENT(…))`. -/
  fold : Text → Text
  /-- The elements of an array. -/
  elements : Cell → List (Option Cell)
  /-- A bound value. -/
  bind : Data → Option Cell

namespace Database

variable {Cell : Type} (db : Database Cell)

/-- Comparison with NULL is unknown. -/
def compared (comparison : Comparison) : Option Cell → Option Cell → Truth
  | some a, some b => some (db.compare comparison a b)
  | _, _ => none

def folded (cell : Option Cell) : Option Text := cell.map fun cell => db.fold (db.text cell)

def liked (negated : Bool) : Option Text → Option Text → Truth
  | some text, some pattern => some (negated ^^ like text pattern)
  | _, _ => none

/-- Put `%` around a folded text. -/
def marked (before : Bool) (text : Option Text) (after : Bool) : Option Text :=
  text.map fun text => (if before then ['%'] else []) ++ text ++ (if after then ['%'] else [])

/-- One of the values equals the cell. -/
def equalsOne (cell : Option Cell) (values : List (Option Cell)) : Truth :=
  Truth.disj (values.map (db.compared .equal cell))

end Database

/-! ## Evaluation -/

section Evaluation

variable {Cell : Type} (db : Database Cell) (row : Sql → Option Cell)

def evalPattern : Pattern → Option Text
  | .parameter parameter => db.folded (db.bind parameter.value)
  | .column before column after => Database.marked before (db.folded (row column)) after

def evalOperand : Operand → Option Cell
  | .column column => row column
  | .parameter parameter => db.bind parameter.value

mutual

def evalCondition : Condition → Truth
  | .isNull column => some (row column).isNone
  | .isNotNull column => some (row column).isSome
  | .compare comparison column operand => db.compared comparison (row column) (evalOperand db row operand)
  | .like negated column pattern =>
      Database.liked negated (db.folded (row column)) (evalPattern db row pattern)
  | .isIn negated column parameter =>
      let found := db.equalsOne (row column) (parameter.value.items.map fun item => db.bind (.item item))
      if negated then found.neg else found
  | .equalsAny column array => (row array).bind fun cell => db.equalsOne (row column) (db.elements cell)
  | .holdsNull array => some ((row array).any fun cell => (db.elements cell).any Option.isNone)
  | .never => some false
  | .coalesceFalse condition => some ((evalCondition condition).getD false)
  | .negation conditions => (chain (evalWheres conditions)).neg
  | .brackets conditions => chain (evalWheres conditions)

def evalWheres : List (Connective × Condition) → List (Connective × Truth)
  | [] => []
  | (connective, condition) :: rest => (connective, evalCondition condition) :: evalWheres rest

end

theorem evalWheres_append (wheres others : Wheres) :
    evalWheres db row (wheres ++ others) = evalWheres db row wheres ++ evalWheres db row others := by
  induction wheres with
  | nil => simp [evalWheres]
  | cons first rest ih =>
      obtain ⟨connective, condition⟩ := first
      simp [evalWheres, ih]

end Evaluation

/-! ## The reference -/

/-- A leaf that prepares to nothing, or to a comparison with no operand, says nothing. -/
def Leaf.isUsable (leaf : Leaf) : Bool :=
  leaf.isKept &&
    !((leaf.operator == .isIn || leaf.operator == .notIn) &&
      (leaf.data.getD (.item .undefined)).isNullish)

section Reference

variable {Cell Entity : Type} (db : Database Cell) (row : Sql → Option Cell) (host : Host)
  (schema : Schema Entity) (metadata : EntityMetadata Entity) (root : String)

/-- NULL equals NULL and nothing else. -/
def sameCell : Option Cell → Option Cell → Bool
  | none, none => true
  | some a, some b => db.compare .equal a b
  | _, _ => false

def holdsCell (array : Option Cell) (cell : Option Cell) : Bool :=
  array.any fun array => (db.elements array).any (sameCell db cell)

/-- A comparison of two columns. -/
def columnTruth (operator : Operator) (value other : Option Cell) : Except Failure Truth :=
  let text (negated before after : Bool) : Except Failure Truth :=
    .ok (Database.liked negated (db.folded value) (Database.marked before (db.folded other) after))
  match operator with
  | .equal => .ok (some (sameCell db value other))
  | .notEqual => .ok (some !(sameCell db value other))
  | .lessThan => .ok (db.compared .less value other)
  | .lessOrEqual => .ok (db.compared .lessOrEqual value other)
  | .greaterThan => .ok (db.compared .greater value other)
  | .greaterOrEqual => .ok (db.compared .greaterOrEqual value other)
  | .contain => text false true true
  | .notContain => text true true true
  | .startWith => text false false true
  | .notStartWith => text true false true
  | .endWith => text false true false
  | .notEndWith => text true true false
  | .isIn => .ok (some (holdsCell db other value))
  | .notIn => .ok (some (other.isSome && !(holdsCell db other value)))
  | _ => .error invalidFilter

/-- A comparison with a value. -/
def valueTruth (leaf : Leaf) (value : Option Cell) (data : Data) : Except Failure Truth :=
  let text (negated before after : Bool) : Except Failure Truth :=
    .ok (Database.liked negated (db.folded value)
      (db.folded (db.bind (template host before data after))))
  let found := db.equalsOne value (data.items.map fun item => db.bind (.item item))
  match leaf.operator with
  | .equal => .ok (db.compared .equal value (db.bind data))
  | .notEqual => .ok (db.compared .notEqual value (db.bind data))
  | .lessThan => .ok (db.compared .less value (db.bind data))
  | .lessOrEqual => .ok (db.compared .lessOrEqual value (db.bind data))
  | .greaterThan => .ok (db.compared .greater value (db.bind data))
  | .greaterOrEqual => .ok (db.compared .greaterOrEqual value (db.bind data))
  | .contain => text false true true
  | .notContain => text true true true
  | .startWith => text false false true
  | .notStartWith => text true false true
  | .endWith => text false true false
  | .notEndWith => text true true false
  | .between => do
      let range := bounds (leaf.data.getD (.item .undefined))
      let lower ← normalizeTimestampOperand host schema metadata range.1 leaf.timestampUnit leaf.name
      let upper ← normalizeTimestampOperand host schema metadata range.2 leaf.timestampUnit leaf.name
      return (db.compared .greaterOrEqual value (db.bind lower)).and
        (db.compared .lessOrEqual value (db.bind upper))
  | .isIn => .ok found
  | .notIn => .ok found.neg
  | _ => .error invalidFilter

/-- The comparison with the data of a leaf. -/
def dataTruth (leaf : Leaf) (value : Option Cell) (data : Data) : Except Failure Truth :=
  if leaf.dataType = some .field then do
    let operand ← operandField data
    assertArrayOperand schema metadata leaf operand
    let other ← resolveColumnName schema metadata root operand
    columnTruth db leaf.operator value (row other)
  else do
    let resolved := if leaf.dataType.isSome then .item (host.resolveData leaf) else data
    let operand ← normalizeTimestampOperand host schema metadata resolved leaf.timestampUnit leaf.name
    valueTruth db host schema metadata leaf value operand

/-- The comparison of a leaf with usable data. -/
def leafTruth (leaf : Leaf) : Except Failure Truth := do
  let column ← resolveColumnName schema metadata root leaf.name
  match leaf.operator, leaf.data with
  | .null, _ => return some (row column).isNone
  | .notNull, _ => return some (row column).isSome
  | _, none => return some true
  | _, some data => dataTruth db row host schema metadata root leaf (row column) data

mutual

/-- The meaning of a tree, unless it is dropped. -/
def filterTruth : Filter → Except Failure (Option Truth)
  | .leaf leaf =>
      if leaf.isUsable then (leafTruth db row host schema metadata root leaf).map some else .ok none
  | .group operator data => do
      let members ← forestTruths data
      match members, operator with
      | [], _ => return none
      | members, .and => return some (Truth.conj members)
      | members, .or => return some (Truth.disj members)

def forestTruths : List Filter → Except Failure (List Truth)
  | [] => .ok []
  | filter :: rest => do
      let first ← filterTruth filter
      let others ← forestTruths rest
      return first.toList ++ others

end

/-- The conjunction of the list. -/
def forestTruth (forest : List Filter) : Except Failure Truth :=
  (forestTruths db row host schema metadata root forest).map Truth.conj

end Reference

/-! ## Leaves -/

section Leaves

variable {Cell Entity : Type} (db : Database Cell) (row : Sql → Option Cell) {host : Host}
  {schema : Schema Entity} {metadata : EntityMetadata Entity} {root : String} {draws : Nat → Text}

/-- The conditions stand in a row of ANDs and come to the truth value. -/
structure Yields (wheres : Wheres) (truth : Truth) : Prop where
  ands : Ands wheres
  truth : Truth.conj ((evalWheres db row wheres).map Prod.snd) = truth

theorem yields_one (condition : Condition) :
    Yields db row [(.and, condition)] (evalCondition db row condition) where
  ands := by simp [Ands]
  truth := by simp [evalWheres, Truth.conj]

theorem yields_two (condition other : Condition) :
    Yields db row [(.and, condition), (.and, other)]
      ((evalCondition db row condition).and (evalCondition db row other)) where
  ands := by simp [Ands]
  truth := by simp [evalWheres, Truth.conj]

theorem yields_nothing : Yields db row [] (some true) := ⟨by simp [Ands], rfl⟩

theorem evalWheres_ands {wheres : Wheres} (ands : Ands wheres) : Ands (evalWheres db row wheres) := by
  induction wheres with
  | nil => simp [Ands, evalWheres]
  | cons first rest ih =>
      obtain ⟨connective, condition⟩ := first
      obtain ⟨isAnd, others⟩ := List.forall_mem_cons.mp ands
      exact List.forall_mem_cons.mpr ⟨isAnd, ih others⟩

/-- Brackets around the conditions keep what they say. -/
theorem Yields.brackets {wheres : Wheres} {truth : Truth} (yields : Yields db row wheres truth) :
    evalCondition db row (.brackets wheres) = truth := by
  rw [evalCondition, chain_ands (evalWheres_ands db row yields.ands), yields.truth]

theorem getD_disj (members : List Truth) :
    (Truth.disj members).getD false = members.any (· == some true) := by
  induction members with
  | nil => rfl
  | cons member rest ih =>
      rw [Truth.disj_cons, List.any_cons, ← ih]
      rcases member with - | - | - <;> rcases Truth.disj rest with - | - | - <;> rfl

theorem chain_nullSafeEqual (column other : Sql) :
    chain (evalWheres db row (nullSafeEqual column other)) =
      some (sameCell db (row column) (row other)) := by
  simp only [nullSafeEqual, evalWheres, evalCondition, evalOperand, chain, chainFrom]
  cases row column with
  | none => cases row other <;> rfl
  | some a =>
      cases row other with
      | none => rfl
      | some b =>
          simp only [Database.compared, sameCell, Option.getD_some, Option.isNone_some]
          cases db.compare .equal a b <;> rfl

theorem equalsOne_getD (value : Option Cell) (elements : List (Option Cell)) :
    (db.equalsOne value elements).getD false =
      (value.isSome && elements.any (sameCell db value)) := by
  rw [Database.equalsOne, getD_disj, List.any_map]
  cases value with
  | none =>
      have never : ((· == some true) ∘ db.compared .equal none) = fun _ => false := by
        funext element
        rfl
      rw [never]
      simp
  | some a =>
      have agree : ((· == some true) ∘ db.compared .equal (some a)) = sameCell db (some a) := by
        funext element
        cases element with
        | none => rfl
        | some b => simp [Database.compared, sameCell]
      rw [agree]
      simp

theorem chain_nullSafeMember (column other : Sql) :
    chain (evalWheres db row (nullSafeMember column other)) =
      some (holdsCell db (row other) (row column)) := by
  simp only [nullSafeMember, evalWheres, evalCondition, chain, chainFrom, holdsCell]
  cases row other with
  | none => cases row column <;> rfl
  | some array =>
      rw [Option.bind_some, equalsOne_getD, Option.any_some, Option.any_some]
      cases row column with
      | some a => cases (db.elements array).any (sameCell db (some a)) <;> rfl
      | none =>
          have agree : sameCell db none = Option.isNone := by
            funext element
            cases element <;> rfl
          rw [agree]
          cases (db.elements array).any Option.isNone <;> rfl

theorem applyColumnOperand_truth {operator : Operator} {column other : Sql} {wheres : Wheres}
    (applied : applyColumnOperand operator column other = .ok wheres) :
    ∃ truth, columnTruth db operator (row column) (row other) = .ok truth ∧ Yields db row wheres truth := by
  cases operator with
  | equal =>
      cases applied
      refine ⟨_, rfl, ?_⟩
      rw [← chain_nullSafeEqual]
      exact yields_one db row _
  | notEqual =>
      cases applied
      refine ⟨_, rfl, ?_⟩
      have same := yields_one db row (.negation (nullSafeEqual column other))
      rw [evalCondition, chain_nullSafeEqual] at same
      exact same
  | isIn =>
      cases applied
      refine ⟨_, rfl, ?_⟩
      rw [← chain_nullSafeMember]
      exact yields_one db row _
  | notIn =>
      cases applied
      refine ⟨_, rfl, ?_⟩
      have same := yields_two db row (.isNotNull other) (.negation (nullSafeMember column other))
      rw [evalCondition, evalCondition, chain_nullSafeMember] at same
      cases exists_ : row other with
      | none => rwa [exists_] at same
      | some array => rwa [exists_] at same
  | null | notNull | between | unsupported => cases applied
  | _ =>
      cases applied
      exact ⟨_, rfl, yields_one db row _⟩

theorem applyOperand_truth {leaf : Leaf} {column : Sql} {data : Data} {param : Text} {wheres : Wheres}
    (applied : applyOperand host schema metadata leaf column data param = .ok wheres) :
    ∃ truth, valueTruth db host schema metadata leaf (row column) data = .ok truth ∧
      Yields db row wheres truth := by
  simp only [applyOperand] at applied
  simp only [valueTruth]
  cases operator : leaf.operator with
  | null | notNull | unsupported =>
      rw [operator] at applied
      cases applied
  | between =>
      rw [operator] at applied
      obtain ⟨lower, isLower, applied⟩ := of_bind_ok applied
      obtain ⟨upper, isUpper, applied⟩ := of_bind_ok applied
      cases applied
      refine ⟨_, ?_, yields_two db row _ _⟩
      simp only [isLower, isUpper, bind, Except.bind, pure, Except.pure, evalCondition, evalOperand]
  | isIn =>
      rw [operator] at applied
      by_cases empty : data = .array []
      · simp only [if_pos empty] at applied
        cases applied
        subst empty
        exact ⟨_, rfl, yields_one db row .never⟩
      · simp only [if_neg empty] at applied
        cases applied
        exact ⟨_, rfl, yields_one db row _⟩
  | notIn =>
      rw [operator] at applied
      by_cases empty : data = .array []
      · simp only [if_pos empty] at applied
        cases applied
        subst empty
        exact ⟨_, rfl, yields_nothing db row⟩
      · simp only [if_neg empty] at applied
        cases applied
        exact ⟨_, rfl, yields_one db row _⟩
  | _ =>
      rw [operator] at applied
      cases applied
      exact ⟨_, rfl, yields_one db row _⟩

theorem isNullish_of_isKept {leaf : Leaf} {data : Data} (kept : leaf.isKept = true)
    (has : leaf.data = some data) (silent : data.isNullish = true)
    (compares : leaf.operator ≠ .null ∧ leaf.operator ≠ .notNull) :
    leaf.operator = .isIn ∨ leaf.operator = .notIn := by
  have unbounded : data.isBounded = false := by
    cases data with
    | item value => rfl
    | array values => cases silent
    | range lower upper => cases silent
  revert kept
  rw [Leaf.isKept, has]
  cases operator : leaf.operator <;> simp_all

theorem applyData_truth {leaf : Leaf} {column : Sql} {data : Data} {idx : Count} {draw n : Nat} {wheres : Wheres}
    (loud : data.isNullish = false)
    (applied : applyData host schema metadata root draws leaf column data idx draw = .ok (wheres, n)) :
    ∃ truth, dataTruth db row host schema metadata root leaf (row column) data = .ok truth ∧
      Yields db row wheres truth := by
  rw [applyData, if_neg (by simp [loud])] at applied
  rw [dataTruth]
  by_cases isField : leaf.dataType = some .field
  · rw [if_pos isField] at applied ⊢
    obtain ⟨operand, isOperand, applied⟩ := of_bind_ok applied
    obtain ⟨done, accepted, applied⟩ := of_bind_ok applied
    obtain ⟨other, isOther, applied⟩ := of_bind_ok applied
    obtain ⟨conditions, isWheres, applied⟩ := of_bind_ok applied
    cases applied
    obtain ⟨truth, isTruth, yields⟩ := applyColumnOperand_truth db row isWheres
    refine ⟨truth, ?_, yields⟩
    simp only [bind, Except.bind, isOperand, accepted, isOther, isTruth]
  · rw [if_neg isField] at applied ⊢
    obtain ⟨operand, isOperand, applied⟩ := of_bind_ok applied
    obtain ⟨conditions, isWheres, applied⟩ := of_bind_ok applied
    cases applied
    obtain ⟨truth, isTruth, yields⟩ := applyOperand_truth db row isWheres
    refine ⟨truth, ?_, yields⟩
    simp only [bind, Except.bind, isOperand, isTruth]

/-- The conditions of a leaf with usable data are its comparison. -/
theorem applyLeaf_truth {leaf : Leaf} {idx : Count} {draw n : Nat} {wheres : Wheres}
    (usable : leaf.isUsable = true)
    (applied : applyLeaf host schema metadata root draws leaf idx draw = .ok (wheres, n)) :
    ∃ truth, leafTruth db row host schema metadata root leaf = .ok truth ∧ Yields db row wheres truth := by
  simp only [Leaf.isUsable, Bool.and_eq_true] at usable
  obtain ⟨kept, loud⟩ := usable
  have named : leaf.name.isEmpty = false := by
    by_contra empty
    rw [Leaf.isKept, if_pos (by simpa using empty)] at kept
    cases kept
  rw [applyLeaf, if_neg (by simp [named])] at applied
  obtain ⟨column, isColumn, applied⟩ := of_bind_ok applied
  by_cases isNull : leaf.operator = .null
  · rw [isNull] at applied
    cases applied
    refine ⟨_, ?_, yields_one db row (.isNull column)⟩
    rw [leafTruth, isColumn, isNull]
    rfl
  by_cases isNotNull : leaf.operator = .notNull
  · rw [isNotNull] at applied
    cases applied
    refine ⟨_, ?_, yields_one db row (.isNotNull column)⟩
    rw [leafTruth, isColumn, isNotNull]
    rfl
  cases has : leaf.data with
  | none =>
      rw [Leaf.isKept, has, if_neg (by simp [named])] at kept
      cases operator : leaf.operator <;> simp_all
  | some data =>
      have usable : data.isNullish = false := by
        by_contra silent
        have silent : data.isNullish = true := by simpa using silent
        rcases isNullish_of_isKept kept has silent ⟨isNull, isNotNull⟩ with isIn | isIn <;>
          simp [isIn, has, silent] at loud
      have applied : applyData host schema metadata root draws leaf column data idx draw =
          .ok (wheres, n) := by
        rw [has] at applied
        cases operator : leaf.operator <;> simp_all
      obtain ⟨truth, isTruth, yields⟩ := applyData_truth db row usable applied
      refine ⟨truth, ?_, yields⟩
      rw [← isTruth, leafTruth, isColumn, has]
      cases operator : leaf.operator <;> first | contradiction | rfl

/-- A leaf that is kept without usable data adds no condition. -/
theorem applyLeaf_silent {leaf : Leaf} {idx : Count} {draw n : Nat} {wheres : Wheres} (kept : leaf.isKept = true)
    (silent : leaf.isUsable = false)
    (applied : applyLeaf host schema metadata root draws leaf idx draw = .ok (wheres, n)) :
    wheres = [] := by
  simp only [Leaf.isUsable, kept, Bool.true_and, Bool.not_eq_false', Bool.and_eq_true, Bool.or_eq_true,
    beq_iff_eq] at silent
  obtain ⟨membership, nullish⟩ := silent
  rw [applyLeaf] at applied
  split at applied
  · cases applied
    rfl
  · obtain ⟨column, -, applied⟩ := of_bind_ok applied
    cases has : leaf.data with
    | none =>
        rw [has] at applied
        rcases membership with isIn | isIn <;> (rw [isIn] at applied; cases applied; rfl)
    | some data =>
        rw [has] at applied
        rw [has, Option.getD_some] at nullish
        have applied : applyData host schema metadata root draws leaf column data idx draw =
            .ok (wheres, n) := by
          rcases membership with isIn | isIn <;> (rw [isIn] at applied; exact applied)
        rw [applyData, if_pos nullish] at applied
        cases applied
        rfl

end Leaves

/-! ## Trees -/

namespace Filter

mutual

/-- `prepareFilter` keeps something of it. -/
def survives : Filter → Bool
  | .leaf own => own.isKept
  | .group _ data => anySurvives data

def anySurvives : List Filter → Bool
  | [] => false
  | filter :: rest => survives filter || anySurvives rest

end

mutual

/-- Some leaf in it has usable data. -/
def compares : Filter → Bool
  | .leaf own => own.isUsable
  | .group _ data => anyCompares data

def anyCompares : List Filter → Bool
  | [] => false
  | filter :: rest => compares filter || anyCompares rest

end

mutual

/-- No OR group puts a member that is kept and compares nothing beside one that compares. -/
def isDecided : Filter → Bool
  | .leaf _ => true
  | .group operator data =>
      allDecided data &&
        (operator == .and || !anyCompares data || data.all fun member => !survives member || compares member)

def allDecided : List Filter → Bool
  | [] => true
  | filter :: rest => isDecided filter && allDecided rest

end

end Filter

section Trees

variable {Cell Entity : Type} (db : Database Cell) (row : Sql → Option Cell) {host : Host}
  {schema : Schema Entity} {metadata : EntityMetadata Entity} {root : String} {draws : Nat → Text}

theorem conj_outcomes (outcomes : List (Option Truth)) :
    Truth.conj (outcomes.map fun outcome => outcome.getD (some true)) =
      Truth.conj outcomes.reduceOption := by
  induction outcomes with
  | nil => rfl
  | cons outcome rest ih =>
      cases outcome with
      | none =>
          rw [List.map_cons, Truth.conj_cons, ih, List.reduceOption_cons_of_none]
          rfl
      | some truth =>
          rw [List.map_cons, Truth.conj_cons, ih, List.reduceOption_cons_of_some, Truth.conj_cons]
          rfl

/-- What the members of a group came to: the connective before each, and their truth. -/
structure Members (operator : Connective) (wheres : Wheres) (outcomes : List (Option Truth)) : Prop where
  connectives : ∀ condition ∈ evalWheres db row wheres, condition.1 = operator
  truths : (evalWheres db row wheres).map Prod.snd =
    outcomes.map fun outcome => outcome.getD (some true)

theorem Members.cons {operator : Connective} {wrapped others : Wheres} {outcome : Option Truth}
    {outcomes : List (Option Truth)} (first : Yields db row wrapped (outcome.getD (some true)))
    (rest : Members db row operator others outcomes) :
    Members db row operator ((operator, .brackets wrapped) :: others) (outcome :: outcomes) where
  connectives := by
    rw [evalWheres]
    exact List.forall_mem_cons.mpr ⟨rfl, rest.connectives⟩
  truths := by
    rw [evalWheres, List.map_cons, List.map_cons, rest.truths, first.brackets]

theorem Members.brackets_and {wheres : Wheres} {outcomes : List (Option Truth)}
    (members : Members db row .and wheres outcomes) :
    evalCondition db row (.brackets wheres) = Truth.conj outcomes.reduceOption := by
  rw [evalCondition, chain_ands members.connectives, members.truths, conj_outcomes]

theorem Members.brackets_or {wheres : Wheres} {outcomes : List (Option Truth)}
    (members : Members db row .or wheres outcomes) (some_ : wheres ≠ []) :
    evalCondition db row (.brackets wheres) =
      Truth.disj (outcomes.map fun outcome => outcome.getD (some true)) := by
  have nonempty : evalWheres db row wheres ≠ [] := by
    cases wheres with
    | nil => contradiction
    | cons first rest =>
        obtain ⟨connective, condition⟩ := first
        simp [evalWheres]
  rw [evalCondition, chain_ors nonempty members.connectives, members.truths]

theorem disj_all_some {outcomes : List (Option Truth)} (all : ∀ outcome ∈ outcomes, outcome.isSome = true) :
    (outcomes.map fun outcome => outcome.getD (some true)) = outcomes.reduceOption := by
  induction outcomes with
  | nil => rfl
  | cons outcome rest ih =>
      obtain ⟨isSome, others⟩ := List.forall_mem_cons.mp all
      obtain ⟨truth, rfl⟩ := Option.isSome_iff_exists.mp isSome
      rw [List.map_cons, ih others, List.reduceOption_cons_of_some]
      rfl

/-- A group whose kept members all compare nothing is true. -/
theorem disj_all_none {outcomes : List (Option Truth)} (some_ : outcomes ≠ [])
    (none_ : outcomes.reduceOption = []) :
    Truth.disj (outcomes.map fun outcome => outcome.getD (some true)) = some true := by
  cases outcomes with
  | nil => contradiction
  | cons outcome rest =>
      cases outcome with
      | none => rfl
      | some truth => simp [List.reduceOption_cons_of_some] at none_

variable (host schema metadata root) in
/-- What one tree came to: its meaning if some leaf of it compares, and true otherwise. -/
structure Outcome (filter : Filter) (wheres : Wheres) (outcome : Option Truth) : Prop where
  truth : filterTruth db row host schema metadata root filter = .ok outcome
  compares : outcome.isSome = filter.compares
  yields : Yields db row wheres (outcome.getD (some true))

variable (host schema metadata root) in
/-- What a list of trees came to. -/
structure Outcomes (operator : Connective) (filters : List Filter) (wheres : Wheres)
    (outcomes : List (Option Truth)) : Prop where
  truths : forestTruths db row host schema metadata root filters = .ok outcomes.reduceOption
  compares : (outcomes.any Option.isSome) = Filter.anyCompares filters
  all : (filters.all fun member => !member.survives || member.compares) = true →
    ∀ outcome ∈ outcomes, outcome.isSome = true
  members : Members db row operator wheres outcomes

theorem anyCompares_of_reduceOption {outcomes : List (Option Truth)} :
    (outcomes.any Option.isSome) = !outcomes.reduceOption.isEmpty := by
  induction outcomes with
  | nil => rfl
  | cons outcome rest ih =>
      cases outcome with
      | none => simpa [List.reduceOption_cons_of_none] using ih
      | some truth => simp [List.reduceOption_cons_of_some]

mutual

/-- A tree of which nothing is kept compares nothing. -/
theorem prepareOne_none : ∀ {filter : Filter}, prepareOne host filter = .ok none →
    filterTruth db row host schema metadata root filter = .ok none ∧ filter.compares = false ∧
      filter.survives = false
  | .leaf leaf, prepared => by
      rw [prepareOne] at prepared
      cases kept : leaf.isKept with
      | true => simp [kept] at prepared
      | false =>
          have unusable : leaf.isUsable = false := by simp [Leaf.isUsable, kept]
          simp [filterTruth, Filter.compares, Filter.survives, unusable, kept]
  | .group operator data, prepared => by
      rw [prepareOne] at prepared
      obtain ⟨-, -, prepared⟩ := of_bind_ok prepared
      obtain ⟨cleaned, isCleaned, prepared⟩ := of_bind_ok prepared
      obtain rfl : cleaned = [] := by
        cases cleaned with
        | nil => rfl
        | cons first rest => cases prepared
      obtain ⟨truths, silent, dropped⟩ := prepareEach_nil isCleaned
      refine ⟨?_, silent, dropped⟩
      rw [filterTruth, truths]
      rfl

theorem prepareEach_nil : ∀ {filters : List Filter}, prepareEach host filters = .ok [] →
    forestTruths db row host schema metadata root filters = .ok [] ∧
      Filter.anyCompares filters = false ∧ Filter.anySurvives filters = false
  | [], _ => ⟨rfl, rfl, rfl⟩
  | filter :: rest, prepared => by
      rw [prepareEach] at prepared
      obtain ⟨first, isFirst, prepared⟩ := of_bind_ok prepared
      obtain ⟨others, areOthers, prepared⟩ := of_bind_ok prepared
      have nothing : first.toList ++ others = [] := Except.ok.inj prepared
      obtain ⟨noFirst, rfl⟩ := List.append_eq_nil_iff.mp nothing
      obtain rfl : first = none := by simpa using noFirst
      obtain ⟨truth, silent, dropped⟩ := prepareOne_none isFirst
      obtain ⟨truths, silents, dropped'⟩ := prepareEach_nil areOthers
      refine ⟨?_, ?_, ?_⟩
      · rw [forestTruths, truth, truths]
        rfl
      · rw [Filter.anyCompares, silent, silents]
        rfl
      · rw [Filter.anySurvives, dropped, dropped']
        rfl

end

theorem Outcomes.drop {operator : Connective} {filter : Filter} {filters : List Filter} {wheres : Wheres}
    {outcomes : List (Option Truth)}
    (dropped : filterTruth db row host schema metadata root filter = .ok none ∧
      filter.compares = false ∧ filter.survives = false)
    (rest : Outcomes db row host schema metadata root
      operator filters wheres outcomes) :
    Outcomes db row host schema metadata root
      operator (filter :: filters) wheres outcomes where
  truths := by
    rw [forestTruths, dropped.1, rest.truths]
    rfl
  compares := by rw [rest.compares, Filter.anyCompares, dropped.2.1, Bool.false_or]
  all := by
    intro all
    rw [List.all_cons, Bool.and_eq_true] at all
    exact rest.all all.2
  members := rest.members

theorem Outcomes.cons {operator : Connective} {filter : Filter} {filters : List Filter}
    {wrapped others : Wheres} {outcome : Option Truth} {outcomes : List (Option Truth)}
    (first : Outcome db row host schema metadata root filter wrapped outcome)
    (survives : filter.survives = true)
    (rest : Outcomes db row host schema metadata root operator filters others outcomes) :
    Outcomes db row host schema metadata root operator (filter :: filters)
      ((operator, .brackets wrapped) :: others) (outcome :: outcomes) where
  truths := by
    rw [forestTruths, first.truth, rest.truths]
    cases outcome with
    | none => rfl
    | some truth => rfl
  compares := by rw [List.any_cons, rest.compares, first.compares, Filter.anyCompares]
  all := by
    intro all
    rw [List.all_cons, Bool.and_eq_true, survives] at all
    refine List.forall_mem_cons.mpr ⟨?_, rest.all all.2⟩
    rw [first.compares]
    simpa using all.1
  members := Members.cons db row first.yields rest.members

theorem Outcomes.nil (operator : Connective) :
    Outcomes db row host schema metadata root operator [] [] [] where
  truths := rfl
  compares := rfl
  all := by simp
  members := ⟨by simp [evalWheres], rfl⟩

/-- A group comes to the conjunction or the disjunction of what its members say. -/
theorem Outcomes.group {operator : Connective} {data : List Filter} {members : Wheres}
    {outcomes : List (Option Truth)}
    (areOutcomes : Outcomes db row host schema metadata root operator data members outcomes)
    (decided : operator = .and ∨ Filter.anyCompares data = false ∨
      (data.all fun member => !member.survives || member.compares) = true)
    (some_ : members ≠ []) :
    ∃ outcome, Outcome db row host schema metadata root (.group operator data)
      [(.and, .brackets members)] outcome := by
  have nonempty : outcomes ≠ [] := by
    rintro rfl
    have length := congrArg List.length areOutcomes.members.truths
    cases members with
    | nil => contradiction
    | cons first rest =>
        obtain ⟨connective, condition⟩ := first
        simp [evalWheres] at length
  have compares : (!outcomes.reduceOption.isEmpty) = Filter.anyCompares data := by
    rw [← anyCompares_of_reduceOption, areOutcomes.compares]
  cases said : outcomes.reduceOption with
  | nil =>
      refine ⟨none, ⟨?_, ?_, ?_⟩⟩
      · rw [filterTruth, areOutcomes.truths, said]
        rfl
      · rw [Filter.compares, ← compares, said]
        rfl
      · have yields := yields_one db row (.brackets members)
        cases operator with
        | and => rwa [areOutcomes.members.brackets_and, said] at yields
        | or => rwa [areOutcomes.members.brackets_or db row some_, disj_all_none nonempty said] at yields
  | cons truth truths =>
      have yields := yields_one db row (.brackets members)
      cases operator with
      | and =>
          refine ⟨some (Truth.conj (truth :: truths)), ⟨?_, ?_, ?_⟩⟩
          · rw [filterTruth, areOutcomes.truths, said]
            rfl
          · rw [Filter.compares, ← compares, said]
            rfl
          · rwa [areOutcomes.members.brackets_and, said] at yields
      | or =>
          refine ⟨some (Truth.disj (truth :: truths)), ⟨?_, ?_, ?_⟩⟩
          · rw [filterTruth, areOutcomes.truths, said]
            rfl
          · rw [Filter.compares, ← compares, said]
            rfl
          · have all : ∀ outcome ∈ outcomes, outcome.isSome = true := by
              rcases decided with isAnd | silent | all
              · cases isAnd
              · rw [silent, said] at compares
                cases compares
              · exact areOutcomes.all all
            rwa [areOutcomes.members.brackets_or db row some_, disj_all_some all, said] at yields

mutual

theorem survives_of_prepareOne : ∀ {filter prepared : Filter},
    prepareOne host filter = .ok (some prepared) → filter.survives = true
  | .leaf leaf, prepared, isPrepared => by
      rw [prepareOne] at isPrepared
      cases kept : leaf.isKept with
      | true => exact kept
      | false => simp [kept] at isPrepared
  | .group operator data, prepared, isPrepared => by
      rw [prepareOne] at isPrepared
      obtain ⟨-, -, isPrepared⟩ := of_bind_ok isPrepared
      obtain ⟨cleaned, isCleaned, isPrepared⟩ := of_bind_ok isPrepared
      cases cleaned with
      | nil => cases isPrepared
      | cons first rest => exact anySurvives_of_prepareEach isCleaned (by simp)

theorem anySurvives_of_prepareEach : ∀ {filters prepared : List Filter},
    prepareEach host filters = .ok prepared → prepared ≠ [] → Filter.anySurvives filters = true
  | [], prepared, isPrepared, some_ => by
      cases isPrepared
      contradiction
  | filter :: rest, prepared, isPrepared, some_ => by
      rw [prepareEach] at isPrepared
      obtain ⟨first, isFirst, isPrepared⟩ := of_bind_ok isPrepared
      obtain ⟨others, areOthers, isPrepared⟩ := of_bind_ok isPrepared
      obtain rfl : first.toList ++ others = prepared := Except.ok.inj isPrepared
      rw [Filter.anySurvives, Bool.or_eq_true]
      cases first with
      | some prepared => exact .inl (survives_of_prepareOne isFirst)
      | none => exact .inr (anySurvives_of_prepareEach areOthers some_)

end

mutual

/-- The conditions of what is kept of a tree come to its meaning. -/
theorem applyFilterToQuery_truth : ∀ {filter prepared : Filter} {idx : Count} {draw n : Nat} {wheres : Wheres},
    filter.isDecided = true → prepareOne host filter = .ok (some prepared) →
    applyFilterToQuery host schema metadata root draws prepared idx draw = .ok (wheres, n) →
    ∃ outcome, Outcome db row host schema metadata root filter wheres outcome
  | .leaf leaf, prepared, idx, draw, n, wheres, _, isPrepared, applied => by
      rw [prepareOne] at isPrepared
      cases kept : leaf.isKept with
      | false => simp [kept] at isPrepared
      | true =>
          simp only [kept, if_true] at isPrepared
          cases isPrepared
          rw [applyFilterToQuery] at applied
          obtain ⟨-, -, applied⟩ := of_bind_ok applied
          cases usable : leaf.isUsable with
          | true =>
              obtain ⟨truth, isTruth, yields⟩ := applyLeaf_truth db row usable applied
              refine ⟨some truth, ⟨?_, ?_, yields⟩⟩
              · rw [filterTruth, if_pos usable, isTruth]
                rfl
              · rw [Filter.compares, usable]
                rfl
          | false =>
              obtain rfl := applyLeaf_silent kept usable applied
              refine ⟨none, ⟨?_, ?_, yields_nothing db row⟩⟩
              · rw [filterTruth, if_neg (by simp [usable])]
              · rw [Filter.compares, usable]
                rfl
  | .group operator data, prepared, idx, draw, n, wheres, decided, isPrepared, applied => by
      rw [prepareOne] at isPrepared
      obtain ⟨-, -, isPrepared⟩ := of_bind_ok isPrepared
      obtain ⟨cleaned, isCleaned, isPrepared⟩ := of_bind_ok isPrepared
      obtain ⟨first, rest, rfl⟩ : ∃ first rest, cleaned = first :: rest := by
        cases cleaned with
        | nil => cases isPrepared
        | cons first rest => exact ⟨first, rest, rfl⟩
      cases isPrepared
      rw [applyFilterToQuery] at applied
      obtain ⟨-, -, applied⟩ := of_bind_ok applied
      obtain ⟨⟨members, after⟩, areMembers, applied⟩ := of_bind_ok applied
      cases applied
      rw [Filter.isDecided, Bool.and_eq_true, Bool.or_eq_true, Bool.or_eq_true] at decided
      obtain ⟨outcomes, areOutcomes, some_⟩ := applyMembers_truth decided.1 isCleaned areMembers
      refine areOutcomes.group db row ?_ (some_ (by simp))
      rcases decided.2 with (isAnd | silent) | all
      · exact .inl (by simpa using isAnd)
      · exact .inr (.inl (by simpa using silent))
      · exact .inr (.inr all)

theorem applyMembers_truth : ∀ {filters prepared : List Filter} {operator : Connective}
    {idx : Count} {j draw n : Nat} {wheres : Wheres},
    Filter.allDecided filters = true → prepareEach host filters = .ok prepared →
    applyMembers host schema metadata root draws operator prepared idx j draw = .ok (wheres, n) →
    ∃ outcomes, Outcomes db row host schema metadata root operator filters wheres outcomes ∧
      (prepared ≠ [] → wheres ≠ [])
  | [], prepared, operator, idx, j, draw, n, wheres, _, isPrepared, applied => by
      cases isPrepared
      cases applied
      exact ⟨[], .nil db row operator, by simp⟩
  | filter :: rest, prepared, operator, idx, j, draw, n, wheres, decided, isPrepared, applied => by
      rw [Filter.allDecided, Bool.and_eq_true] at decided
      rw [prepareEach] at isPrepared
      obtain ⟨first, isFirst, isPrepared⟩ := of_bind_ok isPrepared
      obtain ⟨others, areOthers, isPrepared⟩ := of_bind_ok isPrepared
      obtain rfl : first.toList ++ others = prepared := Except.ok.inj isPrepared
      cases first with
      | none =>
          obtain ⟨outcomes, areOutcomes, some_⟩ := applyMembers_truth decided.2 areOthers applied
          exact ⟨outcomes, areOutcomes.drop db row (prepareOne_none db row isFirst), some_⟩
      | some kept =>
          simp only [Option.toList, List.cons_append, List.nil_append] at applied
          rw [applyMembers] at applied
          obtain ⟨⟨wrapped, after⟩, isWrapped, applied⟩ := of_bind_ok applied
          obtain ⟨⟨members, after'⟩, areMembers, applied⟩ := of_bind_ok applied
          cases applied
          obtain ⟨outcome, isOutcome⟩ := applyFilterToQuery_truth decided.1 isFirst isWrapped
          obtain ⟨outcomes, areOutcomes, -⟩ := applyMembers_truth decided.2 areOthers areMembers
          exact ⟨outcome :: outcomes, .cons db row isOutcome (survives_of_prepareOne isFirst) areOutcomes,
            by simp⟩

end

theorem Yields.append {wheres others : Wheres} {truth other : Truth} (left : Yields db row wheres truth)
    (right : Yields db row others other) : Yields db row (wheres ++ others) (truth.and other) where
  ands := left.ands.append right.ands
  truth := by
    rw [evalWheres_append, List.map_append, Truth.conj_append, left.truth, right.truth]

/-- The same over the top-level list, whose conditions are not wrapped one by one. -/
theorem applyFilters_truth {filters prepared : List Filter} {i draw n : Nat} {wheres : Wheres}
    (decided : Filter.allDecided filters = true) (isPrepared : prepareEach host filters = .ok prepared)
    (applied : applyFilters host schema metadata root draws prepared i draw = .ok (wheres, n)) :
    ∃ truths, forestTruths db row host schema metadata root filters = .ok truths ∧
      Yields db row wheres (Truth.conj truths) := by
  induction filters generalizing prepared i draw n wheres with
  | nil =>
      cases isPrepared
      cases applied
      exact ⟨[], rfl, yields_nothing db row⟩
  | cons filter rest ih =>
      rw [Filter.allDecided, Bool.and_eq_true] at decided
      rw [prepareEach] at isPrepared
      obtain ⟨first, isFirst, isPrepared⟩ := of_bind_ok isPrepared
      obtain ⟨others, areOthers, isPrepared⟩ := of_bind_ok isPrepared
      obtain rfl : first.toList ++ others = prepared := Except.ok.inj isPrepared
      cases first with
      | none =>
          obtain ⟨truths, areTruths, yields⟩ := ih decided.2 areOthers applied
          refine ⟨truths, ?_, yields⟩
          rw [forestTruths, (prepareOne_none db row isFirst).1, areTruths]
          rfl
      | some kept =>
          simp only [Option.toList, List.cons_append, List.nil_append] at applied
          rw [applyFilters] at applied
          obtain ⟨⟨first, after⟩, isFirstApplied, applied⟩ := of_bind_ok applied
          obtain ⟨⟨later, after'⟩, areLater, applied⟩ := of_bind_ok applied
          cases applied
          obtain ⟨outcome, isOutcome⟩ := applyFilterToQuery_truth db row decided.1 isFirst isFirstApplied
          obtain ⟨truths, areTruths, yields⟩ := ih decided.2 areOthers areLater
          refine ⟨outcome.toList ++ truths, ?_, ?_⟩
          · rw [forestTruths, isOutcome.truth, areTruths]
            rfl
          · have both := isOutcome.yields.append db row yields
            cases outcome with
            | none => exact both
            | some truth => exact both

mutual

theorem prepareOne_again (clones : ∀ filter, host.validateFilter filter = .ok ()) :
    ∀ {filter prepared : Filter}, prepareOne host filter = .ok (some prepared) →
      prepareOne host prepared = .ok (some prepared)
  | .leaf leaf, prepared, isPrepared => by
      have kept := survives_of_prepareOne isPrepared
      rw [Filter.survives] at kept
      rw [prepareOne, if_pos kept] at isPrepared
      cases isPrepared
      rw [prepareOne, if_pos kept]
  | .group operator data, prepared, isPrepared => by
      rw [prepareOne] at isPrepared
      obtain ⟨-, -, isPrepared⟩ := of_bind_ok isPrepared
      obtain ⟨cleaned, isCleaned, isPrepared⟩ := of_bind_ok isPrepared
      cases cleaned with
      | nil => cases isPrepared
      | cons first rest =>
          cases isPrepared
          rw [prepareOne, clones, prepareEach_again clones isCleaned]
          rfl

theorem prepareEach_again (clones : ∀ filter, host.validateFilter filter = .ok ()) :
    ∀ {filters prepared : List Filter}, prepareEach host filters = .ok prepared →
      prepareEach host prepared = .ok prepared
  | [], prepared, isPrepared => by
      cases isPrepared
      rfl
  | filter :: rest, prepared, isPrepared => by
      rw [prepareEach] at isPrepared
      obtain ⟨first, isFirst, isPrepared⟩ := of_bind_ok isPrepared
      obtain ⟨others, areOthers, isPrepared⟩ := of_bind_ok isPrepared
      obtain rfl : first.toList ++ others = prepared := Except.ok.inj isPrepared
      have again := prepareEach_again clones areOthers
      cases first with
      | none => exact again
      | some kept =>
          rw [Option.toList_some, List.singleton_append, prepareEach, prepareOne_again clones isFirst, again]
          rfl

end

end Trees

section Ands

variable {Entity : Type} {host : Host} {schema : Schema Entity} {metadata : EntityMetadata Entity}
  {root : String} {draws : Nat → Text}

theorem applyData_ands {leaf : Leaf} {column : Sql} {data : Data} {idx : Count} {draw n : Nat} {wheres : Wheres}
    (applied : applyData host schema metadata root draws leaf column data idx draw = .ok (wheres, n)) :
    Ands wheres := by
  cases silent : data.isNullish with
  | true =>
      rw [applyData, if_pos silent] at applied
      cases applied
      simp [Ands]
  | false =>
      -- any database will do
      let db : Database Unit := ⟨fun _ _ _ => true, fun _ => [], id, fun _ => [], fun _ => none⟩
      obtain ⟨_, _, yields⟩ := applyData_truth db (fun _ => none) silent applied
      exact yields.ands

/-- A filter adds its conditions with AND. -/
theorem applyFilterToQuery_ands {filter : Filter} {idx : Count} {draw n : Nat} {wheres : Wheres}
    (applied : applyFilterToQuery host schema metadata root draws filter idx draw = .ok (wheres, n)) :
    Ands wheres := by
  cases filter with
  | group operator data =>
      rw [applyFilterToQuery] at applied
      obtain ⟨-, -, applied⟩ := of_bind_ok applied
      obtain ⟨⟨members, after⟩, -, applied⟩ := of_bind_ok applied
      cases applied
      cases data <;> simp [Ands]
  | leaf leaf =>
      rw [applyFilterToQuery] at applied
      obtain ⟨-, -, applied⟩ := of_bind_ok applied
      rw [applyLeaf] at applied
      split at applied
      · cases applied
        simp [Ands]
      · obtain ⟨column, -, applied⟩ := of_bind_ok applied
        split at applied
        · cases applied
          simp [Ands]
        · cases applied
          simp [Ands]
        · cases applied
          simp [Ands]
        · exact applyData_ands applied

theorem applyFilters_ands {filters : List Filter} {i draw n : Nat} {wheres : Wheres}
    (applied : applyFilters host schema metadata root draws filters i draw = .ok (wheres, n)) :
    Ands wheres := by
  induction filters generalizing i draw n wheres with
  | nil =>
      cases applied
      simp [Ands]
  | cons filter rest ih =>
      rw [applyFilters] at applied
      obtain ⟨⟨first, after⟩, isFirst, applied⟩ := of_bind_ok applied
      obtain ⟨⟨others, after'⟩, areOthers, applied⟩ := of_bind_ok applied
      cases applied
      exact (applyFilterToQuery_ands isFirst).append (ih areOthers)

end Ands

theorem evalWheres_eq_map {Cell : Type} (db : Database Cell) (row : Sql → Option Cell) (wheres : Wheres) :
    evalWheres db row wheres = wheres.map fun condition => (condition.1, evalCondition db row condition.2) := by
  induction wheres with
  | nil => rfl
  | cons first rest ih =>
      obtain ⟨connective, condition⟩ := first
      rw [evalWheres, ih, List.map_cons]

/-- Brackets around ANDs are true when everything in them is. -/
theorem brackets_eq_true {Cell : Type} (db : Database Cell) (row : Sql → Option Cell) {wheres : Wheres}
    (ands : Ands wheres) :
    evalCondition db row (.brackets wheres) = some true ↔
      ∀ condition ∈ wheres, evalCondition db row condition.2 = some true := by
  rw [evalCondition, chain_ands (evalWheres_ands db row ands), Truth.conj_eq_true, evalWheres_eq_map,
    List.map_map, List.forall_mem_map]
  rfl

/-! ## Forests -/

/-- Where no OR group holds a kept member without usable data beside one that compares, the
conditions built of the prepared forest are its meaning in every row, and preparing it again
changes nothing. -/
theorem forest_compiles {Cell Entity : Type} (db : Database Cell) (row : Sql → Option Cell) (host : Host)
    (clones : ∀ filter, host.validateFilter filter = .ok ()) (schema : Schema Entity)
    (metadata : EntityMetadata Entity) (root : String) (draws : Nat → Text)
    {forest prepared : List Filter} {wheres : Wheres} {n : Nat}
    (decided : Filter.allDecided forest = true) (isPrepared : prepareFilter host forest = .ok prepared)
    (built : applyFilters host schema metadata root draws prepared 0 0 = .ok (wheres, n)) :
    forestTruth db row host schema metadata root forest =
        .ok (evalCondition db row (.brackets wheres)) ∧
      prepareFilter host prepared = .ok prepared := by
  obtain ⟨-, -, isPrepared⟩ := of_bind_ok isPrepared
  obtain ⟨truths, areTruths, yields⟩ := applyFilters_truth db row decided isPrepared built
  constructor
  · rw [forestTruth, areTruths, yields.brackets]
    rfl
  · rw [prepareFilter, clones, prepareEach_again clones isPrepared]
    rfl

/-- Nothing is refused, and no date is known. -/
def plainHost : Host where
  validateFilter _ := .ok ()
  toEpoch _ _ := none
  resolveData _ := .undefined
  toText _ := []

/-- Columns of text. -/
def textDatabase : Database Text where
  compare comparison a b :=
    match comparison with
    | .equal => a == b
    | .notEqual => a != b
    | _ => false
  text := id
  fold := id
  elements _ := []
  bind data :=
    match data with
    | .item (.string text) => some (Text.ofUnits text)
    | _ => none

def bareEntity : EntityMetadata Unit where
  columns := []
  relations := []

/-- A leaf that compares the column `code` with a text, or with another field. -/
def codeLeaf (operator : Operator) (data : Data) (dataType : Option DataType) : Filter :=
  .leaf ⟨some "code".toList, operator, some data, dataType, none⟩

def isCode (value : String) : Filter := codeLeaf .equal (.item (.string (JsString.js value))) none

/-- A group of two alternatives, and a leaf without data. -/
def alternatives : List Filter :=
  [.group .or [isCode "a", codeLeaf .notIn (.array []) none], codeLeaf .equal (.item .null) none]

theorem alternatives_compile :
    forestTruth textDatabase (fun _ => some "b".toList) plainHost (fun _ => bareEntity) bareEntity "e"
        alternatives =
      .ok (evalCondition textDatabase (fun _ => some "b".toList)
        (.brackets [(.and, .brackets [(.or, .brackets [(.and, .compare .equal
          [.code ['e'], .code ['.'], .identifier "code".toList]
          (.parameter ⟨parameterName (nestedIdx (.ofNat 0) 0) [], .item (.string (JsString.js "a"))⟩))]),
          (.or, .brackets [])])])) ∧
      prepareFilter plainHost [.group .or [isCode "a", codeLeaf .notIn (.array []) none]] =
        .ok [.group .or [isCode "a", codeLeaf .notIn (.array []) none]] :=
  forest_compiles textDatabase (fun _ => some "b".toList) plainHost (fun _ => rfl) (fun _ => bareEntity)
    bareEntity "e" (fun _ => []) (by decide) rfl rfl

/-- An alternative without an operand makes the whole group true. -/
theorem emptyAlternative_true :
    (do
      let prepared ← prepareFilter plainHost
        [.group .or [codeLeaf .isIn (.item .null) (some .field), isCode "a"]]
      let built ← applyFilters plainHost (fun _ => bareEntity) bareEntity "e" (fun _ => []) prepared 0 0
      return evalCondition textDatabase (fun _ => some "b".toList) (.brackets built.1)) =
        .ok (some true) ∧
    forestTruth textDatabase (fun _ => some "b".toList) plainHost (fun _ => bareEntity) bareEntity "e"
        [.group .or [codeLeaf .isIn (.item .null) (some .field), isCode "a"]] = .ok (some false) :=
  ⟨rfl, rfl⟩

end SdcoreNest.Orm
