/-
# Orm.TextSearch -- text operators and keyword search

The text operators and `search` put the text they look for into a LIKE pattern as it is.  They
compare literally just when the folded text has none of the signs of patterns in it.
-/
import SdcoreNest.Orm.FilterMeaning
import SdcoreNest.Theory.Like

namespace SdcoreNest.Orm

open Theory

set_option autoImplicit false

/-! ## Bound texts -/

theorem ofUnits_cons {u : UInt16} (leading : JsString.isLeading u = false) (text : JsString) :
    Text.ofUnits (u :: text) = Text.ofUnit u :: Text.ofUnits text := by
  cases text with
  | nil => rfl
  | cons v rest => simp [Text.ofUnits, leading]

/-- White space and signs stand for themselves wherever they stand. -/
theorem ofUnits_append {text others : JsString}
    (apart : ∀ u ∈ others.head?, JsString.isTrailing u = false) :
    Text.ofUnits (text ++ others) = Text.ofUnits text ++ Text.ofUnits others := by
  induction text using Text.ofUnits.induct with
  | case1 => rfl
  | case2 u =>
      cases others with
      | nil => rfl
      | cons v rest =>
          have trailing : JsString.isTrailing v = false := apart v rfl
          simp [Text.ofUnits, trailing]
  | case3 u v rest pair ih => simp [Text.ofUnits, pair, ih]
  | case4 u v rest single ih =>
      simp only [Bool.not_eq_true] at single
      simp only [List.cons_append] at ih
      simp [Text.ofUnits, single, ih]

theorem ofUnits_template (before after : Bool) (text : JsString) :
    Text.ofUnits ((if before then JsString.js "%" else []) ++ text ++
        (if after then JsString.js "%" else [])) =
      mark before ++ Text.ofUnits text ++ mark after := by
  have percent : JsString.js "%" = [0x25] := rfl
  have ending : Text.ofUnits (text ++ if after then JsString.js "%" else []) =
      Text.ofUnits text ++ mark after := by
    rw [ofUnits_append]
    · cases after <;> rfl
    · intro u member
      cases after with
      | false => cases member
      | true =>
          cases member
          rfl
  rw [List.append_assoc, List.append_assoc, ← ending]
  cases before with
  | false => rfl
  | true =>
      simp only [if_true, percent, List.singleton_append, mark]
      rw [ofUnits_cons rfl]
      rfl

/-- A database whose columns hold texts; strings are bound as the texts they encode. -/
structure TextDatabase (Cell : Type) extends Database Cell where
  folding : Folding
  folds : fold = folding.fold
  binds : ∀ string, (bind (.item (.string string))).map text = some (Text.ofUnits string)
  texts : Function.Surjective text

/-! ## Operators -/

/-- Whether an operator is negated, and where it puts `%`. -/
def textForm : Operator → Option (Bool × Bool × Bool)
  | .contain => some (false, true, true)
  | .notContain => some (true, true, true)
  | .startWith => some (false, false, true)
  | .notStartWith => some (true, false, true)
  | .endWith => some (false, true, false)
  | .notEndWith => some (true, true, false)
  | _ => none

/-- What an operator says of two folded texts. -/
def HoldsLiterally : Operator → Text → Text → Prop
  | .contain, word, text => word <:+: text
  | .notContain, word, text => ¬word <:+: text
  | .startWith, word, text => word <+: text
  | .notStartWith, word, text => ¬word <+: text
  | .endWith, word, text => word <:+ text
  | .notEndWith, word, text => ¬word <:+ text
  | _, _, _ => False

theorem holdsLiterally_iff {operator : Operator} {negated before after : Bool}
    (form : textForm operator = some (negated, before, after)) (word text : Text) :
    HoldsLiterally operator word text ↔ (negated = false ↔ Occurs before word after text) := by
  cases operator <;> cases form <;>
    simp [HoldsLiterally, occurs_anywhere, occurs_atStart, occurs_atEnd]

section Literal

variable {Cell : Type} (db : TextDatabase Cell)

/-- The column has a value, and the operator holds of the folded texts. -/
def Literal (operator : Operator) (word : Text) (value : Option Cell) : Prop :=
  ∃ cell, value = some cell ∧ HoldsLiterally operator (db.fold word) (db.fold (db.text cell))

theorem liked_eq_true {negated : Bool} {value : Option Cell} {pattern : Text} :
    Database.liked negated (db.folded value) (some pattern) = some true ↔
      ∃ cell, value = some cell ∧ (negated = false ↔ like (db.fold (db.text cell)) pattern = true) := by
  cases value with
  | none => simp [Database.folded, Database.liked]
  | some cell =>
      simp only [Database.folded, Option.map_some, Database.liked, Option.some.injEq, exists_eq_left']
      cases negated <;> cases like (db.fold (db.text cell)) pattern <;> simp

/-- A test of one column against a pattern is literal just when the word of the pattern is plain. -/
theorem liked_literal_iff {operator : Operator} {negated before after : Bool}
    (form : textForm operator = some (negated, before, after)) (word : Text) :
    (∀ value, Database.liked negated (db.folded value) (some (mark before ++ db.fold word ++ mark after)) =
      some true ↔ Literal db operator word value) ↔ IsPlain (db.fold word) := by
  rw [show db.fold word = db.folding.fold word from congrFun db.folds word,
    ← db.folding.like_iff_occurs_iff before after word]
  simp only [liked_eq_true, Literal, holdsLiterally_iff form, db.folds]
  constructor
  · intro agree text
    obtain ⟨cell, rfl⟩ := db.texts text
    have same := agree (some cell)
    simp only [Option.some.injEq, exists_eq_left'] at same
    cases negated with
    | false => simpa using same
    | true => exact not_iff_not.mp (by simpa using same)
  · intro agree value
    simp only [agree]

end Literal

/-! ## Leaves -/

section Leaves

variable {Cell Entity : Type} (db : TextDatabase Cell) {host : Host} {schema : Schema Entity}
  {metadata : EntityMetadata Entity} {root : String} {draws : Nat → Text}

theorem folded_template (before after : Bool) (text : JsString) :
    db.folded (db.bind (template host before (.item (.string text)) after)) =
      some (mark before ++ db.fold (Text.ofUnits text) ++ mark after) := by
  have bound := db.binds ((if before then JsString.js "%" else []) ++ text ++
    (if after then JsString.js "%" else []))
  rw [ofUnits_template] at bound
  have split : db.folded (db.bind (template host before (.item (.string text)) after)) =
      (some (mark before ++ Text.ofUnits text ++ mark after)).map db.fold := by
    rw [← bound, Option.map_map]
    rfl
  rw [split, Option.map_some, db.folds, Folding.fold_append, Folding.fold_append, Folding.fold_mark,
    Folding.fold_mark]

/-- The condition of a text operator with a bound text. -/
theorem applyLeaf_text {operator : Operator} {negated before after : Bool}
    (form : textForm operator = some (negated, before, after)) {field : Text} {column : Sql}
    (isColumn : resolveColumnName schema metadata root field = .ok column) (text : JsString)
    (idx : Count) (draw : Nat) :
    applyLeaf host schema metadata root draws
        ⟨some field, operator, some (.item (.string text)), none, none⟩ idx draw =
      .ok ([(.and, .like negated column (.parameter ⟨parameterName idx (draws draw),
        template host before (.item (.string text)) after⟩))], draw + 1) := by
  have named : (Leaf.name ⟨some field, operator, some (.item (.string text)), none, none⟩).isEmpty = false := by
    by_contra empty
    have nil : field = [] := by simpa [Leaf.name] using empty
    rw [nil, resolveColumnName] at isColumn
    cases isColumn
  rw [applyLeaf, if_neg (by simp [named])]
  have isColumn : resolveColumnName schema metadata root
      (Leaf.name ⟨some field, operator, some (.item (.string text)), none, none⟩) = .ok column := isColumn
  rw [isColumn]
  cases operator <;> cases form <;> rfl

/-- The condition of a text operator with a field operand. -/
theorem applyLeaf_textField {operator : Operator} {negated before after : Bool}
    (form : textForm operator = some (negated, before, after)) {field : Text} {operand : JsString}
    {column other : Sql} (isColumn : resolveColumnName schema metadata root field = .ok column)
    (isOther : resolveColumnName schema metadata root (Text.ofUnits operand) = .ok other)
    (idx : Count) (draw : Nat) :
    applyLeaf host schema metadata root draws
        ⟨some field, operator, some (.item (.string operand)), some .field, none⟩ idx draw =
      .ok ([(.and, .like negated column (.column before other after))], draw) := by
  have named : (Leaf.name ⟨some field, operator, some (.item (.string operand)), some .field,
      none⟩).isEmpty = false := by
    by_contra empty
    have nil : field = [] := by simpa [Leaf.name] using empty
    rw [nil, resolveColumnName] at isColumn
    cases isColumn
  rw [applyLeaf, if_neg (by simp [named])]
  have isColumn : resolveColumnName schema metadata root
      (Leaf.name ⟨some field, operator, some (.item (.string operand)), some .field, none⟩) = .ok column :=
    isColumn
  rw [isColumn]
  have applied : applyData host schema metadata root draws
      ⟨some field, operator, some (.item (.string operand)), some .field, none⟩ column
      (.item (.string operand)) idx draw =
      .ok ([(.and, .like negated column (.column before other after))], draw) := by
    rw [applyData, if_neg (by simp [Data.isNullish, Item.isNullish]), if_pos rfl]
    simp only [operandField, bind, Except.bind, isOther]
    cases operator <;> cases form <;> rfl
  cases operator <;> cases form <;> exact applied

end Leaves

/-! ## `search` -/

structure SearchableConfig where
  exact : List Text
  contain : List Text
  activeColumn : Option Text

section Search

variable {Entity : Type} (host : Host) (schema : Schema Entity) (metadata : EntityMetadata Entity)

def hasCol (property : Text) : Bool := (metadata.findColumnWithPropertyName property).isSome

/-- The test of a contain column. -/
def containCondition (searchColumn : Sql) (term : JsString) : Condition :=
  .like false searchColumn
    (.parameter ⟨"likeTerm".toList, template host true (.item (.string term)) true⟩)

/-- One turn of the loop over the exact columns. -/
def exactMember (term : JsString) (property : Text) : Except Failure Wheres :=
  if hasCol metadata property then do
    let column ← resolveColumnName schema metadata "e" property
    return [(.or, .compare .equal column (.parameter ⟨"term".toList, .item (.string term)⟩))]
  else .ok []

/-- One turn of the loop over the contain columns. -/
def containMember (activeCol : Option Text) (term : JsString) (property : Text) :
    Except Failure Wheres :=
  if hasCol metadata property then do
    let searchColumn ← resolveColumnName schema metadata "e" property
    match activeCol with
    | some active => do
        let activeColumn ← resolveColumnName schema metadata "e" active
        return [(.or, .brackets [(.and, containCondition host searchColumn term),
          (.and, .compare .equal activeColumn
            (.parameter ⟨"isActive".toList, .item (.boolean true)⟩))])]
    | none => return [(.or, containCondition host searchColumn term)]
  else .ok []

/-- The alternatives of a keyword. -/
def searchMembers (config : SearchableConfig) (term : JsString) : Except Failure Wheres := do
  let exacts ← config.exact.mapM (exactMember schema metadata term)
  let contains ← config.contain.mapM
    (containMember host schema metadata (config.activeColumn.filter (hasCol metadata)) term)
  return exacts.flatten ++ contains.flatten

/-- Filters inside brackets, if there are any. -/
def bracketed (draws : Nat → Text) (filters : List Filter) : Except Failure Wheres :=
  if filters.isEmpty then .ok []
  else
    (applyFilters host schema metadata "e" draws filters 0 0).map fun built => [(.and, .brackets built.1)]

/-- The conditions of `search`; `none` where it answers an empty list. -/
def searchWheres (draws : Nat → Text) (isUuid : JsString → Bool)
    (addonFilter : List Filter → Except Failure (List Filter)) (config : Option SearchableConfig)
    (keyword : JsString) (filters : List Filter) : Except Failure (Option Wheres) :=
  if !(JsString.trim keyword).isEmpty && isUuid (JsString.trim keyword) then do
    let scopeFilters ← addonFilter []
    let scope ← bracketed host schema metadata draws scopeFilters
    return some ((.and, .compare .equal (code "e.id")
      (.parameter ⟨"id".toList, .item (.string (JsString.trim keyword))⟩)) :: scope)
  else
    match config with
    | none => .ok none
    | some config => do
        let finalFilters ← addonFilter filters
        let own ← bracketed host schema metadata draws finalFilters
        if (JsString.trim keyword).isEmpty then return some own
        else
          let members ← searchMembers host schema metadata config (JsString.trim keyword)
          return some (own ++ [(.and, .brackets members)])

end Search

/-- The trimmed text is a part of the whole, with white space around it. -/
theorem trim_parts (text : JsString) :
    ∃ front back, text = front ++ JsString.trim text ++ back ∧
      (∀ u ∈ front, JsString.isSpace u = true) ∧ (∀ u ∈ back, JsString.isSpace u = true) := by
  refine ⟨text.takeWhile JsString.isSpace,
    ((JsString.trimStart text).reverse.takeWhile JsString.isSpace).reverse, ?_, ?_, ?_⟩
  · have ends : JsString.trim text ++
        ((JsString.trimStart text).reverse.takeWhile JsString.isSpace).reverse = JsString.trimStart text := by
      rw [JsString.trim, JsString.trimStart, ← List.reverse_append, List.takeWhile_append_dropWhile,
        List.reverse_reverse]
    rw [List.append_assoc, ends]
    exact List.takeWhile_append_dropWhile.symm
  · intro u inside
    exact List.mem_takeWhile_imp inside
  · intro u inside
    exact List.mem_takeWhile_imp (List.mem_reverse.mp inside)

theorem not_surrogate_of_isSpace {u : UInt16} (space : JsString.isSpace u = true) :
    JsString.isLeading u = false ∧ JsString.isTrailing u = false := by
  simp only [JsString.isSpace, JsString.isLeading, JsString.isTrailing, Bool.or_eq_true, Bool.and_eq_true,
    decide_eq_true_eq, beq_iff_eq, Bool.and_eq_false_iff, decide_eq_false_iff_not] at space ⊢
  omega

theorem ofUnits_spaces_append {front : JsString} (spaces : ∀ u ∈ front, JsString.isSpace u = true)
    (text : JsString) : Text.ofUnits (front ++ text) = Text.ofUnits front ++ Text.ofUnits text := by
  induction front with
  | nil => rfl
  | cons u rest ih =>
      obtain ⟨space, others⟩ := List.forall_mem_cons.mp spaces
      have leading := (not_surrogate_of_isSpace space).1
      rw [List.cons_append, ofUnits_cons leading, ofUnits_cons leading, ih others]
      rfl

/-- The trimmed keyword, as the database reads it, is a part of the keyword. -/
theorem ofUnits_trim (text : JsString) :
    ∃ front back, Text.ofUnits text = front ++ Text.ofUnits (JsString.trim text) ++ back := by
  obtain ⟨front, back, parts, spaces, spaces'⟩ := trim_parts text
  refine ⟨Text.ofUnits front, Text.ofUnits back, ?_⟩
  rw [List.append_assoc] at parts
  conv_lhs => rw [parts]
  rw [ofUnits_spaces_append spaces, ofUnits_append, List.append_assoc]
  intro u member
  exact (not_surrogate_of_isSpace (spaces' u (List.mem_of_mem_head? member))).2

/-- What a contain column is tested for is the trimmed keyword, pattern signs and all. -/
theorem contain_literal_iff {Cell : Type} (db : TextDatabase Cell) (host : Host) (column : Sql)
    (keyword : JsString) :
    (∀ row, evalCondition db.toDatabase row (containCondition host column (JsString.trim keyword)) =
      some true ↔ Literal db .contain (Text.ofUnits keyword) (row column)) ↔
    IsPlain (db.fold (Text.ofUnits (JsString.trim keyword))) ∧
      db.fold (Text.ofUnits (JsString.trim keyword)) = db.fold (Text.ofUnits keyword) := by
  have evaluated (row : Sql → Option Cell) :
      evalCondition db.toDatabase row (containCondition host column (JsString.trim keyword)) =
        Database.liked false (db.folded (row column))
          (some (mark true ++ db.fold (Text.ofUnits (JsString.trim keyword)) ++ mark true)) := by
    rw [containCondition, evalCondition, evalPattern, folded_template]
  have sameFold : db.fold = db.folding.fold := db.folds
  simp only [evaluated]
  constructor
  · intro agree
    have agree' (text : Text) :
        like (db.fold text) (mark true ++ db.fold (Text.ofUnits (JsString.trim keyword)) ++ mark true) =
          true ↔ Occurs true (db.fold (Text.ofUnits keyword)) true (db.fold text) := by
      obtain ⟨cell, rfl⟩ := db.texts text
      have same := agree fun _ => some cell
      rw [liked_eq_true, Literal] at same
      simpa [HoldsLiterally, occurs_anywhere] using same
    obtain ⟨front, back, parts⟩ := ofUnits_trim keyword
    have whole : db.fold (Text.ofUnits keyword) =
        db.fold front ++ db.fold (Text.ofUnits (JsString.trim keyword)) ++ db.fold back := by
      rw [parts, sameFold, Folding.fold_append, Folding.fold_append]
    have longer : (db.fold (Text.ofUnits (JsString.trim keyword))).length ≤
        (db.fold (Text.ofUnits keyword)).length := by
      rw [whole]
      simp only [List.length_append]
      omega
    -- a text as short as the trimmed keyword that holds the keyword is both of them
    have squeeze (text : Text) (occurs : Occurs true (db.fold (Text.ofUnits keyword)) true (db.fold text))
        (short : (db.fold text).length ≤ (db.fold (Text.ofUnits (JsString.trim keyword))).length) :
        db.fold text = db.fold (Text.ofUnits keyword) ∧
          db.fold (Text.ofUnits (JsString.trim keyword)) = db.fold (Text.ofUnits keyword) := by
      have same := occurs.eq_of_length (short.trans longer)
      refine ⟨same, ?_⟩
      have inside : Occurs true (db.fold (Text.ofUnits (JsString.trim keyword))) true
          (db.fold (Text.ofUnits keyword)) := ⟨_, _, whole, by simp, by simp⟩
      exact (inside.eq_of_length (by rw [← same]; exact short)).symm
    have plain : IsPlain (db.fold (Text.ofUnits (JsString.trim keyword))) := by
      by_contra signed
      rw [sameFold] at signed
      rcases db.folding.like_cases signed true true with nothing | ⟨other, described, short, differs⟩
      · have described := (agree' (Text.ofUnits keyword)).mpr (occurs_self true true _)
        rw [sameFold, nothing] at described
        cases described
      · rw [← sameFold] at described short differs
        obtain ⟨isKeyword, isTrimmed⟩ := squeeze other ((agree' other).mp described) short
        exact differs (isKeyword.trans isTrimmed.symm)
    refine ⟨plain, ?_⟩
    have described := (like_iff_occurs plain).mpr
      (occurs_self true true (db.fold (Text.ofUnits (JsString.trim keyword))))
    exact (squeeze _ ((agree' _).mp described) le_rfl).2
  · rintro ⟨plain, same⟩ row
    rw [(liked_literal_iff db (show textForm .contain = _ from rfl) (Text.ofUnits (JsString.trim keyword))).mpr plain (row column)]
    simp only [Literal, same]

/-! ## Literal comparison -/

/-- A text operator compares literally, in every row, just when the folded text it looks for has
no pattern sign; with another column as operand, just when the operand's folded text has none; and a
contain column of `search` does just when the folded trimmed keyword has none and is the folded keyword,
where an active column, if there is one, is asked for next to it. -/
theorem text_literal_iff {Cell Entity : Type} (db : TextDatabase Cell) (host : Host)
    (schema : Schema Entity) (metadata : EntityMetadata Entity) (draws : Nat → Text)
    {operator : Operator} {form : Bool × Bool × Bool} (isForm : textForm operator = some form)
    {field : Text} {column : Sql} (isColumn : resolveColumnName schema metadata "e" field = .ok column) :
    (∀ text idx draw, ∃ wheres n,
      applyLeaf host schema metadata "e" draws
          ⟨some field, operator, some (.item (.string text)), none, none⟩ idx draw = .ok (wheres, n) ∧
        ((∀ row, evalCondition db.toDatabase row (.brackets wheres) = some true ↔
            Literal db operator (Text.ofUnits text) (row column)) ↔
          IsPlain (db.fold (Text.ofUnits text)))) ∧
    (∀ operand other idx draw, resolveColumnName schema metadata "e" (Text.ofUnits operand) = .ok other →
      other ≠ column → ∃ wheres n,
      applyLeaf host schema metadata "e" draws
          ⟨some field, operator, some (.item (.string operand)), some .field, none⟩ idx draw =
            .ok (wheres, n) ∧
        ∀ cell, (∀ row, row other = some cell →
            (evalCondition db.toDatabase row (.brackets wheres) = some true ↔
              Literal db operator (db.text cell) (row column))) ↔
          IsPlain (db.fold (db.text cell))) ∧
    (hasCol metadata field = true → ∀ keyword, ∃ condition,
      containMember host schema metadata none (JsString.trim keyword) field = .ok [(.or, condition)] ∧
        (∀ active activeColumn, resolveColumnName schema metadata "e" active = .ok activeColumn →
          containMember host schema metadata (some active) (JsString.trim keyword) field =
            .ok [(.or, .brackets [(.and, condition), (.and, .compare .equal activeColumn
              (.parameter ⟨"isActive".toList, .item (.boolean true)⟩))])]) ∧
        ((∀ row, evalCondition db.toDatabase row condition = some true ↔
            Literal db .contain (Text.ofUnits keyword) (row column)) ↔
          IsPlain (db.fold (Text.ofUnits (JsString.trim keyword))) ∧
            db.fold (Text.ofUnits (JsString.trim keyword)) = db.fold (Text.ofUnits keyword))) := by
  obtain ⟨negated, before, after⟩ := form
  refine ⟨?_, ?_, ?_⟩
  · intro text idx draw
    refine ⟨_, _, applyLeaf_text isForm isColumn text idx draw, ?_⟩
    rw [← liked_literal_iff db isForm]
    simp only [evalCondition, evalWheres, chain, chainFrom, evalPattern, folded_template]
    exact ⟨fun agree value => agree fun _ => value, fun agree row => agree (row column)⟩
  · intro operand other idx draw isOther apart
    refine ⟨_, _, applyLeaf_textField isForm isColumn isOther idx draw, ?_⟩
    intro cell
    rw [← liked_literal_iff db isForm]
    simp only [evalCondition, evalWheres, chain, chainFrom, evalPattern]
    constructor
    · intro agree value
      have same := agree (fun sql => if sql = other then some cell else value) (by simp)
      simpa [Database.folded, Database.marked, mark, Ne.symm apart] using same
    · intro agree row isCell
      rw [isCell]
      exact agree (row column)
  · intro known keyword
    refine ⟨containCondition host column (JsString.trim keyword), ?_, fun active activeColumn isActive => ?_,
      contain_literal_iff db host column keyword⟩
    · rw [containMember, if_pos known, isColumn]
      rfl
    · rw [containMember, if_pos known, isColumn]
      simp only [bind, Except.bind, isActive]
      rfl

/-- Texts in a locale that folds nothing. -/
def unfoldedTexts : TextDatabase Text where
  toDatabase := textDatabase
  folding :=
    { foldChar := fun c => [c]
      percent := rfl
      letter := rfl
      whole := by
        intro c sign inside _
        rw [List.mem_singleton.mp inside] }
  folds := by
    funext text
    simp [textDatabase, Folding.fold]
  binds _ := rfl
  texts := Function.surjective_id

theorem codeContains_literal :
    ∃ wheres n,
      applyLeaf plainHost (fun _ => bareEntity) bareEntity "e" (fun _ => [])
          ⟨some "code".toList, .contain, some (.item (.string (JsString.js "a"))), none, none⟩ (.ofNat 0) 0 =
        .ok (wheres, n) ∧
      ∀ row, evalCondition unfoldedTexts.toDatabase row (.brackets wheres) = some true ↔
        Literal unfoldedTexts .contain (Text.ofUnits (JsString.js "a"))
          (row [.code ['e'], .code ['.'], .identifier "code".toList]) := by
  obtain ⟨wheres, n, applied, literal⟩ := (text_literal_iff unfoldedTexts plainHost (fun _ => bareEntity)
    bareEntity (fun _ => []) (show textForm .contain = _ from rfl)
    (show resolveColumnName (fun _ => bareEntity) bareEntity "e" "code".toList = .ok _ from rfl)).1
    (JsString.js "a") (.ofNat 0) 0
  refine ⟨wheres, n, applied, literal.mpr ?_⟩
  intro c inside
  obtain rfl : c = 'a' := List.mem_singleton.mp inside
  rfl

/-- An underscore is found in every text that has a character. -/
theorem underscore_matches :
    ∃ wheres n,
      applyLeaf plainHost (fun _ => bareEntity) bareEntity "e" (fun _ => [])
          ⟨some "code".toList, .contain, some (.item (.string (JsString.js "_"))), none, none⟩ (.ofNat 0) 0 =
        .ok (wheres, n) ∧
      evalCondition unfoldedTexts.toDatabase (fun _ => some ['a']) (.brackets wheres) = some true ∧
      ¬Literal unfoldedTexts .contain (Text.ofUnits (JsString.js "_")) (some ['a']) := by
  refine ⟨_, _, rfl, rfl, ?_⟩
  rintro ⟨cell, isCell, holds⟩
  cases isCell
  have inside : ['_'] <:+: ['a'] := holds
  exact absurd inside (by decide)

end SdcoreNest.Orm
