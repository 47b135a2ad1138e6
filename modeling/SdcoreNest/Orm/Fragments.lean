/-
# Orm.Fragments -- fragments of the caller beside filters and scope

A fragment given as text goes into the WHERE clause without parentheses.  As long as no text has
an OR at its top, or nothing stands beside it, the clause selects what satisfies every fragment and
the filters; in every other case there are rows for which it does not.
-/
import SdcoreNest.Orm.Query

namespace SdcoreNest.Orm

open Theory

set_option autoImplicit false

/-! ## Shapes -/

namespace Fragment

variable {α β : Type}

def shape (fragment : Fragment α) : Fragment Unit := fragment.map fun _ => ()

/-- No OR stands at the top of a text. -/
def isConjunctive : Fragment α → Bool
  | .string (_ :: rest) => rest.all fun part => part.1 == .and
  | _ => true

theorem isConjunctive_map (f : α → β) (fragment : Fragment α) :
    (fragment.map f).isConjunctive = fragment.isConjunctive := by
  cases fragment with
  | brackets | object => rfl
  | string parts =>
      cases parts with
      | nil => rfl
      | cons first rest => simp [map, isConjunctive, List.all_map, Function.comp_def]

theorem isEmpty_map (f : α → β) (fragment : Fragment α) : (fragment.map f).isEmpty = fragment.isEmpty := by
  cases fragment with
  | brackets | object => rfl
  | string parts => simp [map, isEmpty]

theorem wheres_ands {fragment : Fragment α} (conjunctive : fragment.isConjunctive = true) :
    Ands fragment.wheres := by
  cases fragment with
  | brackets | object => simp [Ands, wheres]
  | string parts =>
      cases parts with
      | nil => simp [Ands, wheres]
      | cons first rest =>
          obtain ⟨connective, a⟩ := first
          refine List.forall_mem_cons.mpr ⟨rfl, ?_⟩
          simpa [isConjunctive] using conjunctive

/-- The chain does not depend on what stands before its first member. -/
theorem chain_wheres (fragment : Fragment Truth) : chain fragment.wheres = fragment.truth := by
  cases fragment with
  | brackets | object => rfl
  | string parts =>
      cases parts with
      | nil => rfl
      | cons first rest => rfl

theorem wheres_map (f : α → β) (fragment : Fragment α) :
    (fragment.map f).wheres = fragment.wheres.map fun part => (part.1, f part.2) := by
  cases fragment with
  | brackets | object => rfl
  | string parts =>
      cases parts with
      | nil => rfl
      | cons first rest => simp [map, wheres]

end Fragment

/-- The fragments that are not skipped, and the filters if there are any. -/
def entries (shapes : List (Fragment Unit)) (filtered : Bool) : Nat :=
  (shapes.filter fun fragment => !fragment.isEmpty).length + if filtered then 1 else 0

/-- No text has an OR at its top, or nothing stands beside it. -/
def Separate (shapes : List (Fragment Unit)) (filtered : Bool) : Prop :=
  (∀ fragment ∈ shapes, fragment.isConjunctive = true) ∨ entries shapes filtered ≤ 1

/-- The clause selects what satisfies every fragment and the filters. -/
def Narrows (andWheres : List (Fragment Truth)) (filters : Option Truth) : Prop :=
  chain (queryWheres andWheres filters) = some true ↔
    (∀ fragment ∈ andWheres, fragment.truth = some true) ∧ ∀ truth ∈ filters, truth = some true

theorem conj_wheres {fragment : Fragment Truth} (conjunctive : fragment.isConjunctive = true) :
    Truth.conj (fragment.wheres.map Prod.snd) = fragment.truth := by
  rw [← chain_ands (fragment.wheres_ands conjunctive), fragment.chain_wheres]

theorem queryWheres_ands {andWheres : List (Fragment Truth)}
    (conjunctive : ∀ fragment ∈ andWheres, fragment.isConjunctive = true) (filters : Option Truth) :
    Ands (queryWheres andWheres filters) := by
  refine Ands.append ?_ ?_
  · intro condition member
    obtain ⟨fragment, inside, member⟩ := List.mem_flatMap.mp member
    exact fragment.wheres_ands (conjunctive fragment inside) condition member
  · cases filters <;> simp [Ands]

theorem narrows_of_conjunctive {andWheres : List (Fragment Truth)}
    (conjunctive : ∀ fragment ∈ andWheres, fragment.isConjunctive = true) (filters : Option Truth) :
    Narrows andWheres filters := by
  rw [Narrows, chain_ands (queryWheres_ands conjunctive filters), queryWheres, List.map_append,
    Truth.conj_append, Truth.and_eq_true]
  refine and_congr ?_ ?_
  · induction andWheres with
    | nil => simp [Truth.conj]
    | cons fragment rest ih =>
        obtain ⟨first, others⟩ := List.forall_mem_cons.mp conjunctive
        rw [List.flatMap_cons, List.map_append, Truth.conj_append, Truth.and_eq_true, conj_wheres first,
          ih others, List.forall_mem_cons]
  · cases filters <;> simp [Truth.conj]

/-! ## A text alone -/

theorem Fragment.wheres_of_isEmpty {α : Type} {fragment : Fragment α} (empty : fragment.isEmpty = true) :
    fragment.wheres = [] := by
  cases fragment with
  | brackets | object => cases empty
  | string parts =>
      obtain rfl : parts = [] := by simpa [isEmpty] using empty
      rfl

theorem Fragment.truth_of_isEmpty {fragment : Fragment Truth} (empty : fragment.isEmpty = true) :
    fragment.truth = some true := by
  rw [← fragment.chain_wheres, wheres_of_isEmpty empty]
  rfl

theorem wheres_of_all_empty {andWheres : List (Fragment Truth)}
    (empty : ∀ fragment ∈ andWheres, fragment.isEmpty = true) :
    andWheres.flatMap Fragment.wheres = [] := by
  rw [List.flatMap_eq_nil_iff]
  intro fragment member
  exact Fragment.wheres_of_isEmpty (empty fragment member)

theorem narrows_of_no_fragment {andWheres : List (Fragment Truth)}
    (empty : ∀ fragment ∈ andWheres, fragment.isEmpty = true) (filters : Option Truth) :
    Narrows andWheres filters := by
  have truths : ∀ fragment ∈ andWheres, fragment.truth = some true := fun fragment member =>
    Fragment.truth_of_isEmpty (empty fragment member)
  rw [Narrows, queryWheres, wheres_of_all_empty empty, List.nil_append, and_iff_right truths]
  cases filters with
  | none => simp [chain]
  | some truth => simp [chain, chainFrom]

theorem narrows_of_one_fragment {andWheres : List (Fragment Truth)}
    (one : (andWheres.filter fun fragment => !fragment.isEmpty).length ≤ 1) : Narrows andWheres none := by
  induction andWheres with
  | nil => exact narrows_of_no_fragment (by simp) none
  | cons fragment rest ih =>
      cases empty : fragment.isEmpty with
      | true =>
          rw [List.filter_cons_of_neg (by simp [empty])] at one
          have narrows := ih one
          rw [Narrows, queryWheres, List.flatMap_cons, Fragment.wheres_of_isEmpty empty, List.nil_append,
            List.forall_mem_cons, and_iff_right (Fragment.truth_of_isEmpty empty)]
          exact narrows
      | false =>
          rw [List.filter_cons_of_pos (by simp [empty]), List.length_cons] at one
          have others : ∀ fragment ∈ rest, fragment.isEmpty = true := by
            have none_ : (rest.filter fun fragment => !fragment.isEmpty) = [] :=
              List.eq_nil_of_length_eq_zero (by omega)
            simpa using none_
          have truths : ∀ fragment ∈ rest, fragment.truth = some true := fun fragment member =>
            Fragment.truth_of_isEmpty (others fragment member)
          rw [Narrows, queryWheres, List.flatMap_cons, wheres_of_all_empty others, List.append_nil,
            List.forall_mem_cons, and_iff_left truths]
          simp [fragment.chain_wheres]

/-! ## A text with an OR beside something else -/

/-- All parts of the fragment come to one truth value. -/
def Fragment.fill (truth : Truth) (fragment : Fragment Unit) : Fragment Truth := fragment.map fun _ => truth

theorem Fragment.shape_fill (truth : Truth) (fragment : Fragment Unit) :
    (fragment.fill truth).shape = fragment := by
  cases fragment with
  | brackets | object => rfl
  | string parts => simp [fill, shape, map, Function.comp_def]

theorem map_shape_fill (truth : Truth) (shapes : List (Fragment Unit)) :
    (shapes.map (Fragment.fill truth)).map Fragment.shape = shapes := by
  simp [Function.comp_def, Fragment.shape_fill]

theorem mem_wheres_fill {truth : Truth} {fragment : Fragment Unit} {condition : Connective × Truth}
    (member : condition ∈ (fragment.fill truth).wheres) : condition.2 = truth := by
  rw [Fragment.fill, Fragment.wheres_map] at member
  obtain ⟨part, -, rfl⟩ := List.mem_map.mp member
  rfl

theorem truth_fill_false {fragment : Fragment Unit} (some_ : fragment.isEmpty = false) :
    (fragment.fill (some false)).truth = some false := by
  rw [← Fragment.chain_wheres]
  refine chain_false ?_ fun condition member => mem_wheres_fill member
  cases fragment with
  | brackets | object => simp [Fragment.fill, Fragment.map, Fragment.wheres]
  | string parts =>
      cases parts with
      | nil => cases some_
      | cons first rest => simp [Fragment.fill, Fragment.map, Fragment.wheres]

/-- A text with an OR at its top, taken apart there. -/
theorem Fragment.exists_or {fragment : Fragment Unit} (alternative : fragment.isConjunctive = false) :
    ∃ front back : List (Connective × Unit), front ≠ [] ∧
      ∀ truth, (fragment.fill truth).wheres =
        (front.map fun part => (part.1, truth)) ++ (.or, truth) :: back.map fun part => (part.1, truth) := by
  cases fragment with
  | brackets | object => cases alternative
  | string parts =>
      cases parts with
      | nil => cases alternative
      | cons first rest =>
          obtain ⟨connective, own⟩ := first
          simp only [isConjunctive, List.all_eq_false] at alternative
          obtain ⟨⟨joint, part⟩, member, isOr⟩ := alternative
          obtain rfl : joint = .or := by
            cases joint with
            | and => exact absurd rfl isOr
            | or => rfl
          obtain ⟨front, back, rfl⟩ := List.append_of_mem member
          refine ⟨(.and, own) :: front, back, by simp, ?_⟩
          intro truth
          simp [fill, map, wheres]

theorem mem_flatMap_fill {truth : Truth} {shapes : List (Fragment Unit)} {condition : Connective × Truth}
    (member : condition ∈ (shapes.map (Fragment.fill truth)).flatMap Fragment.wheres) :
    condition.2 = truth := by
  obtain ⟨filled, inside, member⟩ := List.mem_flatMap.mp member
  obtain ⟨fragment, -, rfl⟩ := List.mem_map.mp inside
  exact mem_wheres_fill member

/-- What stands before the OR, or what stands after it, is enough for the whole clause. -/
theorem chain_queryWheres_or {fragment : Fragment Unit} (alternative : fragment.isConjunctive = false)
    (shapes others : List (Fragment Unit)) (left right : Truth) (filters : Option Truth)
    (enough : left = some true ∨ right = some true ∧ ∀ truth ∈ filters, truth = some true) :
    chain (queryWheres (shapes.map (Fragment.fill left) ++ fragment.fill (some true) ::
      others.map (Fragment.fill right)) filters) = some true := by
  obtain ⟨front, back, some_, split⟩ := fragment.exists_or alternative
  have parts : queryWheres (shapes.map (Fragment.fill left) ++ fragment.fill (some true) ::
      others.map (Fragment.fill right)) filters =
      ((shapes.map (Fragment.fill left)).flatMap Fragment.wheres ++
        front.map fun part => (part.1, some true)) ++ (.or, some true) ::
      ((back.map fun part => (part.1, some true)) ++
        ((others.map (Fragment.fill right)).flatMap Fragment.wheres ++
          (filters.map fun whole => (.and, whole)).toList)) := by
    rw [queryWheres, List.flatMap_append, List.flatMap_cons, split]
    simp
  rw [parts, chain_append_or (by simp [some_]), Truth.or_eq_true]
  rcases enough with rfl | ⟨rfl, filtered⟩
  · left
    refine chain_true fun condition member => ?_
    rcases List.mem_append.mp member with member | member
    · exact mem_flatMap_fill member
    · obtain ⟨part, -, rfl⟩ := List.mem_map.mp member
      rfl
  · right
    refine chain_true fun condition member => ?_
    rcases List.mem_cons.mp member with rfl | member
    · rfl
    rcases List.mem_append.mp member with member | member
    · obtain ⟨part, -, rfl⟩ := List.mem_map.mp member
      rfl
    rcases List.mem_append.mp member with member | member
    · exact mem_flatMap_fill member
    · cases filters with
      | none => cases member
      | some truth =>
          obtain rfl := List.mem_singleton.mp (by simpa using member)
          exact filtered truth rfl

/-- If the clause selects just what satisfies all of its parts, whatever these come to, then no text
has an OR at its top or nothing stands beside it. -/
theorem separate_of_narrows {shapes : List (Fragment Unit)} {filtered : Bool}
    (narrow : ∀ (andWheres : List (Fragment Truth)) (filters : Option Bool),
      andWheres.map Fragment.shape = shapes → filters.isSome = filtered →
      Narrows andWheres (filters.map some)) : Separate shapes filtered := by
  by_contra mixed
  simp only [Separate, not_or, not_forall, Bool.not_eq_true, not_le] at mixed
  obtain ⟨⟨fragment, member, alternative⟩, crowded⟩ := mixed
  obtain ⟨shapes, others, rfl⟩ := List.append_of_mem member
  have filters (truth : Bool) : (if filtered then some truth else none).isSome = filtered := by
    cases filtered <;> rfl
  have shaped (left right : Truth) :
      (shapes.map (Fragment.fill left) ++ fragment.fill (some true) ::
        others.map (Fragment.fill right)).map Fragment.shape = shapes ++ fragment :: others := by
    rw [List.map_append, List.map_cons, map_shape_fill, map_shape_fill, Fragment.shape_fill]
  -- a neighbour before the text is false, or all that follows it is
  by_cases before : ∃ other ∈ shapes, other.isEmpty = false
  · obtain ⟨other, inside, nonempty⟩ := before
    have selected := chain_queryWheres_or alternative shapes others (some false) (some true)
      ((if filtered then some true else none).map some) (.inr ⟨rfl, by cases filtered <;> simp⟩)
    have satisfied := ((narrow _ _ (shaped (some false) (some true)) (filters true)).mp selected).1
      (other.fill (some false)) (List.mem_append_left _ (List.mem_map_of_mem inside))
    rw [truth_fill_false nonempty] at satisfied
    cases satisfied
  · have selected := chain_queryWheres_or alternative shapes others (some true) (some false)
      ((if filtered then some false else none).map some) (.inl rfl)
    obtain ⟨satisfied, kept⟩ := (narrow _ _ (shaped (some true) (some false)) (filters false)).mp selected
    cases filtered with
    | true => cases kept (some false) rfl
    | false =>
        have silent : (shapes.filter fun fragment => !fragment.isEmpty) = [] := by
          simpa using before
        have after : ∃ other ∈ others, other.isEmpty = false := by
          by_contra nothing
          have silent' : (others.filter fun fragment => !fragment.isEmpty) = [] := by
            simpa using nothing
          rw [entries, List.filter_append, List.filter_cons, silent, silent'] at crowded
          split at crowded <;> simp at crowded
        obtain ⟨other, inside, nonempty⟩ := after
        have satisfied := satisfied (other.fill (some false))
          (List.mem_append_right _ (List.mem_cons_of_mem _ (List.mem_map_of_mem inside)))
        rw [truth_fill_false nonempty] at satisfied
        cases satisfied

theorem narrows_of_separate {andWheres : List (Fragment Truth)} {filters : Option Truth}
    (separate : Separate (andWheres.map Fragment.shape) filters.isSome) : Narrows andWheres filters := by
  rcases separate with conjunctive | few
  · refine narrows_of_conjunctive (fun fragment member => ?_) filters
    have shaped := conjunctive fragment.shape (List.mem_map_of_mem member)
    rwa [Fragment.shape, Fragment.isConjunctive_map] at shaped
  · have count : ((andWheres.map Fragment.shape).filter fun fragment => !fragment.isEmpty).length =
        (andWheres.filter fun fragment => !fragment.isEmpty).length := by
      rw [List.filter_map, List.length_map]
      simp only [Function.comp_def, Fragment.shape, Fragment.isEmpty_map]
    rw [entries, count] at few
    cases filters with
    | none => exact narrows_of_one_fragment (by simpa using few)
    | some truth =>
        refine narrows_of_no_fragment (fun fragment member => ?_) _
        have none_ : (andWheres.filter fun fragment => !fragment.isEmpty) = [] :=
          List.eq_nil_of_length_eq_zero (by simpa using few)
        simpa using List.filter_eq_nil_iff.mp none_ fragment member

/-! ## Queries -/

section Queries

variable {Cell Entity : Type} {db : Database Cell} {host : Host} {schema : Schema Entity}
  {scoping : Scoping Entity} {draws : Nat → Text}

theorem queryWheres_map {α β : Type} (f : α → β) (andWheres : List (Fragment α)) (filters : Option α) :
    (queryWheres andWheres filters).map (fun condition => (condition.1, f condition.2)) =
      queryWheres (andWheres.map (Fragment.map f)) (filters.map f) := by
  rw [queryWheres, queryWheres, List.map_append, List.map_flatMap, List.flatMap_map]
  congr 1
  · simp only [Fragment.wheres_map]
  · cases filters <;> rfl

/-- Every condition of every filter of the query holds in the row. -/
def FiltersHold (db : Database Cell) (host : Host) (schema : Schema Entity) (draws : Nat → Text)
    (target : Entity) (filters : List Filter) (row : Sql → Option Cell) : Prop :=
  ∀ built, applyFilters host schema (schema target) "e" draws filters 0 0 = .ok built →
    ∀ condition ∈ built.1, evalCondition db row condition.2 = some true

theorem selects_eq {target : Entity} {req : PagingReq} {args : BaseRepositoryArgs (Sql → Option Cell)}
    {paginate : Bool} {query : Query Entity (Sql → Option Cell)}
    (created : createBaseQueryBuilder db host schema scoping draws target req args paginate = .ok query)
    (row : Sql → Option Cell) :
    ∃ filters : Option Truth, filters.isSome = !req.filters.isEmpty ∧
      query.selects row = chain (queryWheres (args.andWheres.map (Fragment.map (· row))) filters) ∧
      ((∀ truth ∈ filters, truth = some true) ↔
        FiltersHold db host schema draws target req.filters row) := by
  rw [createBaseQueryBuilder] at created
  obtain ⟨joins, -, created⟩ := of_bind_ok created
  obtain ⟨filters, areFilters, created⟩ := of_bind_ok created
  obtain ⟨orders, -, created⟩ := of_bind_ok created
  cases created
  rw [queryFilters] at areFilters
  refine ⟨filters.map fun built => evalCondition db row (.brackets built.1), ?_, ?_, ?_⟩
  · split at areFilters
    case isTrue empty =>
        cases areFilters
        rw [empty]
        rfl
    case isFalse some_ =>
        obtain ⟨built, -, rfl⟩ := of_map_ok areFilters
        simp [some_]
  · refine congrArg chain ((queryWheres_map (fun condition => condition row) args.andWheres _).trans ?_)
    rw [Option.map_map]
    rfl
  · split at areFilters
    case isTrue empty =>
        cases areFilters
        have nil : req.filters = [] := by simpa using empty
        rw [FiltersHold, nil]
        simp [applyFilters]
    case isFalse some_ =>
        obtain ⟨⟨wheres, n⟩, isBuilt, rfl⟩ := of_map_ok areFilters
        rw [FiltersHold, isBuilt]
        simp [brackets_eq_true db row (applyFilters_ands isBuilt)]

end Queries

theorem Fragment.map_map {α β γ : Type} (f : α → β) (g : β → γ) (fragment : Fragment α) :
    (fragment.map f).map g = fragment.map fun part => g (f part) := by
  cases fragment with
  | brackets | object => rfl
  | string parts => simp [map]

theorem Fragment.map_id {α : Type} (fragment : Fragment α) : (fragment.map fun part => part) = fragment := by
  cases fragment with
  | brackets | object => rfl
  | string parts => simp [map]

theorem Fragment.shape_map {α β : Type} (f : α → β) (fragment : Fragment α) :
    (fragment.map f).shape = fragment.shape := by
  rw [shape, map_map]
  rfl

/-- A filter that holds in the row, does not, or is not there. -/
def probeFilters (filters : Option Bool) : PagingReq :=
  ⟨0, 0, [], if filters.isSome then [isCode "a"] else []⟩

def probeRow (filters : Option Bool) : Sql → Option Text :=
  fun _ => some (if filters = some true then "a".toList else "b".toList)

def unscoped : Scoping Unit := ⟨fun _ => [], fun _ => .ok none⟩

/-- Fragments that come to given truth values in every row, beside such a filter. -/
theorem probe_selects (andWheres : List (Fragment Truth)) (filters : Option Bool) :
    ∃ query, createBaseQueryBuilder textDatabase plainHost (fun _ => bareEntity) unscoped (fun _ => []) ()
        (probeFilters filters) ⟨[], false, andWheres.map (Fragment.map fun truth _ => truth)⟩ false =
          .ok query ∧
      query.selects (probeRow filters) = chain (queryWheres andWheres (filters.map some)) ∧
      (FiltersHold textDatabase plainHost (fun _ => bareEntity) (fun _ => []) () (probeFilters filters).filters
        (probeRow filters) ↔ ∀ truth ∈ filters.map some, truth = some true) := by
  have constant : (andWheres.map (Fragment.map fun truth (_ : Sql → Option Text) => truth)).map
      (Fragment.map (· (probeRow filters))) = andWheres := by
    rw [List.map_map]
    conv_rhs => rw [← List.map_id andWheres]
    refine List.map_congr_left fun fragment _ => ?_
    rw [Function.comp_apply, Fragment.map_map, Fragment.map_id]
    rfl
  cases filters with
  | none =>
      refine ⟨_, rfl, ?_, ?_⟩
      · refine congrArg chain ((queryWheres_map
          (fun condition : (Sql → Option Text) → Truth => condition (probeRow none)) _ _).trans ?_)
        rw [constant]
        rfl
      · refine iff_of_true ?_ (by simp)
        rintro built isBuilt condition member
        cases isBuilt
        cases member
  | some truth =>
      refine ⟨_, rfl, ?_, ?_⟩
      · refine congrArg chain ((queryWheres_map
          (fun condition : (Sql → Option Text) → Truth => condition (probeRow (some truth))) _ _).trans ?_)
        rw [constant]
        cases truth <;> rfl
      · cases truth with
        | true =>
            refine iff_of_true ?_ (by simp)
            rintro built isBuilt condition member
            cases isBuilt
            obtain rfl := List.mem_singleton.mp member
            rfl
        | false =>
            refine iff_of_false ?_ (by simp)
            intro hold
            cases hold _ rfl _ List.mem_cons_self

/-- A text with an OR, and the scope of the request. -/
def leakyArgs : BaseRepositoryArgs (Sql → Option Text) where
  relations := []
  withDeleted := false
  andWheres := [.string [(.and, fun _ => some true), (.or, fun _ => some false)]]

end SdcoreNest.Orm
