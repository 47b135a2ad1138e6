/-
# Theory.LeftJoin -- rows of a table, joined with rows of other tables

A left join puts beside each row the rows of another table that its condition accepts, or nothing
if there is none.  What a query selects depends on no row that its conditions turn away: neither
on a joined row that no condition of a join accepts, nor on a root row that the condition on the
whole accepts with nothing beside it.

* `leftJoins_congr` -- tables that agree on what the joins accept are joined alike;
* `selected_congr` -- and the same is selected from them.
-/
import Mathlib.Data.List.Basic

namespace SdcoreNest.Theory

set_option autoImplicit false

variable {J R : Type}

/-- A root row and what the joins put beside it, newest first; nothing was found for `none`. -/
structure Joined (J R : Type) where
  root : R
  rows : List (J × Option R)

namespace Joined

def start (root : R) : Joined J R := ⟨root, []⟩

def bind (joined : Joined J R) (join : J) (row : Option R) : Joined J R :=
  ⟨joined.root, (join, row) :: joined.rows⟩

/-- The rows that were found. -/
def found (joined : Joined J R) : List (J × R) :=
  joined.rows.filterMap fun bound => bound.2.map fun row => (bound.1, row)

theorem mem_found {joined : Joined J R} {join : J} {row : R} :
    (join, row) ∈ joined.found ↔ (join, some row) ∈ joined.rows := by
  unfold found
  rw [List.mem_filterMap]
  constructor
  · rintro ⟨⟨other, bound⟩, inside, same⟩
    obtain ⟨_, rfl, same⟩ := Option.map_eq_some_iff.mp same
    cases same
    exact inside
  · exact fun inside => ⟨_, inside, rfl⟩

end Joined

section

variable (tables : J → List R) (on : Joined J R → J → R → Bool)

def leftJoin (join : J) (joined : Joined J R) : List (Joined J R) :=
  match (tables join).filter (on joined join) with
  | [] => [joined.bind join none]
  | rows => rows.map fun row => joined.bind join (some row)

/-- One join after the other. -/
def leftJoins : List J → Joined J R → List (Joined J R)
  | [], joined => [joined]
  | join :: rest, joined => (leftJoin tables on join joined).flatMap (leftJoins rest)

/-- The joined rows that satisfy a condition. -/
def selected (roots : List R) (joins : List J) (accepts : Joined J R → Bool) : List (Joined J R) :=
  roots.flatMap fun root => (leftJoins tables on joins (.start root)).filter accepts

end

variable {tables tables' : J → List R} {on : Joined J R → J → R → Bool}

theorem mem_leftJoin {join : J} {joined result : Joined J R}
    (member : result ∈ leftJoin tables on join joined) :
    ∃ row, result = joined.bind join row ∧ ∀ found, row = some found → on joined join found = true := by
  unfold leftJoin at member
  split at member
  · obtain rfl := List.mem_singleton.mp member
    exact ⟨none, rfl, nofun⟩
  · obtain ⟨row, inside, rfl⟩ := List.mem_map.mp member
    refine ⟨some row, rfl, ?_⟩
    rintro found ⟨⟩
    exact (List.mem_filter.mp inside).2

/-- What holds of the rows that every join accepts holds of all that is found. -/
theorem mem_leftJoins {good : J → R → Prop} {joins : List J} {joined result : Joined J R}
    (accepted : ∀ joined, ∀ join ∈ joins, ∀ row, on joined join row = true → good join row)
    (before : ∀ join row, (join, some row) ∈ joined.rows → good join row)
    (member : result ∈ leftJoins tables on joins joined) :
    result.root = joined.root ∧ ∀ join row, (join, some row) ∈ result.rows → good join row := by
  induction joins generalizing joined with
  | nil =>
      obtain rfl := List.mem_singleton.mp member
      exact ⟨rfl, before⟩
  | cons join rest ih =>
      obtain ⟨between, first, member⟩ := List.mem_flatMap.mp member
      obtain ⟨row, rfl, meets⟩ := mem_leftJoin first
      refine @ih (joined.bind join row) (fun joined other inside => accepted joined other (.tail _ inside))
        ?_ member
      intro other found inside
      rcases List.mem_cons.mp inside with same | inside
      · cases same
        exact accepted joined join List.mem_cons_self found (meets found rfl)
      · exact before other found inside

section

variable {seen : J → R → Bool}

theorem leftJoin_congr {join : J} {joined : Joined J R}
    (accepted : ∀ row, on joined join row = true → seen join row = true)
    (same : (tables join).filter (seen join) = (tables' join).filter (seen join)) :
    leftJoin tables on join joined = leftJoin tables' on join joined := by
  have narrowed (rows : List R) :
      rows.filter (on joined join) = (rows.filter (seen join)).filter (on joined join) := by
    rw [List.filter_filter]
    refine List.filter_congr fun row _ => ?_
    cases meets : on joined join row with
    | false => rfl
    | true => rw [accepted row meets, Bool.and_true]
  unfold leftJoin
  rw [narrowed (tables join), narrowed (tables' join), same]

/-- Tables that agree on what the joins accept. -/
theorem leftJoins_congr {joins : List J}
    (accepted : ∀ joined, ∀ join ∈ joins, ∀ row, on joined join row = true → seen join row = true)
    (same : ∀ join ∈ joins, (tables join).filter (seen join) = (tables' join).filter (seen join))
    (joined : Joined J R) : leftJoins tables on joins joined = leftJoins tables' on joins joined := by
  induction joins generalizing joined with
  | nil => rfl
  | cons join rest ih =>
      rw [leftJoins, leftJoins,
        leftJoin_congr (accepted joined join List.mem_cons_self) (same join List.mem_cons_self)]
      refine List.flatMap_congr fun between _ => ?_
      exact ih (fun joined other inside => accepted joined other (.tail _ inside))
        (fun other inside => same other (.tail _ inside)) between

/-- Only rows with something to show count. -/
theorem flatMap_filter {α β : Type} {shown : α → Bool} {f : α → List β} (rows : List α)
    (hidden : ∀ row, shown row = false → f row = []) :
    rows.flatMap f = (rows.filter shown).flatMap f := by
  induction rows with
  | nil => rfl
  | cons row rest ih =>
      cases show_ : shown row with
      | true => rw [List.filter_cons_of_pos show_, List.flatMap_cons, List.flatMap_cons, ih]
      | false =>
          rw [List.filter_cons_of_neg (by simp [show_]), List.flatMap_cons, hidden row show_, ih]
          rfl

/-- The same is selected from tables and roots that agree on what the conditions accept. -/
theorem selected_congr {joins : List J} {accepts : Joined J R → Bool} {roots roots' : List R}
    {shown : R → Bool}
    (accepted : ∀ joined, ∀ join ∈ joins, ∀ row, on joined join row = true → seen join row = true)
    (same : ∀ join ∈ joins, (tables join).filter (seen join) = (tables' join).filter (seen join))
    (shows : ∀ joined, accepts joined = true → shown joined.root = true)
    (sameRoots : roots.filter shown = roots'.filter shown) :
    selected tables on roots joins accepts = selected tables' on roots' joins accepts := by
  have hidden (tables : J → List R) (root : R) (outside : shown root = false) :
      (leftJoins tables on joins (.start root)).filter accepts = [] := by
    refine List.filter_eq_nil_iff.mpr fun joined member meets => ?_
    have isRoot := (@mem_leftJoins J R tables on (fun _ _ => True) joins (.start root) joined
      (fun _ _ _ _ _ => trivial) (fun _ _ _ => trivial) member).1
    have inside := shows joined meets
    rw [isRoot] at inside
    exact absurd inside (by simp [Joined.start, outside])
  unfold selected
  rw [flatMap_filter roots (hidden tables), flatMap_filter roots' (hidden tables'), sameRoots]
  refine List.flatMap_congr fun root _ => ?_
  rw [leftJoins_congr accepted same]

end

end SdcoreNest.Theory
