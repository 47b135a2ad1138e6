/-
# Theory.Keyed -- a table of rows with a primary key

`Keyed K V key` is a list of rows in which no two rows share a key; the
distinctness is a field, so a table with a duplicate key cannot be built.  The
operations are those of SQL on one table: select, count, update where, and an
upsert by key (`save`).
-/
import Mathlib.Data.List.Nodup
import Mathlib.Data.List.Perm.Subperm

namespace SdcoreNest.Theory

set_option autoImplicit false

/-- What `new Set(items)` keeps stands there once. -/
theorem nodup_eraseDups {α : Type} [DecidableEq α] : (items : List α) → items.eraseDups.Nodup
  | [] => by simp
  | item :: rest => by
      rw [List.eraseDups_cons, List.nodup_cons]
      refine ⟨fun inside => ?_, nodup_eraseDups _⟩
      have kept := List.mem_filter.mp (List.mem_eraseDups.mp inside)
      simp at kept
termination_by items => items.length
decreasing_by exact Nat.lt_succ_of_le (List.length_filter_le _ _)

theorem eraseDups_of_nodup {α : Type} [DecidableEq α] {items : List α} (nodup : items.Nodup) :
    items.eraseDups = items := by
  induction items with
  | nil => rfl
  | cons item rest ih =>
      obtain ⟨outside, nodup⟩ := List.nodup_cons.mp nodup
      have others : rest.filter (fun other => !other == item) = rest :=
        List.filter_eq_self.mpr fun other inside => by
          simp only [Bool.not_eq_eq_eq_not, Bool.not_true, beq_eq_false_iff_ne]
          rintro rfl
          exact outside inside
      rw [List.eraseDups_cons, others, ih nodup]

structure Keyed (K V : Type) (key : V → K) where
  rows : List V
  distinct : (rows.map key).Nodup

namespace Keyed

variable {K V : Type} {key : V → K}

instance : Membership V (Keyed K V key) where
  mem table row := row ∈ table.rows

theorem mem_rows {table : Keyed K V key} {row : V} : row ∈ table.rows ↔ row ∈ table := Iff.rfl

def empty : Keyed K V key := ⟨[], List.nodup_nil⟩

@[simp] theorem not_mem_empty (row : V) : row ∉ (empty : Keyed K V key) := List.not_mem_nil

/-- The key names at most one row. -/
theorem eq_of_key {table : Keyed K V key} {x y : V} (hx : x ∈ table) (hy : y ∈ table)
    (same : key x = key y) : x = y :=
  List.inj_on_of_nodup_map table.distinct hx hy same

/-- Change the rows that satisfy `chosen`, never their key. -/
def update (table : Keyed K V key) (chosen : V → Bool) (patch : V → V)
    (keeps : ∀ row, key (patch row) = key row) : Keyed K V key where
  rows := table.rows.map fun row => if chosen row then patch row else row
  distinct := by
    have same : (key ∘ fun row => if chosen row then patch row else row) = key := by
      funext row
      simp only [Function.comp_apply]
      split <;> simp [keeps]
    rw [List.map_map, same]
    exact table.distinct

theorem mem_update {table : Keyed K V key} {chosen : V → Bool} {patch : V → V}
    (keeps : ∀ row, key (patch row) = key row) {row : V} :
    row ∈ table.update chosen patch keeps ↔
      ∃ old ∈ table, row = if chosen old then patch old else old := by
  constructor
  · intro member
    obtain ⟨old, there, rfl⟩ := List.mem_map.mp member
    exact ⟨old, there, rfl⟩
  · rintro ⟨old, member, rfl⟩
    exact List.mem_map.mpr ⟨old, member, rfl⟩

/-- The rows an update would affect. -/
def select (table : Keyed K V key) (chosen : V → Bool) : List V := table.rows.filter chosen

@[simp] theorem mem_select {table : Keyed K V key} {chosen : V → Bool} {row : V} :
    row ∈ table.select chosen ↔ row ∈ table ∧ chosen row = true := List.mem_filter

def count (table : Keyed K V key) (chosen : V → Bool) : Nat := (table.select chosen).length

theorem select_distinct (table : Keyed K V key) (chosen : V → Bool) :
    ((table.select chosen).map key).Nodup :=
  table.distinct.sublist (List.filter_sublist.map key)

/-- The keys of the chosen rows tell the chosen rows. -/
theorem key_mem_select {table : Keyed K V key} {chosen : V → Bool} {row : V} (member : row ∈ table) :
    key row ∈ (table.select chosen).map key ↔ chosen row = true := by
  constructor
  · intro inside
    obtain ⟨other, selected, same⟩ := List.mem_map.mp inside
    obtain ⟨there, accepted⟩ := mem_select.mp selected
    rwa [← eq_of_key there member same]
  · exact fun accepted => List.mem_map.mpr ⟨row, mem_select.mpr ⟨member, accepted⟩, rfl⟩

/-- Drop the rows that satisfy `chosen`. -/
def discard (table : Keyed K V key) (chosen : V → Bool) : Keyed K V key where
  rows := table.rows.filter fun row => !chosen row
  distinct := table.distinct.sublist (List.filter_sublist.map key)

theorem mem_discard {table : Keyed K V key} {chosen : V → Bool} {row : V} :
    row ∈ table.discard chosen ↔ row ∈ table ∧ chosen row = false := by
  refine List.mem_filter.trans (and_congr_right fun _ => ?_)
  simp

/-- The same rows under a finer key. -/
def rekey {K' : Type} {key' : V → K'} (table : Keyed K V key) (coarse : K' → K)
    (same : ∀ row, key row = coarse (key' row)) : Keyed K' V key' where
  rows := table.rows
  distinct := by
    have mapped : table.rows.map key = (table.rows.map key').map coarse := by
      rw [List.map_map]
      exact List.map_congr_left fun row _ => same row
    exact List.Nodup.of_map coarse (mapped ▸ table.distinct)

/-- Criteria that agree on the rows of the table choose alike. -/
theorem select_congr {table : Keyed K V key} {chosen chosen' : V → Bool}
    (agree : ∀ row ∈ table, chosen row = chosen' row) :
    table.select chosen = table.select chosen' := List.filter_congr agree

theorem update_rows_congr {table : Keyed K V key} {chosen chosen' : V → Bool} {patch : V → V}
    (keeps : ∀ row, key (patch row) = key row) (agree : ∀ row ∈ table, chosen row = chosen' row) :
    (table.update chosen patch keeps).rows =
      table.rows.map fun row => if chosen' row then patch row else row :=
  List.map_congr_left fun row member => by simp only [agree row member]

/-- As many rows with distinct keys as there are keys they may have: every key has its row. -/
theorem exists_of_counted {rows : List V} (distinct : (rows.map key).Nodup) {keys : List K}
    (inside : ∀ row ∈ rows, key row ∈ keys) (counted : rows.length = keys.length) {k : K}
    (member : k ∈ keys) : ∃ row ∈ rows, key row = k := by
  have subset : rows.map key ⊆ keys := by
    intro k' member'
    obtain ⟨row, there, rfl⟩ := List.mem_map.mp member'
    exact inside row there
  have subperm := List.subperm_of_subset distinct subset
  have perm := subperm.perm_of_length_le (by rw [List.length_map]; exact Nat.le_of_eq counted.symm)
  exact List.mem_map.mp (perm.mem_iff.mpr member)

/-- If as many rows are chosen as there are keys they may have, every key has its row. -/
theorem chosen_of_count {table : Keyed K V key} {chosen : V → Bool} {keys : List K}
    (inside : ∀ row ∈ table, chosen row = true → key row ∈ keys)
    (counted : table.count chosen = keys.length) {k : K} (member : k ∈ keys) :
    ∃ row ∈ table, chosen row = true ∧ key row = k := by
  obtain ⟨row, selected, same⟩ := exists_of_counted (table.select_distinct chosen)
    (fun row selected => inside row (mem_select.mp selected).1 (mem_select.mp selected).2)
    counted member
  obtain ⟨there, chosen⟩ := mem_select.mp selected
  exact ⟨row, there, chosen, same⟩

/-- No more rows than keys they may have, one for each key, and as many: no key stands twice. -/
theorem nodup_of_counted {rows : List V} (distinct : (rows.map key).Nodup) {keys : List K}
    (inside : ∀ row ∈ rows, key row ∈ keys) (counted : rows.length = keys.length) :
    keys.Nodup := by
  have subset : rows.map key ⊆ keys := by
    intro k member
    obtain ⟨row, there, rfl⟩ := List.mem_map.mp member
    exact inside row there
  have subperm := List.subperm_of_subset distinct subset
  have perm := subperm.perm_of_length_le (by rw [List.length_map]; exact Nat.le_of_eq counted.symm)
  exact perm.nodup_iff.mp distinct

/-! ## Seen through a predicate -/

section View

variable {seen : V → Bool}

/-- A reader who sees some rows only sees an update of rows as an update of those. -/
theorem select_update {table : Keyed K V key} {chosen : V → Bool} {patch : V → V}
    (keeps : ∀ row, key (patch row) = key row) (closed : ∀ row, seen (patch row) = seen row) :
    (table.update chosen patch keeps).select seen =
      (table.select seen).map fun row => if chosen row then patch row else row := by
  have same : (seen ∘ fun row => if chosen row then patch row else row) = seen := by
    funext row
    simp only [Function.comp_apply]
    split
    · exact closed row
    · rfl
  unfold select update
  rw [List.filter_map, same]

/-- An update of rows that are not seen is not seen. -/
theorem select_update_unseen {table : Keyed K V key} {chosen : V → Bool} {patch : V → V}
    (keeps : ∀ row, key (patch row) = key row) (closed : ∀ row, seen (patch row) = seen row)
    (hidden : ∀ row, chosen row = true → seen row = false) :
    (table.update chosen patch keeps).select seen = table.select seen := by
  rw [select_update keeps closed]
  refine (List.map_congr_left fun row selected => if_neg fun chosen => ?_).trans (List.map_id _)
  have isSeen := (mem_select.mp selected).2
  rw [hidden row chosen] at isSeen
  cases isSeen

/-- Criteria that choose seen rows only count what is seen. -/
theorem count_of_seen {table : Keyed K V key} {chosen : V → Bool}
    (inside : ∀ row, chosen row = true → seen row = true) :
    table.count chosen = ((table.select seen).filter chosen).length := by
  unfold count select
  rw [List.filter_filter]
  refine congrArg List.length (List.filter_congr fun row _ => ?_)
  cases isChosen : chosen row with
  | true => simp [inside row isChosen]
  | false => simp

end View

/-! ## Keys that can be told apart -/

variable [DecidableEq K]

/-- A batch of keys is found as a whole exactly when no key stands twice and each has a row. -/
theorem count_eq_length_iff {table : Keyed K V key} {accepted : V → Bool} {keys : List K} :
    table.count (fun row => accepted row && decide (key row ∈ keys)) = keys.length ↔
      keys.Nodup ∧ ∀ k ∈ keys, ∃ row ∈ table, accepted row = true ∧ key row = k := by
  have inside : ∀ row ∈ table.select (fun row => accepted row && decide (key row ∈ keys)),
      row ∈ table ∧ accepted row = true ∧ key row ∈ keys := by
    intro row selected
    obtain ⟨there, both⟩ := mem_select.mp selected
    simp only [Bool.and_eq_true, decide_eq_true_eq] at both
    exact ⟨there, both⟩
  have distinct := table.select_distinct fun row => accepted row && decide (key row ∈ keys)
  constructor
  · intro counted
    have within := fun row selected => (inside row selected).2.2
    refine ⟨nodup_of_counted distinct within counted, fun k member => ?_⟩
    obtain ⟨row, selected, same⟩ := exists_of_counted distinct within counted member
    exact ⟨row, (inside row selected).1, (inside row selected).2.1, same⟩
  · rintro ⟨nodup, found⟩
    have subset : keys ⊆ (table.select fun row => accepted row && decide (key row ∈ keys)).map key := by
      intro k member
      obtain ⟨row, there, taken, rfl⟩ := found k member
      exact List.mem_map.mpr ⟨row, mem_select.mpr ⟨there, by simp [taken, member]⟩, rfl⟩
    have atLeast := (List.subperm_of_subset nodup subset).length_le
    have atMost := (List.subperm_of_subset distinct (fun k member => by
      obtain ⟨row, selected, rfl⟩ := List.mem_map.mp member
      exact (inside row selected).2.2 : _ ⊆ keys)).length_le
    rw [List.length_map] at atLeast atMost
    exact Nat.le_antisymm atMost atLeast

/-- The row with a key. -/
def get? (table : Keyed K V key) (k : K) : Option V := table.rows.find? fun row => key row = k

theorem get?_eq_some {table : Keyed K V key} {k : K} {row : V} :
    table.get? k = some row ↔ row ∈ table ∧ key row = k := by
  constructor
  · intro found
    exact ⟨List.mem_of_find?_eq_some found, by simpa using List.find?_some found⟩
  · rintro ⟨member, rfl⟩
    cases found : table.get? (key row) with
    | none => exact absurd (List.find?_eq_none.mp found row member) (by simp)
    | some other =>
        have keyed := List.find?_some found
        rw [eq_of_key (List.mem_of_find?_eq_some found) member (by simpa using keyed)]

/-- Store a row under its key: replace the row that has the key, else add it. -/
def save (table : Keyed K V key) (row : V) : Keyed K V key :=
  if absent : ∀ other ∈ table.rows, key other ≠ key row then
    { rows := table.rows ++ [row]
      distinct := by
        rw [List.map_append, List.map_singleton]
        refine List.nodup_append.mpr ⟨table.distinct, List.nodup_singleton _, ?_⟩
        intro k member k' member'
        obtain ⟨other, there, rfl⟩ := List.mem_map.mp member
        rw [List.mem_singleton] at member'
        exact member' ▸ absent other there }
  else
    { rows := table.rows.map fun other => if key other = key row then row else other
      distinct := by
        have same : (key ∘ fun other => if key other = key row then row else other) = key := by
          funext other
          simp only [Function.comp_apply]
          split <;> simp_all
        rw [List.map_map, same]
        exact table.distinct }

theorem mem_save {table : Keyed K V key} {row other : V} :
    other ∈ table.save row ↔ other = row ∨ (other ∈ table ∧ key other ≠ key row) := by
  unfold save
  split
  · rename_i absent
    constructor
    · intro member
      rcases List.mem_append.mp member with there | here
      · exact .inr ⟨there, absent other there⟩
      · exact .inl (List.mem_singleton.mp here)
    · rintro (rfl | ⟨there, -⟩)
      · exact List.mem_append_right _ (List.mem_singleton_self _)
      · exact List.mem_append_left _ there
  · rename_i present
    simp only [not_forall, not_not] at present
    obtain ⟨old, there, same⟩ := present
    constructor
    · intro member
      obtain ⟨old', there', rfl⟩ := List.mem_map.mp member
      split
      · exact .inl rfl
      · rename_i different
        exact .inr ⟨there', different⟩
    · rintro (rfl | ⟨there', different⟩)
      · exact List.mem_map.mpr ⟨old, there, by simp [same]⟩
      · exact List.mem_map.mpr ⟨other, there', by simp [different]⟩

/-! ### A row stored, seen through a predicate -/

section View

variable {seen : V → Bool}

/-- A row stored under a free key, or under that of a seen row. -/
theorem select_save {table : Keyed K V key} {row : V} (isSeen : seen row = true)
    (own : ∀ other ∈ table, key other = key row → seen other = true) :
    (table.save row).select seen =
      if ∀ other ∈ table.select seen, key other ≠ key row then table.select seen ++ [row]
      else (table.select seen).map fun other => if key other = key row then row else other := by
  have found : (∀ other ∈ table.rows, key other ≠ key row) ↔
      ∀ other ∈ table.select seen, key other ≠ key row :=
    ⟨fun absent other selected => absent other (mem_select.mp selected).1,
      fun absent other member same => absent other (mem_select.mpr ⟨member, own other member same⟩) same⟩
  unfold save
  by_cases absent : ∀ other ∈ table.rows, key other ≠ key row
  · rw [dif_pos absent, if_pos (found.mp absent)]
    show (table.rows ++ [row]).filter seen = _
    rw [List.filter_append, List.filter_cons_of_pos isSeen]
    rfl
  · rw [dif_neg absent, if_neg fun none => absent (found.mpr none)]
    show (table.rows.map _).filter seen = _
    rw [List.filter_map]
    refine congrArg (List.map _) (List.filter_congr fun other member => ?_)
    simp only [Function.comp_apply]
    split
    next same => rw [isSeen, own other member same]
    next => rfl

theorem select_save_unseen {table : Keyed K V key} {row : V} (unseen : seen row = false)
    (others : ∀ other ∈ table, key other = key row → seen other = false) :
    (table.save row).select seen = table.select seen := by
  unfold save
  split
  · show (table.rows ++ [row]).filter seen = _
    rw [List.filter_append, List.filter_cons_of_neg (by simp [unseen]), List.filter_nil, List.append_nil]
    rfl
  · show (table.rows.map _).filter seen = _
    rw [List.filter_map]
    have same : table.rows.filter (seen ∘ fun other => if key other = key row then row else other) =
        table.rows.filter seen := by
      refine List.filter_congr fun other member => ?_
      simp only [Function.comp_apply]
      split
      next same => rw [unseen, others other member same]
      next => rfl
    rw [same]
    refine (List.map_congr_left fun other selected => if_neg fun same => ?_).trans (List.map_id _)
    obtain ⟨member, isSeen⟩ := List.mem_filter.mp selected
    rw [others other member same] at isSeen
    cases isSeen

end View

end Keyed

end SdcoreNest.Theory
