/-
# Theory.Backlog -- bounded batches work off a backlog

Each batch takes as many of the waiting items as fit; what was taken no longer waits and
everything else still does.  Then so many batches as the backlog has of full ones, rounded
up, take every item that waited at first.  Where items may stay in the queue after they were
taken, `reached` counts how far the batches come.
-/
import Mathlib.Data.Finset.Card
import Mathlib.Data.Finset.Dedup
import Mathlib.Data.List.Sort

namespace SdcoreNest.Theory

set_option autoImplicit false

/-- A row of batches of at most `limit` items. -/
structure Batches {κ : Type} [DecidableEq κ] (limit : Nat) (waiting taken : Nat → Finset κ) : Prop where
  within : ∀ i, taken i ⊆ waiting i
  full : ∀ i, (taken i).card = min limit (waiting i).card
  leaves : ∀ i, waiting (i + 1) = waiting i \ taken i

namespace Batches

variable {κ : Type} [DecidableEq κ] {limit : Nat} {waiting taken : Nat → Finset κ}

theorem card (batches : Batches limit waiting taken) (i : Nat) :
    (waiting i).card = (waiting 0).card - i * limit := by
  induction i with
  | zero => simp
  | succ i ih =>
      rw [batches.leaves, Finset.card_sdiff_of_subset (batches.within i), batches.full, ih,
        Nat.succ_mul]
      omega

theorem waits_or_taken (batches : Batches limit waiting taken) {item : κ} (first : item ∈ waiting 0)
    (i : Nat) : item ∈ waiting i ∨ ∃ j < i, item ∈ taken j := by
  induction i with
  | zero => exact .inl first
  | succ i ih =>
      rcases ih with waits | ⟨j, earlier, took⟩
      · by_cases took : item ∈ taken i
        · exact .inr ⟨i, Nat.lt_succ_self i, took⟩
        · rw [batches.leaves]
          exact .inl (Finset.mem_sdiff.mpr ⟨waits, took⟩)
      · exact .inr ⟨j, Nat.lt_succ_of_lt earlier, took⟩

/-- Enough batches take everything. -/
theorem reaches (batches : Batches limit waiting taken) {count : Nat}
    (enough : (waiting 0).card ≤ count * limit) {item : κ} (first : item ∈ waiting 0) :
    ∃ i < count, item ∈ taken i := by
  have none : waiting count = ∅ := by
    rw [← Finset.card_eq_zero, batches.card]
    omega
  rcases batches.waits_or_taken first count with waits | took
  · rw [none] at waits
    exact absurd waits (Finset.notMem_empty item)
  · exact took

end Batches

/-- So many batches are enough. -/
theorem le_batches_mul {items limit : Nat} (positive : 0 < limit) :
    items ≤ (items + limit - 1) / limit * limit := by
  have division := Nat.div_add_mod (items + limit - 1) limit
  have bound := Nat.mod_lt (items + limit - 1) positive
  rw [Nat.mul_comm] at division
  omega

section Lists

variable {V K : Type} [DecidableEq K] {key : V → K} {limit : Nat} {due rows : Nat → List V}

/-- Rows that wait in a list, and batches of them. -/
theorem batches_of_lists (distinct : ((due 0).map key).Nodup) (within : ∀ i, ∀ row ∈ rows i, row ∈ due i)
    (unique : ∀ i, ((rows i).map key).Nodup) (full : ∀ i, (rows i).length = min limit (due i).length)
    (leaves : ∀ i, due (i + 1) = (due i).filter fun row => decide (key row ∉ (rows i).map key)) :
    Batches limit (fun i => ((due i).map key).toFinset) (fun i => ((rows i).map key).toFinset) ∧
      ∀ i, (due i).Sublist (due 0) := by
  have earlier : ∀ i, (due i).Sublist (due 0) := by
    intro i
    induction i with
    | zero => exact List.Sublist.refl _
    | succ i ih =>
        rw [leaves]
        exact List.filter_sublist.trans ih
  refine ⟨⟨?_, ?_, ?_⟩, earlier⟩
  · intro i k inside
    obtain ⟨row, taken, rfl⟩ := List.mem_map.mp (List.mem_toFinset.mp inside)
    exact List.mem_toFinset.mpr (List.mem_map_of_mem (within i row taken))
  · intro i
    rw [List.toFinset_card_of_nodup (unique i), List.length_map, full, List.toFinset_card_of_nodup
      (distinct.sublist ((earlier i).map key)), List.length_map]
  · intro i
    ext k
    simp only [leaves, List.mem_toFinset, Finset.mem_sdiff, List.mem_map, List.mem_filter,
      decide_eq_true_eq]
    constructor
    · rintro ⟨row, ⟨waits, left⟩, rfl⟩
      exact ⟨⟨row, waits, rfl⟩, left⟩
    · rintro ⟨⟨row, waits, rfl⟩, left⟩
      exact ⟨row, ⟨waits, left⟩, rfl⟩

/-- Enough batches take every row that waited at first. -/
theorem rows_reached (positive : 0 < limit) (distinct : ((due 0).map key).Nodup)
    (within : ∀ i, ∀ row ∈ rows i, row ∈ due i) (unique : ∀ i, ((rows i).map key).Nodup)
    (full : ∀ i, (rows i).length = min limit (due i).length)
    (leaves : ∀ i, due (i + 1) = (due i).filter fun row => decide (key row ∉ (rows i).map key))
    {row : V} (first : row ∈ due 0) :
    ∃ i < ((due 0).length + limit - 1) / limit, row ∈ rows i := by
  obtain ⟨batches, earlier⟩ := batches_of_lists distinct within unique full leaves
  have enough : ((due 0).map key).toFinset.card ≤
      ((due 0).length + limit - 1) / limit * limit := by
    rw [List.toFinset_card_of_nodup distinct, List.length_map]
    exact le_batches_mul positive
  obtain ⟨i, soon, taken⟩ := batches.reaches enough
    (List.mem_toFinset.mpr (List.mem_map_of_mem first))
  obtain ⟨other, inside, same⟩ := List.mem_map.mp (List.mem_toFinset.mp taken)
  have there := (earlier i).subset (within i other inside)
  rw [List.inj_on_of_nodup_map distinct there first same] at inside
  exact ⟨i, soon, inside⟩

end Lists

/-! ## Sorting and leaving out -/

section Sorting

variable {V : Type} (r : V → V → Prop) [DecidableRel r]

theorem orderedInsert_first {a : V} : ∀ {list : List V}, (∀ b ∈ list, r a b) →
    list.orderedInsert r a = a :: list
  | [], _ => rfl
  | b :: rest, before => by rw [List.orderedInsert, if_pos (before b List.mem_cons_self)]

variable [IsTrans V r] (kept : V → Bool)

theorem filter_orderedInsert (a : V) {list : List V} (sorted : list.Pairwise r) :
    (list.orderedInsert r a).filter kept =
      if kept a then (list.filter kept).orderedInsert r a else list.filter kept := by
  induction list with
  | nil => simp [List.filter_cons]
  | cons b rest ih =>
      obtain ⟨first, sorted⟩ := List.pairwise_cons.mp sorted
      rw [List.orderedInsert]
      split
      next before =>
        have all : ∀ c ∈ (b :: rest).filter kept, r a c := by
          intro c inside
          rcases List.mem_cons.mp (List.mem_filter.mp inside).1 with rfl | later
          · exact before
          · exact IsTrans.trans _ _ _ before (first c later)
        rw [List.filter_cons, orderedInsert_first r all]
      next after =>
        rw [List.filter_cons, ih sorted, List.filter_cons]
        by_cases stays : kept b = true
        · rw [if_pos stays, if_pos stays, List.orderedInsert, if_neg after]
          split <;> rfl
        · rw [if_neg stays, if_neg stays]

/-- Sorting keeps the order of equals, so leaving items out commutes with it. -/
theorem filter_insertionSort [Std.Total r] (list : List V) :
    (list.insertionSort r).filter kept = (list.filter kept).insertionSort r := by
  induction list with
  | nil => rfl
  | cons a rest ih =>
      rw [List.insertionSort_cons, filter_orderedInsert r kept a (List.pairwise_insertionSort r rest), ih,
        List.filter_cons]
      split
      · rw [List.insertionSort_cons]
      · rfl

end Sorting

/-! ## A queue in which items get stuck -/

section Stuck

variable {V : Type} (limit : Nat) (stuck : V → Bool) (queue : List V)

/-- One batch: what is not stuck leaves the queue. -/
def workOff : List V := (queue.take limit).filter stuck ++ queue.drop limit

/-- How many items the first batches come to: each has room for what is not stuck yet. -/
def reached : Nat → Nat
  | 0 => 0
  | i + 1 => reached i + (limit - (queue.take (reached i)).countP stuck)

/-- The items of the next batch. -/
theorem take_stuck (before : Nat) :
    ((queue.take before).filter stuck ++ queue.drop before).take limit =
      ((queue.take before).filter stuck).take limit ++
        (queue.drop before).take (limit - (queue.take before).countP stuck) := by
  rw [List.take_append, List.countP_eq_length_filter]

theorem workOff_stuck (before : Nat) :
    workOff limit stuck ((queue.take before).filter stuck ++ queue.drop before) =
      (queue.take (before + (limit - (queue.take before).countP stuck))).filter stuck ++
        queue.drop (before + (limit - (queue.take before).countP stuck)) := by
  have all : ((((queue.take before).filter stuck).take limit).filter stuck) =
      ((queue.take before).filter stuck).take limit :=
    List.filter_eq_self.mpr fun item inside => (List.mem_filter.mp (List.mem_of_mem_take inside)).2
  rw [workOff, take_stuck, List.filter_append, all, List.drop_append, List.take_add,
    List.filter_append, ← List.drop_drop, List.countP_eq_length_filter]
  rcases Nat.le_total limit ((queue.take before).filter stuck).length with full | room
  · rw [Nat.sub_eq_zero_of_le full, List.take_zero, List.filter_nil, List.append_nil, List.append_nil,
      List.drop_zero, ← List.append_assoc, List.take_append_drop]
  · rw [List.take_of_length_le room, List.drop_of_length_le room, List.nil_append]

/-- The queue after some batches: the stuck items of those reached, then the others. -/
theorem workOff_iterate (i : Nat) : (workOff limit stuck)^[i] queue =
    (queue.take (reached limit stuck queue i)).filter stuck ++
      queue.drop (reached limit stuck queue i) := by
  induction i with
  | zero => simp [reached]
  | succ i ih => rw [Function.iterate_succ_apply', ih, workOff_stuck, reached]

theorem reached_of_batch {i : Nat} {item : V}
    (inside : item ∈ ((workOff limit stuck)^[i] queue).take limit) :
    item ∈ queue.take (reached limit stuck queue (i + 1)) := by
  rw [workOff_iterate, take_stuck] at inside
  rw [reached, List.take_add]
  rcases List.mem_append.mp inside with early | late
  · exact List.mem_append_left _ (List.mem_filter.mp (List.mem_of_mem_take early)).1
  · exact List.mem_append_right _ late

theorem batch_of_reached {count : Nat} {item : V}
    (inside : item ∈ queue.take (reached limit stuck queue count)) :
    ∃ i < count, item ∈ ((workOff limit stuck)^[i] queue).take limit := by
  induction count with
  | zero => simp [reached] at inside
  | succ count ih =>
      rw [reached, List.take_add] at inside
      rcases List.mem_append.mp inside with early | late
      · obtain ⟨i, earlier, batch⟩ := ih early
        exact ⟨i, Nat.lt_succ_of_lt earlier, batch⟩
      · refine ⟨count, Nat.lt_succ_self count, ?_⟩
        rw [workOff_iterate, take_stuck]
        exact List.mem_append_right _ late

theorem reached_mono {i count : Nat} (le : i ≤ count) :
    reached limit stuck queue i ≤ reached limit stuck queue count := by
  induction le with
  | refl => exact Nat.le_refl _
  | step _ ih => exact Nat.le_trans ih (Nat.le_add_right _ _)

/-- All items are taken in the first batches exactly if these come to the end of the queue. -/
theorem all_taken_iff (distinct : queue.Nodup) (count : Nat) :
    (∀ item ∈ queue, ∃ i < count, item ∈ ((workOff limit stuck)^[i] queue).take limit) ↔
      queue.length ≤ reached limit stuck queue count := by
  constructor
  · intro all
    by_contra short
    have within : reached limit stuck queue count < queue.length := Nat.lt_of_not_le short
    obtain ⟨i, earlier, batch⟩ := all (queue.get ⟨_, within⟩) (List.get_mem _ _)
    have early := reached_of_batch limit stuck queue batch
    have bound := reached_mono limit stuck queue (Nat.succ_le_of_lt earlier)
    have early := (List.take_sublist_take_left bound).subset early
    obtain ⟨j, lower, same⟩ := List.mem_take_iff_getElem.mp early
    have indices := (List.Nodup.getElem_inj_iff distinct).mp same
    omega
  · intro enough item inside
    refine batch_of_reached limit stuck queue ?_
    rwa [List.take_of_length_le enough]

end Stuck

end SdcoreNest.Theory
