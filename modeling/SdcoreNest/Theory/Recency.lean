/-
# Theory.Recency -- a list of entries ordered by last touch

The reference for a bounded cache that forgets what was touched longest ago: a list of
keyed entries, oldest touch first.  A touch moves a key to the end, `without` takes it out,
`evict` drops from the front until the rest fits.  Main lemmas:

* `keys_touch_sublist`: if the keys stand in the order of their last touches, a touch keeps
  them so;
* `evict_suffix`, `fits_evict`, `evict_eq_self`: what is dropped is the front, the rest fits,
  and nothing is dropped that fits.

A machine answers calls one after the other; `answers_eq` is the rule by which one machine
answers as another does.
-/
import Mathlib.Data.List.Dedup
import Mathlib.Data.List.Induction

namespace SdcoreNest.Theory

set_option autoImplicit false

/-! ## Machines that answer calls -/

section Machines

variable {S S' C A : Type}

/-- The answers to a history of calls, from a state. -/
def answers (call : S → C → A × S) : S → List C → List A
  | _, [] => []
  | state, c :: rest => (call state c).1 :: answers call (call state c).2 rest

/-- The state a history of calls leads to. -/
def after (call : S → C → A × S) (state : S) (history : List C) : S :=
  history.foldl (fun state c => (call state c).2) state

@[simp] theorem after_nil (call : S → C → A × S) (state : S) : after call state [] = state := rfl

@[simp] theorem after_concat (call : S → C → A × S) (state : S) (past : List C) (c : C) :
    after call state (past ++ [c]) = (call (after call state past) c).2 := by
  simp [after]

@[simp] theorem answers_concat (call : S → C → A × S) :
    ∀ (state : S) (past : List C) (c : C), answers call state (past ++ [c]) =
      answers call state past ++ [(call (after call state past) c).1]
  | _, [], _ => rfl
  | state, first :: past, c => by
      rw [List.cons_append, answers, answers, answers_concat call _ past c]
      rfl

@[simp] theorem length_answers (call : S → C → A × S) :
    ∀ (state : S) (history : List C), (answers call state history).length = history.length
  | _, [] => rfl
  | state, c :: rest => by rw [answers, List.length_cons, length_answers, List.length_cons]

/-- Two machines answer alike whose states are related at the start and stay so. -/
theorem answers_eq {call : S → C → A × S} {call' : S' → C → A × S'} {related : S → S' → Prop}
    (alike : ∀ state state' c, related state state' →
      (call state c).1 = (call' state' c).1 ∧ related (call state c).2 (call' state' c).2) :
    ∀ (history : List C) {state : S} {state' : S'}, related state state' →
      answers call state history = answers call' state' history ∧
        related (after call state history) (after call' state' history)
  | [], _, _, start => ⟨rfl, start⟩
  | c :: rest, state, state', start => by
      obtain ⟨same, next⟩ := alike state state' c start
      obtain ⟨sames, last⟩ := answers_eq alike rest next
      exact ⟨by rw [answers, answers, same, sames], last⟩

end Machines

/-! ## Entries in the order of their last touch -/

namespace Recency

variable {K E : Type}

def keys (entries : List (K × E)) : List K := entries.map Prod.fst

/-! ### Eviction -/

/-- Drop the least recently touched until what is left fits. -/
def evict (fits : Nat → Bool) : List (K × E) → List (K × E)
  | [] => []
  | entry :: rest => if fits (entry :: rest).length then entry :: rest else evict fits rest

theorem evict_suffix (fits : Nat → Bool) : ∀ entries : List (K × E), evict fits entries <:+ entries
  | [] => List.suffix_refl []
  | entry :: rest => by
      rw [evict]
      split
      · exact List.suffix_refl _
      · exact (evict_suffix fits rest).trans (List.suffix_cons entry rest)

theorem fits_evict {fits : Nat → Bool} (none : fits 0 = true) :
    ∀ entries : List (K × E), fits (evict fits entries).length = true
  | [] => none
  | entry :: rest => by
      rw [evict]
      split
      next fit => exact fit
      next => exact fits_evict none rest

theorem evict_eq_self {fits : Nat → Bool} {entries : List (K × E)}
    (fit : fits entries.length = true) : evict fits entries = entries := by
  cases entries with
  | nil => rfl
  | cons entry rest => rw [evict, if_pos fit]

variable [DecidableEq K]

/-! ### Touches -/

/-- The entries of the other keys. -/
def without (k : K) (entries : List (K × E)) : List (K × E) :=
  entries.filter fun entry => entry.1 ≠ k

/-- The entry of a key becomes the last touched. -/
def touch (k : K) (e : E) (entries : List (K × E)) : List (K × E) := without k entries ++ [(k, e)]

theorem keys_without (k : K) (entries : List (K × E)) :
    keys (without k entries) = (keys entries).filter (· ≠ k) := by
  rw [keys, keys, without, List.filter_map]
  rfl

theorem keys_touch (k : K) (e : E) (entries : List (K × E)) :
    keys (touch k e entries) = (keys entries).filter (· ≠ k) ++ [k] := by
  rw [touch, keys, List.map_append, ← keys, keys_without]
  rfl

theorem mem_keys_touch {k other : K} {e : E} {entries : List (K × E)} :
    other ∈ keys (touch k e entries) ↔ other = k ∨ other ∈ keys entries := by
  rw [keys_touch, List.mem_append, List.mem_filter, List.mem_singleton, decide_eq_true_eq]
  by_cases same : other = k
  · simp [same]
  · simp [same]

/-- Touching a key again adds no entry. -/
theorem length_touch_le {k : K} {entries : List (K × E)} (there : k ∈ keys entries) (e : E) :
    (touch k e entries).length ≤ entries.length := by
  obtain ⟨entry, inside, same⟩ := List.mem_map.mp there
  rw [touch, List.length_append, List.length_singleton, without]
  exact List.length_filter_lt_length_iff_exists.mpr ⟨entry, inside, by simp [same]⟩

/-! ### The order -/

/-- In the order of last touches, a key touched now is last. -/
theorem dedup_concat (touched : List K) (k : K) :
    (touched ++ [k]).dedup = touched.dedup.filter (· ≠ k) ++ [k] := by
  induction touched with
  | nil => simp
  | cons first rest ih =>
      rw [List.cons_append]
      by_cases again : first ∈ rest ++ [k]
      · rw [List.dedup_cons_of_mem again, ih]
        rcases List.mem_append.mp again with later | now
        · rw [List.dedup_cons_of_mem later]
        · rw [List.mem_singleton] at now
          subst now
          by_cases later : first ∈ rest
          · rw [List.dedup_cons_of_mem later]
          · rw [List.dedup_cons_of_notMem later, List.filter_cons_of_neg (by simp)]
      · have later : first ∉ rest := fun inside => again (List.mem_append_left _ inside)
        have other : first ≠ k := fun same => again (by simp [same])
        rw [List.dedup_cons_of_notMem again, ih, List.dedup_cons_of_notMem later,
          List.filter_cons_of_pos (by simpa using other), List.cons_append]

/-- The keys stand in the order of their last touches. -/
def Ordered (touched : List K) (entries : List (K × E)) : Prop :=
  (keys entries).Sublist touched.dedup

theorem Ordered.touch {touched : List K} {entries : List (K × E)} (ordered : Ordered touched entries)
    (k : K) (e : E) : Ordered (touched ++ [k]) (touch k e entries) := by
  rw [Ordered, keys_touch, dedup_concat]
  exact (List.Sublist.filter _ ordered).append_right _

theorem Ordered.sublist {touched : List K} {entries fewer : List (K × E)}
    (ordered : Ordered touched entries) (sub : fewer.Sublist entries) : Ordered touched fewer :=
  (sub.map Prod.fst).trans ordered

/-- What an eviction drops was touched before all that stays. -/
theorem evicted_before {fits : Nat → Bool} {touched : List K} {entries : List (K × E)}
    (ordered : Ordered touched entries) {k : K} (there : k ∈ keys entries)
    (gone : k ∉ keys (evict fits entries)) {other : K} (stays : other ∈ keys (evict fits entries)) :
    [k, other].Sublist touched.dedup := by
  obtain ⟨dropped, split⟩ := evict_suffix fits entries
  have parts : keys dropped ++ keys (evict fits entries) = keys entries := by
    rw [keys, keys, ← List.map_append, split, ← keys]
  rw [← parts] at there
  have early : k ∈ keys dropped := (List.mem_append.mp there).resolve_right gone
  have pair : [k, other].Sublist (keys dropped ++ keys (evict fits entries)) :=
    (List.singleton_sublist.mpr early).append (List.singleton_sublist.mpr stays)
  rw [parts] at pair
  exact pair.trans ordered

end Recency

end SdcoreNest.Theory
