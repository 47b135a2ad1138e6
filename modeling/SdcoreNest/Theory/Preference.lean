/-
# Theory.Preference -- the first of the heaviest

Some items of a list have a weight.  Among rivals the first of the heaviest is preferred; a
stable sort by descending weight puts it in front.
-/
import Mathlib.Data.List.Sort
import Mathlib.Logic.Nontrivial.Basic

namespace SdcoreNest.Theory

set_option autoImplicit false

section

variable {α β : Type}

/-- No rival is heavier than the item, and none before it is as heavy. -/
def Heaviest (weight : α → Option Nat) (rival : α → Prop) (items : List α) (item : α) : Prop :=
  ∃ (i w : Nat), items[i]? = some item ∧ weight item = some w ∧
    ∀ j other v, items[j]? = some other → rival other → weight other = some v → v < w ∨ v = w ∧ i ≤ j

/-- An item under the first label is the heaviest among those under the second. -/
def Leads (weight : α → Option Nat) (label : α → β) (items : List α) (first second : β) : Prop :=
  ∃ item, label item = first ∧ Heaviest weight (label · = second) items item

variable {weight : α → Option Nat} {items : List α}

theorem Heaviest.mono {rival fewer : α → Prop} {item : α} (heaviest : Heaviest weight rival items item)
    (narrow : ∀ other, fewer other → rival other) : Heaviest weight fewer items item := by
  obtain ⟨i, w, found, weighs, above⟩ := heaviest
  exact ⟨i, w, found, weighs, fun j other v listed few => above j other v listed (narrow other few)⟩

/-- The weights of the items are all that counts. -/
theorem Heaviest.congr {other : α → Option Nat} (agree : ∀ item ∈ items, weight item = other item)
    {rival : α → Prop} {item : α} (heaviest : Heaviest weight rival items item) :
    Heaviest other rival items item := by
  obtain ⟨i, w, found, weighs, above⟩ := heaviest
  refine ⟨i, w, found, (agree item (List.mem_of_getElem? found)).symm.trans weighs, ?_⟩
  intro j item' v listed isRival weighs'
  exact above j item' v listed isRival ((agree item' (List.mem_of_getElem? listed)).trans weighs')

theorem Leads.congr {label : α → β} {other : α → Option Nat}
    (agree : ∀ item ∈ items, weight item = other item) (first second : β) :
    Leads weight label items first second ↔ Leads other label items first second :=
  exists_congr fun _ => and_congr_right fun _ =>
    ⟨Heaviest.congr agree, Heaviest.congr fun item listed => (agree item listed).symm⟩

theorem Heaviest.weighs {rival : α → Prop} {item : α} (heaviest : Heaviest weight rival items item) :
    item ∈ items ∧ weight item ≠ none := by
  obtain ⟨i, w, found, weighs, -⟩ := heaviest
  exact ⟨List.mem_of_getElem? found, fun none => by rw [none] at weighs; cases weighs⟩

/-- Only one rival is preferred. -/
theorem Heaviest.unique {rival : α → Prop} {item other : α} (rivals : rival item ∧ rival other)
    (first : Heaviest weight rival items item) (second : Heaviest weight rival items other) :
    item = other := by
  obtain ⟨i, w, found, weighs, above⟩ := first
  obtain ⟨j, v, found', weighs', above'⟩ := second
  have one := above j other v found' rivals.2 weighs'
  have two := above' i item w found rivals.1 weighs
  have same : i = j := by omega
  rw [same, found'] at found
  exact (Option.some.inj found).symm

theorem exists_heaviest {rival : α → Prop} :
    ∀ {items : List α}, (∃ item ∈ items, rival item ∧ weight item ≠ none) →
      ∃ item, rival item ∧ Heaviest weight rival items item := by
  intro items
  induction items with
  | nil =>
      rintro ⟨item, listed, -⟩
      cases listed
  | cons first rest ih =>
      intro some'
      by_cases more : ∃ item ∈ rest, rival item ∧ weight item ≠ none
      · obtain ⟨item, isRival, i, w, found, weighs, above⟩ := ih more
        -- the head wins over the best of the rest when it is as heavy
        by_cases wins : rival first ∧ ∃ v, weight first = some v ∧ w ≤ v
        · obtain ⟨firstRival, v, weighs', heavier⟩ := wins
          refine ⟨first, firstRival, 0, v, rfl, weighs', fun j other u listed rivals has => ?_⟩
          cases j with
          | zero =>
              cases listed
              rw [weighs'] at has
              cases has
              exact .inr ⟨rfl, Nat.le_refl 0⟩
          | succ j =>
              have below := above j other u listed rivals has
              omega
        · refine ⟨item, isRival, i + 1, w, found, weighs, fun j other u listed rivals has => ?_⟩
          cases j with
          | zero =>
              cases listed
              refine .inl (Nat.lt_of_not_le fun heavier => wins ⟨rivals, u, has, heavier⟩)
          | succ j =>
              have below := above j other u listed rivals has
              omega
      · obtain ⟨item, listed, isRival, weighs⟩ := some'
        rcases List.mem_cons.mp listed with rfl | listed
        · obtain ⟨w, weighs⟩ := Option.ne_none_iff_exists'.mp weighs
          refine ⟨item, isRival, 0, w, rfl, weighs, fun j other u listed rivals has => ?_⟩
          cases j with
          | zero =>
              cases listed
              rw [weighs] at has
              cases has
              exact .inr ⟨rfl, Nat.le_refl 0⟩
          | succ j =>
              refine absurd ⟨other, List.mem_of_getElem? listed, rivals, ?_⟩ more
              rw [has]
              exact Option.some_ne_none u
        · exact absurd ⟨item, listed, isRival, weighs⟩ more

/-! ## Labels -/

variable {label : α → β}

theorem Leads.self {first second : β} (leads : Leads weight label items first second) :
    Leads weight label items first first := by
  obtain ⟨item, labelled, heaviest⟩ := leads
  exact exists_heaviest ⟨item, heaviest.weighs.1, labelled, heaviest.weighs.2⟩

/-- A label that leads over each of some labels leads over all of them with one item. -/
theorem exists_heaviest_iff_leads {labels : List β} {first : β} (listed : first ∈ labels) :
    (∃ item, label item = first ∧ Heaviest weight (label · ∈ labels) items item) ↔
      ∀ second ∈ labels, Leads weight label items first second := by
  constructor
  · rintro ⟨item, labelled, heaviest⟩ second among
    exact ⟨item, labelled, heaviest.mono fun other same => same ▸ among⟩
  · intro leads
    obtain ⟨item, labelled, i, w, found, weighs, above⟩ := leads first listed
    refine ⟨item, labelled, i, w, found, weighs, fun j other v listed' among has => ?_⟩
    -- another item of the label is above the rival, and this one is above that item
    obtain ⟨between, labelled', i', w', found', weighs', above'⟩ := leads _ among
    have lower := above' j other v listed' rfl has
    have upper := above i' between w' found' labelled' weighs'
    omega

/-! ## The choice among some labels -/

/-- The label of the preferred item, or a fallback where no item of the labels has a weight. -/
def Chosen (weight : α → Option Nat) (label : α → β) (items : List α) (labels : List β)
    (fallback choice : β) : Prop :=
  (∃ item, label item = choice ∧ choice ∈ labels ∧ Heaviest weight (label · ∈ labels) items item) ∨
    (∀ item ∈ items, label item ∈ labels → weight item = none) ∧ choice = fallback

theorem Chosen.unique {labels : List β} {fallback choice other : β}
    (first : Chosen weight label items labels fallback choice)
    (second : Chosen weight label items labels fallback other) : choice = other := by
  rcases first with ⟨item, rfl, among, heaviest⟩ | ⟨none, rfl⟩
  · rcases second with ⟨item', rfl, among', heaviest'⟩ | ⟨none, rfl⟩
    · exact congrArg label (Heaviest.unique ⟨among, among'⟩ heaviest heaviest')
    · exact absurd (none item heaviest.weighs.1 among) heaviest.weighs.2
  · rcases second with ⟨item', rfl, among', heaviest'⟩ | ⟨-, rfl⟩
    · exact absurd (none item' heaviest'.weighs.1 among') heaviest'.weighs.2
    · rfl

/-- Between two labels the first is chosen exactly when it leads. -/
theorem chosen_pair_iff {first second fallback : β} (apart : fallback ≠ first) :
    Chosen weight label items [first, second] fallback first ↔ Leads weight label items first second := by
  constructor
  · rintro (⟨item, labelled, -, heaviest⟩ | ⟨-, same⟩)
    · exact ⟨item, labelled, heaviest.mono fun other same => same ▸ List.mem_cons_of_mem _ List.mem_cons_self⟩
    · exact absurd same.symm apart
  · intro leads
    have both : ∀ other ∈ [first, second], Leads weight label items first other := by
      intro other listed
      rcases List.mem_pair.mp listed with rfl | rfl
      · exact leads.self
      · exact leads
    obtain ⟨item, labelled, heaviest⟩ := (exists_heaviest_iff_leads List.mem_cons_self).mpr both
    exact .inl ⟨item, labelled, List.mem_cons_self, heaviest⟩

/-- Choices by one weighing are choices by another exactly when the same labels lead. -/
theorem forall_chosen_iff [Nontrivial β] {other : α → Option Nat} {valid : β → Prop}
    {choose : List β → β → β}
    (chosen : ∀ labels fallback, (∀ code ∈ labels, valid code) →
      Chosen weight label items labels fallback (choose labels fallback)) :
    (∀ labels fallback, (∀ code ∈ labels, valid code) →
        Chosen other label items labels fallback (choose labels fallback)) ↔
      ∀ first second, valid first → valid second →
        (Leads weight label items first second ↔ Leads other label items first second) := by
  constructor
  · intro agrees first second validFirst validSecond
    obtain ⟨fallback, apart⟩ := exists_ne first
    have both : ∀ code ∈ [first, second], valid code := by
      intro code listed
      rcases List.mem_pair.mp listed with rfl | rfl
      · exact validFirst
      · exact validSecond
    have here := chosen [first, second] fallback both
    have there := agrees [first, second] fallback both
    rw [← chosen_pair_iff apart, ← chosen_pair_iff apart]
    constructor
    · intro taken
      rwa [here.unique taken] at there
    · intro taken
      rwa [there.unique taken] at here
  · intro leads labels fallback valids
    rcases chosen labels fallback valids with ⟨item, labelled, among, heaviest⟩ | ⟨none, same⟩
    · have wins := (exists_heaviest_iff_leads among).mp ⟨item, labelled, heaviest⟩
      obtain ⟨item', labelled', heaviest'⟩ := (exists_heaviest_iff_leads among).mpr
        fun second listed => (leads _ _ (valids _ among) (valids second listed)).mp (wins second listed)
      exact .inl ⟨item', labelled', among, heaviest'⟩
    · refine .inr ⟨fun item listed among => ?_, same⟩
      by_contra weighs
      have alone : Leads other label items (label item) (label item) :=
        exists_heaviest ⟨item, listed, rfl, weighs⟩
      obtain ⟨item', labelled, heaviest⟩ := (leads _ _ (valids _ among) (valids _ among)).mpr alone
      exact heaviest.weighs.2 (none item' heaviest.weighs.1 (labelled ▸ among))

/-! ## A stable sort -/

section

variable {rank : α → Nat}

theorem find?_orderedInsert {keep : α → Bool} {item : α} {sorted : List α}
    (descending : sorted.Pairwise fun a b => rank b ≤ rank a) :
    (sorted.orderedInsert (fun a b => rank b ≤ rank a) item).find? keep =
      if keep item then
        some ((sorted.find? keep).elim item fun best => if rank best ≤ rank item then item else best)
      else sorted.find? keep := by
  induction sorted with
  | nil => cases kept : keep item <;> simp [kept]
  | cons first rest ih =>
      obtain ⟨front, descending⟩ := List.pairwise_cons.mp descending
      rw [List.orderedInsert_cons]
      by_cases before : rank first ≤ rank item
      · rw [if_pos before, List.find?_cons]
        cases kept : keep item with
        | false => rfl
        | true =>
            cases found : (first :: rest).find? keep with
            | none => rfl
            | some best =>
                have low : rank best ≤ rank item := by
                  rcases List.mem_cons.mp (List.mem_of_find?_eq_some found) with rfl | later
                  · exact before
                  · exact (front best later).trans before
                simp [low]
      · rw [if_neg before, List.find?_cons, List.find?_cons]
        cases keptFirst : keep first with
        | false => exact ih descending
        | true => cases kept : keep item <;> simp [before]

/-- What a stable sort by descending rank finds first. -/
theorem heaviest_of_find?_insertionSort {keep : α → Bool} :
    ∀ {items : List α} {item : α},
      (items.insertionSort fun a b => rank b ≤ rank a).find? keep = some item →
        Heaviest (fun item => some (rank item)) (fun item => keep item = true) items item := by
  intro items
  induction items with
  | nil => exact fun found => by cases found
  | cons first rest ih =>
      intro item found
      have transitive : IsTrans α fun a b => rank b ≤ rank a := ⟨fun a b c low high => high.trans low⟩
      have total : Std.Total fun a b : α => rank b ≤ rank a := ⟨fun a b => Nat.le_total (rank b) (rank a)⟩
      have descending := List.pairwise_insertionSort (fun a b => rank b ≤ rank a) rest
      rw [List.insertionSort_cons, find?_orderedInsert descending] at found
      have shifted {best : α} (better : keep first = true → rank first < rank best)
          (sorted : (rest.insertionSort fun a b => rank b ≤ rank a).find? keep = some best) :
          Heaviest (fun item => some (rank item)) (fun item => keep item = true) (first :: rest) best := by
        obtain ⟨i, w, found, weighs, above⟩ := ih sorted
        refine ⟨i + 1, w, found, weighs, fun j other v listed kept has => ?_⟩
        cases j with
        | zero =>
            cases listed
            cases has
            cases weighs
            exact .inl (better kept)
        | succ j =>
            have below := above j other v listed kept has
            omega
      cases kept : keep first with
      | false =>
          rw [kept, if_neg Bool.false_ne_true] at found
          exact shifted (fun other => by rw [kept] at other; cases other) found
      | true =>
          rw [kept, if_pos rfl] at found
          cases sorted : (rest.insertionSort fun a b => rank b ≤ rank a).find? keep with
          | none =>
              rw [sorted] at found
              cases found
              refine ⟨0, rank first, rfl, rfl, fun j other v listed kept' has => ?_⟩
              cases j with
              | zero =>
                  cases listed
                  cases has
                  exact .inr ⟨rfl, Nat.le_refl 0⟩
              | succ j =>
                  have absent := List.find?_eq_none.mp sorted other
                    ((List.mem_insertionSort _).mpr (List.mem_of_getElem? listed))
                  exact absurd kept' absent
          | some best =>
              rw [sorted, Option.elim_some] at found
              by_cases low : rank best ≤ rank first
              · rw [if_pos low] at found
                cases found
                obtain ⟨i, w, -, weighs, above⟩ := ih sorted
                cases weighs
                refine ⟨0, rank first, rfl, rfl, fun j other v listed kept' has => ?_⟩
                cases j with
                | zero =>
                    cases listed
                    cases has
                    exact .inr ⟨rfl, Nat.le_refl 0⟩
                | succ j =>
                    have below := above j other v listed kept' has
                    omega
              · rw [if_neg low] at found
                cases found
                exact shifted (fun _ => Nat.lt_of_not_le low) sorted

end

end

end SdcoreNest.Theory
