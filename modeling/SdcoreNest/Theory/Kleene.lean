/-
# Theory.Kleene -- three truth values, and chains of AND and OR

A condition of SQL is true, false or unknown.  Conditions written one after the other form a
chain, in which AND binds tighter than OR and parentheses are the only grouping.

* `chain_ands` -- a chain of ANDs is the conjunction of its members;
* `chain_ors` -- a chain of ORs is the disjunction of its members;
* `chain_append_or` -- a chain splits at an OR.
-/
import Mathlib.Tactic.Common

namespace SdcoreNest.Theory

set_option autoImplicit false

/-- `none` is unknown. -/
abbrev Truth := Option Bool

namespace Truth

/-- What is unknown stays unknown. -/
def neg : Truth → Truth := Option.map (!·)

/-- False as soon as one side is, unknown where that is left open. -/
def and : Truth → Truth → Truth
  | some false, _ => some false
  | some true, b => b
  | none, some false => some false
  | none, _ => none

/-- True as soon as one side is, unknown where that is left open. -/
def or : Truth → Truth → Truth
  | some true, _ => some true
  | some false, b => b
  | none, some true => some true
  | none, _ => none

/-- AND of all members; no members are true. -/
def conj (members : List Truth) : Truth := members.foldr and (some true)

/-- OR of all members; no members are false. -/
def disj (members : List Truth) : Truth := members.foldr or (some false)

/-! ## Connectives -/

/-- A conjunction is true exactly if both sides are: unknown never helps. -/
@[simp] theorem and_eq_true {a b : Truth} :
    and a b = some true ↔ a = some true ∧ b = some true := by
  rcases a with - | - | - <;> rcases b with - | - | - <;> simp [and]

/-- A disjunction is true exactly if one side is, whatever is unknown of the other. -/
@[simp] theorem or_eq_true {a b : Truth} :
    or a b = some true ↔ a = some true ∨ b = some true := by
  rcases a with - | - | - <;> rcases b with - | - | - <;> simp [or]

@[simp] theorem and_true (a : Truth) : and a (some true) = a := by
  rcases a with - | - | - <;> rfl

@[simp] theorem or_false (a : Truth) : or a (some false) = a := by
  rcases a with - | - | - <;> rfl

theorem and_assoc (a b c : Truth) : and (and a b) c = and a (and b c) := by
  rcases a with - | - | - <;> rcases b with - | - | - <;> rcases c with - | - | - <;> rfl

theorem conj_cons (a : Truth) (members : List Truth) : conj (a :: members) = and a (conj members) :=
  rfl

theorem disj_cons (a : Truth) (members : List Truth) : disj (a :: members) = or a (disj members) :=
  rfl

/-- Two lists of members are conjoined one after the other. -/
theorem conj_append (members others : List Truth) :
    conj (members ++ others) = and (conj members) (conj others) := by
  induction members with
  | nil => simp [conj, and]
  | cons a members ih => rw [List.cons_append, conj_cons, ih, conj_cons, and_assoc]

/-- All members are asked for. -/
theorem conj_eq_true {members : List Truth} :
    conj members = some true ↔ ∀ a ∈ members, a = some true := by
  induction members with
  | nil => simp [conj]
  | cons a members ih => rw [conj_cons, and_eq_true, ih, List.forall_mem_cons]

/-- One member is enough. -/
theorem disj_eq_true {members : List Truth} :
    disj members = some true ↔ ∃ a ∈ members, a = some true := by
  induction members with
  | nil => simp [disj]
  | cons a members ih =>
      rw [disj_cons, or_eq_true, ih]
      simp [eq_comm]

end Truth

/-! ## Chains -/

/-- What joins a condition to those before it. -/
inductive Connective where
  | and
  | or
deriving DecidableEq

/-- What follows a run of ANDs. -/
def chainFrom (run : Truth) : List (Connective × Truth) → Truth
  | [] => run
  | (.and, a) :: rest => chainFrom (run.and a) rest
  | (.or, a) :: rest => run.or (chainFrom a rest)

/-- Conditions joined left to right; nothing stands before the first one, and no condition at
all is true. -/
def chain : List (Connective × Truth) → Truth
  | [] => some true
  | (_, a) :: rest => chainFrom a rest

/-- Only ANDs join what stands in the chain. -/
def Ands {α : Type} (conditions : List (Connective × α)) : Prop :=
  ∀ condition ∈ conditions, condition.1 = .and

theorem Ands.append {α : Type} {conditions others : List (Connective × α)}
    (left : Ands conditions) (right : Ands others) : Ands (conditions ++ others) := by
  intro condition member
  rcases List.mem_append.mp member with member | member
  · exact left condition member
  · exact right condition member

/-- The run takes every condition in, since no OR ends it. -/
theorem chainFrom_ands {conditions : List (Connective × Truth)} (ands : Ands conditions)
    (run : Truth) : chainFrom run conditions = run.and (Truth.conj (conditions.map Prod.snd)) := by
  induction conditions generalizing run with
  | nil => simp [chainFrom, Truth.conj]
  | cons condition rest ih =>
      obtain ⟨connective, a⟩ := condition
      obtain ⟨isAnd, others⟩ := List.forall_mem_cons.mp ands
      obtain rfl : connective = .and := isAnd
      rw [chainFrom, ih others, List.map_cons, Truth.conj_cons, Truth.and_assoc]

/-- A chain of ANDs is the conjunction of its members, whatever stands before the first one. -/
theorem chain_ands {conditions : List (Connective × Truth)} (ands : Ands conditions) :
    chain conditions = Truth.conj (conditions.map Prod.snd) := by
  cases conditions with
  | nil => rfl
  | cons condition rest =>
      rw [chain, chainFrom_ands (List.forall_mem_cons.mp ands).2, List.map_cons, Truth.conj_cons]

/-- Every OR ends the run and begins the next one. -/
theorem chainFrom_ors {conditions : List (Connective × Truth)}
    (ors : ∀ condition ∈ conditions, condition.1 = .or) (run : Truth) :
    chainFrom run conditions = run.or (Truth.disj (conditions.map Prod.snd)) := by
  induction conditions generalizing run with
  | nil => simp [chainFrom, Truth.disj]
  | cons condition rest ih =>
      obtain ⟨connective, a⟩ := condition
      obtain ⟨isOr, others⟩ := List.forall_mem_cons.mp ors
      obtain rfl : connective = .or := isOr
      rw [chainFrom, ih others, List.map_cons, Truth.disj_cons]

/-- A chain of ORs is the disjunction of its members; without members it would be true. -/
theorem chain_ors {conditions : List (Connective × Truth)} (some : conditions ≠ [])
    (ors : ∀ condition ∈ conditions, condition.1 = .or) :
    chain conditions = Truth.disj (conditions.map Prod.snd) := by
  cases conditions with
  | nil => contradiction
  | cons condition rest =>
      rw [chain, chainFrom_ors (List.forall_mem_cons.mp ors).2, List.map_cons, Truth.disj_cons]

/-! ## Chains that split at an OR -/

/-- The conditions before the OR do not see those after it. -/
theorem chainFrom_append_or (run a : Truth) (conditions rest : List (Connective × Truth)) :
    chainFrom run (conditions ++ (.or, a) :: rest) = (chainFrom run conditions).or (chainFrom a rest) := by
  induction conditions generalizing run with
  | nil => rfl
  | cons condition others ih =>
      obtain ⟨connective, b⟩ := condition
      cases connective with
      | and => rw [List.cons_append, chainFrom, ih, chainFrom]
      | or =>
          rw [List.cons_append, chainFrom, ih, chainFrom]
          rcases run with - | - | - <;> rcases chainFrom b others with - | - | - <;>
            rcases chainFrom a rest with - | - | - <;> rfl

/-- A chain splits at an OR, which binds weaker than what is on both sides of it. -/
theorem chain_append_or {conditions : List (Connective × Truth)} (some_ : conditions ≠ []) (a : Truth)
    (rest : List (Connective × Truth)) :
    chain (conditions ++ (.or, a) :: rest) = (chain conditions).or (chain ((.or, a) :: rest)) := by
  cases conditions with
  | nil => contradiction
  | cons condition others =>
      obtain ⟨connective, b⟩ := condition
      exact chainFrom_append_or b a others rest

/-- Neither connective leaves the truth when all conditions hold. -/
theorem chainFrom_true {conditions : List (Connective × Truth)}
    (all : ∀ condition ∈ conditions, condition.2 = some true) : chainFrom (some true) conditions = some true := by
  induction conditions with
  | nil => rfl
  | cons condition rest ih =>
      obtain ⟨connective, a⟩ := condition
      obtain ⟨isTrue, others⟩ := List.forall_mem_cons.mp all
      obtain rfl : a = some true := isTrue
      cases connective with
      | and => exact ih others
      | or => rfl

/-- Conditions that are all true make a true chain, whatever joins them. -/
theorem chain_true {conditions : List (Connective × Truth)}
    (all : ∀ condition ∈ conditions, condition.2 = some true) : chain conditions = some true := by
  cases conditions with
  | nil => rfl
  | cons condition rest =>
      obtain ⟨connective, a⟩ := condition
      obtain ⟨isTrue, others⟩ := List.forall_mem_cons.mp all
      obtain rfl : a = some true := isTrue
      exact chainFrom_true others

theorem chainFrom_false {conditions : List (Connective × Truth)}
    (all : ∀ condition ∈ conditions, condition.2 = some false) :
    chainFrom (some false) conditions = some false := by
  induction conditions with
  | nil => rfl
  | cons condition rest ih =>
      obtain ⟨connective, a⟩ := condition
      obtain ⟨isFalse, others⟩ := List.forall_mem_cons.mp all
      obtain rfl : a = some false := isFalse
      cases connective with
      | and => exact ih others
      | or => exact ih others

/-- Conditions that are all false make a false chain, if there is one at all. -/
theorem chain_false {conditions : List (Connective × Truth)} (some_ : conditions ≠ [])
    (all : ∀ condition ∈ conditions, condition.2 = some false) : chain conditions = some false := by
  cases conditions with
  | nil => contradiction
  | cons condition rest =>
      obtain ⟨connective, a⟩ := condition
      obtain ⟨isFalse, others⟩ := List.forall_mem_cons.mp all
      obtain rfl : a = some false := isFalse
      exact chainFrom_false others

end SdcoreNest.Theory
