/-
# Theory.Rules -- rules for programs that throw

`Follows C p past post`: continued after the worker's own steps `past`, the program `p`,
which may throw, asks only what the conduct `C` allows and ends in `post`.  The rules are
those of `Program.Obeys` for the shapes services are written in: a call, a call in a `try`,
a check, a sequence, a `catch`.
-/
import SdcoreNest.Theory.Program

namespace SdcoreNest.Theory

set_option autoImplicit false

variable {S : Signature} {ε α β : Type}

/-- A program that may throw keeps to a conduct and ends in `post`. -/
def Follows (C : Conduct S) (p : ExceptT ε (Program S) α) (past : List (Step S))
    (post : Except ε α → List (Step S) → Prop) : Prop :=
  Program.Obeys C p.run past post

/-- A postcondition on returned values only. -/
def returning (post : α → List (Step S) → Prop) : Except ε α → List (Step S) → Prop
  | .ok value, past => post value past
  | .error _, _ => True

@[simp] theorem returning_ok (post : α → List (Step S) → Prop) (value : α)
    (past : List (Step S)) :
    returning post (.ok value : Except ε α) past ↔ post value past := Iff.rfl

@[simp] theorem returning_error (post : α → List (Step S) → Prop) (error : ε)
    (past : List (Step S)) : returning post (.error error : Except ε α) past ↔ True := Iff.rfl

/-- No postcondition. -/
abbrev anyhow : Except ε α → List (Step S) → Prop := returning fun _ _ => True

variable {C : Conduct S} {past : List (Step S)}

@[simp] theorem follows_pure (value : α) (post : Except ε α → List (Step S) → Prop) :
    Follows C (pure value) past post ↔ post (.ok value) past := Iff.rfl

@[simp] theorem follows_throw (error : ε) (post : Except ε α → List (Step S) → Prop) :
    Follows C (throw error : ExceptT ε (Program S) α) past post ↔ post (.error error) past :=
  Iff.rfl

@[simp] theorem follows_result (result : Except ε α)
    (post : Except ε α → List (Step S) → Prop) :
    Follows C (ExceptT.mk (.done result)) past post ↔ post result past := Iff.rfl

@[simp] theorem follows_bind (p : ExceptT ε (Program S) α) (f : α → ExceptT ε (Program S) β)
    (post : Except ε β → List (Step S) → Prop) :
    Follows C (p >>= f) past post ↔
      Follows C p past (Program.handling
        (fun value past' => Follows C (f value) past' post)
        fun error => post (.error error)) :=
  Program.obeys_run_bind p f past post

@[simp] theorem follows_tryCatch (p : ExceptT ε (Program S) α)
    (handler : ε → ExceptT ε (Program S) α) (post : Except ε α → List (Step S) → Prop) :
    Follows C (tryCatch p handler) past post ↔
      Follows C p past (Program.handling (fun value => post (.ok value))
        fun error past' => Follows C (handler error) past' post) :=
  Program.obeys_run_tryCatch p handler past post

namespace Follows

/-- Issuing a call, then going on with its answer. -/
theorem ask_bind {fault : ε} {call : S.Call} {f : S.Answer call → ExceptT ε (Program S) β}
    {post : Except ε β → List (Step S) → Prop}
    (allows : C.allows past call)
    (answered : ∀ answer, C.credible ⟨call, some answer⟩ →
      Follows C (f answer) (⟨call, some answer⟩ :: past) post)
    (threw : C.credible ⟨call, none⟩ → post (.error fault) (⟨call, none⟩ :: past)) :
    Follows C (Program.perform fault call >>= f) past post :=
  (follows_bind _ _ _).2 ((Program.obeys_run_perform _ _ _ _).2 ⟨allows, answered, threw⟩)

theorem ask {fault : ε} {call : S.Call}
    {post : Except ε (S.Answer call) → List (Step S) → Prop}
    (allows : C.allows past call)
    (answered : ∀ answer, C.credible ⟨call, some answer⟩ →
      post (.ok answer) (⟨call, some answer⟩ :: past))
    (threw : C.credible ⟨call, none⟩ → post (.error fault) (⟨call, none⟩ :: past)) :
    Follows C (Program.perform fault call) past post :=
  (Program.obeys_run_perform _ _ _ _).2 ⟨allows, answered, threw⟩

/-- Issuing a call in a `try`, then going on whether it threw or not. -/
theorem tryAsk_bind {call : S.Call}
    {f : Option (S.Answer call) → ExceptT ε (Program S) β}
    {post : Except ε β → List (Step S) → Prop}
    (allows : C.allows past call)
    (replied : ∀ reply, C.credible ⟨call, reply⟩ →
      Follows C (f reply) (⟨call, reply⟩ :: past) post) :
    Follows C
      ((ExceptT.mk (.ask call fun reply => .done (.ok reply)) :
        ExceptT ε (Program S) (Option (S.Answer call))) >>= f) past post :=
  (follows_bind _ _ _).2 ⟨allows, replied⟩

/-- A check, then going on when it passed. -/
theorem check_bind {result : Except ε α} {f : α → ExceptT ε (Program S) β}
    {post : Except ε β → List (Step S) → Prop}
    (passed : ∀ value, result = .ok value → Follows C (f value) past post)
    (refused : ∀ error, post (.error error) past) :
    Follows C ((ExceptT.mk (.done result) : ExceptT ε (Program S) α) >>= f) past post := by
  rw [follows_bind, follows_result]
  cases result with
  | ok value => exact passed value rfl
  | error error => exact refused error

theorem mono {p : ExceptT ε (Program S) α} {post post' : Except ε α → List (Step S) → Prop}
    (follows : Follows C p past post)
    (weaker : ∀ result past', past <:+ past' → post result past' → post' result past') :
    Follows C p past post' :=
  Program.obeys_mono (Program.obeys_extends follows) fun result past' both =>
    weaker result past' both.2 both.1

/-- Sequencing: what the first part returns, the second starts from. -/
theorem seq (mid : α → List (Step S) → Prop) {p : ExceptT ε (Program S) α}
    {f : α → ExceptT ε (Program S) β} {post : Except ε β → List (Step S) → Prop}
    (first : Follows C p past (returning mid))
    (second : ∀ value past', past <:+ past' → mid value past' →
      Follows C (f value) past' post)
    (failed : ∀ error past', past <:+ past' → post (.error error) past') :
    Follows C (p >>= f) past post := by
  rw [follows_bind]
  refine first.mono fun result past' longer held => ?_
  cases result with
  | ok value => exact second value past' longer held
  | error error => exact failed error past' longer

/-- Guarding: the body returns in `mid`, the handler starts from wherever it failed. -/
theorem guarding {mid : α → List (Step S) → Prop} {p : ExceptT ε (Program S) α}
    {handler : ε → ExceptT ε (Program S) α} {post : Except ε α → List (Step S) → Prop}
    (body : Follows C p past (returning mid))
    (returned : ∀ value past', past <:+ past' → mid value past' → post (.ok value) past')
    (handled : ∀ error past', past <:+ past' → Follows C (handler error) past' post) :
    Follows C (tryCatch p handler) past post := by
  rw [follows_tryCatch]
  refine body.mono fun result past' longer held => ?_
  cases result with
  | ok value => exact returned value past' longer held
  | error error => exact handled error past' longer

/-- Catching: the handler starts from wherever the body failed. -/
theorem catching {p : ExceptT ε (Program S) α} {handler : ε → ExceptT ε (Program S) α}
    {post : Except ε α → List (Step S) → Prop}
    (body : Follows C p past anyhow)
    (returned : ∀ value past', past <:+ past' → post (.ok value) past')
    (handled : ∀ error past', past <:+ past' → Follows C (handler error) past' post) :
    Follows C (tryCatch p handler) past post :=
  guarding body (fun value past' longer _ => returned value past' longer) handled

/-- The pattern that swallows whatever its body throws. -/
theorem swallowed {p : ExceptT ε (Program S) α} {post : Except ε Unit → List (Step S) → Prop}
    (body : Follows C p past anyhow)
    (after : ∀ past', past <:+ past' → post (.ok ()) past') :
    Follows C (tryCatch (do let _ ← p; pure ()) fun _ => pure ()) past post := by
  refine catching ?_ (fun _ => after) fun _ => after
  exact seq (fun _ _ => True) body (fun _ _ _ _ => trivial) fun _ _ _ => trivial

end Follows

end SdcoreNest.Theory
