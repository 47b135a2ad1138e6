/-
# Theory.Program -- programs that ask an environment

A `Program S α` is a finite-depth tree of calls: at each node it asks one call
of the signature `S` and continues on the reply.  A reply is `none` when the call
threw.  A program is given once and read in two ways:

* `Program.run` interprets it against a handler, one call after the other;
* `Theory.Interleaving` interleaves the calls of many programs.

`Program.Obeys` is the calculus both readings share.  A `Conduct` says which call
a program may ask after which steps of its own, and which replies are credible;
`Obeys C p past post` says that `p`, continued after its own steps `past`, asks
only what `C` allows and ends in `post`.  It mentions no state: a program reacts
to replies only, so what it may ask is decided by its own past.

The rules that connect the calculus to runs are `run_obeys` (one run keeps an
invariant of the handler) and `run_related` (two runs from related states give
the same result and stay related).
-/
import Mathlib.Logic.Basic
import Mathlib.Tactic.Common

namespace SdcoreNest.Theory

set_option autoImplicit false

/-- A check that passed after another: both passed. -/
theorem of_bind_ok {ε α β : Type} {first : Except ε α} {next : α → Except ε β} {result : β}
    (passed : (first >>= next) = .ok result) :
    ∃ value, first = .ok value ∧ next value = .ok result := by
  cases first with
  | error fault => cases passed
  | ok value => exact ⟨value, rfl, passed⟩

theorem of_map_ok {α β ε : Type} {first : Except ε α} {next : α → β} {result : β}
    (passed : first.map next = .ok result) : ∃ value, first = .ok value ∧ next value = result := by
  cases first with
  | error fault => cases passed
  | ok value => exact ⟨value, rfl, Except.ok.inj passed⟩

theorem of_mapM_ok {α β ε : Type} {f : α → Except ε β} :
    ∀ {list : List α} {results : List β}, list.mapM f = .ok results →
      List.Forall₂ (fun a b => f a = .ok b) list results
  | [], _, passed => by
      cases passed
      exact .nil
  | a :: rest, _, passed => by
      rw [List.mapM_cons] at passed
      obtain ⟨b, first, passed⟩ := of_bind_ok passed
      obtain ⟨later, tail, passed⟩ := of_bind_ok passed
      cases passed
      exact .cons first (of_mapM_ok tail)

/-- What a loop collects, some turn of it answered. -/
theorem of_mem_mapM {α β ε : Type} {f : α → Except ε β} {list : List α} {results : List β}
    (passed : list.mapM f = .ok results) {b : β} (listed : b ∈ results) : ∃ a ∈ list, f a = .ok b := by
  have each := of_mapM_ok passed
  clear passed
  induction each with
  | nil => cases listed
  | @cons a first list results answered _ ih =>
      rcases List.mem_cons.mp listed with rfl | later
      · exact ⟨a, List.mem_cons_self, answered⟩
      · obtain ⟨other, inside, same⟩ := ih later
        exact ⟨other, .tail _ inside, same⟩

/-- Every turn of a loop answered, and what it answered was collected. -/
theorem mem_of_mapM {α β ε : Type} {f : α → Except ε β} {list : List α} {results : List β}
    (passed : list.mapM f = .ok results) {a : α} (listed : a ∈ list) : ∃ b ∈ results, f a = .ok b := by
  have each := of_mapM_ok passed
  clear passed
  induction each with
  | nil => cases listed
  | @cons first b list results answered _ ih =>
      rcases List.mem_cons.mp listed with rfl | later
      · exact ⟨b, List.mem_cons_self, answered⟩
      · obtain ⟨other, inside, same⟩ := ih later
        exact ⟨other, .tail _ inside, same⟩

/-- What programs may ask, and what each call answers when it does not throw. -/
structure Signature where
  Call : Type
  Answer : Call → Type

/-- A program over `S`: finished, or waiting for the reply of one call. -/
inductive Program (S : Signature) (α : Type) : Type where
  | done (value : α)
  | ask (call : S.Call) (next : Option (S.Answer call) → Program S α)

/-- One call together with its reply. -/
structure Step (S : Signature) where
  call : S.Call
  reply : Option (S.Answer call)

/-- The conduct of programs: which call may follow which own steps (newest
first), and which replies can be met. -/
structure Conduct (S : Signature) where
  allows : List (Step S) → S.Call → Prop
  credible : Step S → Prop

/-- Two conducts at once, under the replies that the first can meet. -/
def Conduct.and {S : Signature} (C D : Conduct S) : Conduct S where
  allows past call := C.allows past call ∧ D.allows past call
  credible := C.credible

namespace Program

variable {S : Signature} {α β σ : Type}

def bind : Program S α → (α → Program S β) → Program S β
  | .done value, f => f value
  | .ask call next, f => .ask call fun reply => (next reply).bind f

instance : Monad (Program S) where
  pure := .done
  bind := .bind

@[simp] theorem pure_eq (value : α) : (pure value : Program S α) = .done value := rfl

@[simp] theorem done_bind (value : α) (f : α → Program S β) :
    (Program.done value >>= f) = f value := rfl

@[simp] theorem ask_bind (call : S.Call) (next : Option (S.Answer call) → Program S α)
    (f : α → Program S β) :
    (Program.ask call next >>= f) = .ask call fun reply => next reply >>= f := rfl

theorem bind_done (p : Program S α) : p >>= Program.done = p := by
  induction p with
  | done value => rfl
  | ask call next ih =>
      rw [ask_bind]
      congr 1
      funext reply
      exact ih reply

theorem bind_assoc {γ : Type} (p : Program S α) (f : α → Program S β) (g : β → Program S γ) :
    (p >>= f) >>= g = p >>= fun value => f value >>= g := by
  induction p with
  | done value => rfl
  | ask call next ih =>
      simp only [ask_bind]
      congr 1
      funext reply
      exact ih reply

/-- Ask one call; a call that throws throws `fault`. -/
def perform {ε : Type} (fault : ε) (call : S.Call) :
    ExceptT ε (Program S) (S.Answer call) :=
  ExceptT.mk <| .ask call fun
    | some answer => .done (.ok answer)
    | none => .done (.error fault)

/-! ## Conduct -/

/-- Obedience: `p`, continued after its own steps `past`, asks only what `C` allows
and ends in `post`. -/
def Obeys (C : Conduct S) :
    Program S α → List (Step S) → (α → List (Step S) → Prop) → Prop
  | .done value, past, post => post value past
  | .ask call next, past, post =>
      C.allows past call ∧
        ∀ reply, C.credible ⟨call, reply⟩ → Obeys C (next reply) (⟨call, reply⟩ :: past) post

variable {C : Conduct S}

@[simp] theorem obeys_done (value : α) (past : List (Step S))
    (post : α → List (Step S) → Prop) :
    Obeys C (.done value) past post ↔ post value past := Iff.rfl

@[simp] theorem obeys_ask (call : S.Call) (next : Option (S.Answer call) → Program S α)
    (past : List (Step S)) (post : α → List (Step S) → Prop) :
    Obeys C (.ask call next) past post ↔
      C.allows past call ∧
        ∀ reply, C.credible ⟨call, reply⟩ → Obeys C (next reply) (⟨call, reply⟩ :: past) post :=
  Iff.rfl

theorem obeys_mono {p : Program S α} {past : List (Step S)}
    {post post' : α → List (Step S) → Prop} (obeys : Obeys C p past post)
    (weaker : ∀ value past', post value past' → post' value past') :
    Obeys C p past post' := by
  induction p generalizing past with
  | done value => exact weaker value past obeys
  | ask call next ih =>
      exact ⟨obeys.1, fun reply credible => ih reply (obeys.2 reply credible)⟩

@[simp] theorem obeys_bind (p : Program S α) (f : α → Program S β) (past : List (Step S))
    (post : β → List (Step S) → Prop) :
    Obeys C (p >>= f) past post ↔
      Obeys C p past fun value past' => Obeys C (f value) past' post := by
  induction p generalizing past with
  | done value => exact Iff.rfl
  | ask call next ih =>
      simp only [ask_bind, obeys_ask]
      exact and_congr_right fun _ => forall_congr' fun reply =>
        imp_congr_right fun _ => ih reply _

/-- A program only ever adds to its own past. -/
theorem obeys_extends {p : Program S α} {past : List (Step S)}
    {post : α → List (Step S) → Prop} (obeys : Obeys C p past post) :
    Obeys C p past fun value past' => post value past' ∧ past <:+ past' := by
  suffices extended : ∀ base, base <:+ past →
      Obeys C p past fun value past' => post value past' ∧ base <:+ past' from
    extended past (List.suffix_refl past)
  intro base suffix
  induction p generalizing past with
  | done value => exact ⟨obeys, suffix⟩
  | ask call next ih =>
      refine ⟨obeys.1, fun reply credible => ih reply (obeys.2 reply credible) ?_⟩
      exact suffix.trans (List.suffix_cons _ _)

/-! ## Part of the way -/

/-- What is left of a program after its own steps. -/
inductive After (p : Program S α) : List (Step S) → Program S α → Prop where
  | start : After p [] p
  | step {past : List (Step S)} {call : S.Call} {next : Option (S.Answer call) → Program S α}
      (reply : Option (S.Answer call)) :
      After p past (.ask call next) → After p (⟨call, reply⟩ :: past) (next reply)

/-- What is left of an obedient program is obedient. -/
theorem obeys_after {p q : Program S α} {past : List (Step S)}
    {post : α → List (Step S) → Prop} (obeys : Obeys C p [] post) (after : After p past q)
    (credible : ∀ step ∈ past, C.credible step) : Obeys C q past post := by
  induction after with
  | start => exact obeys
  | step reply _ ih =>
      obtain ⟨first, older⟩ := List.forall_mem_cons.mp credible
      exact (ih older).2 reply first

/-- Every step of an obedient program was allowed when it was taken. -/
theorem allowed_after {p q : Program S α} {past : List (Step S)}
    {post : α → List (Step S) → Prop} (obeys : Obeys C p [] post) (after : After p past q)
    (credible : ∀ step ∈ past, C.credible step) {step : Step S} {earlier : List (Step S)}
    (suffix : step :: earlier <:+ past) : C.allows earlier step.call := by
  induction after with
  | start => simp at suffix
  | step reply before ih =>
      have older := (List.forall_mem_cons.mp credible).2
      rcases List.suffix_cons_iff.mp suffix with whole | inside
      · cases whole
        exact (obeys_after obeys before older).1
      · exact ih older inside

/-- A laxer conduct is kept too. -/
theorem obeys_lax {D : Conduct S} {p : Program S α} {past : List (Step S)}
    {post : α → List (Step S) → Prop} (obeys : Obeys C p past post)
    (allows : ∀ past call, C.allows past call → D.allows past call)
    (credible : ∀ step, D.credible step → C.credible step) : Obeys D p past post := by
  induction p generalizing past with
  | done value => exact obeys
  | ask call next ih =>
      exact ⟨allows past call obeys.1, fun reply met => ih reply (obeys.2 reply (credible _ met))⟩

/-- Two conducts that are kept are kept at once. -/
theorem obeys_and {D : Conduct S} {p : Program S α} {past : List (Step S)}
    {post post' : α → List (Step S) → Prop} (first : Obeys C p past post)
    (second : Obeys D p past post') (credible : ∀ step, C.credible step → D.credible step) :
    Obeys (C.and D) p past post := by
  induction p generalizing past with
  | done value => exact first
  | ask call next ih =>
      refine ⟨⟨first.1, second.1⟩, fun reply met => ?_⟩
      exact ih reply (first.2 reply met) (second.2 reply (credible _ met))

section Exceptions

variable {ε : Type}

/-- Continue on a returned value or on an exception. -/
def handling (returned : α → List (Step S) → Prop) (thrown : ε → List (Step S) → Prop) :
    Except ε α → List (Step S) → Prop
  | .ok value, past => returned value past
  | .error error, past => thrown error past

@[simp] theorem handling_ok (returned : α → List (Step S) → Prop)
    (thrown : ε → List (Step S) → Prop) (value : α) (past : List (Step S)) :
    handling returned thrown (.ok value) past ↔ returned value past := Iff.rfl

@[simp] theorem handling_error (returned : α → List (Step S) → Prop)
    (thrown : ε → List (Step S) → Prop) (error : ε) (past : List (Step S)) :
    handling returned thrown (.error error) past ↔ thrown error past := Iff.rfl

@[simp] theorem obeys_run_pure (value : α) (past : List (Step S))
    (post : Except ε α → List (Step S) → Prop) :
    Obeys C (pure value : ExceptT ε (Program S) α).run past post ↔ post (.ok value) past :=
  Iff.rfl

@[simp] theorem obeys_run_throw (error : ε) (past : List (Step S))
    (post : Except ε α → List (Step S) → Prop) :
    Obeys C (throw error : ExceptT ε (Program S) α).run past post ↔ post (.error error) past :=
  Iff.rfl

@[simp] theorem obeys_run_bind (p : ExceptT ε (Program S) α) (f : α → ExceptT ε (Program S) β)
    (past : List (Step S)) (post : Except ε β → List (Step S) → Prop) :
    Obeys C (p >>= f).run past post ↔
      Obeys C p.run past (handling (fun value past' => Obeys C (f value).run past' post)
        fun error => post (.error error)) := by
  refine (obeys_bind p.run (ExceptT.bindCont f) past post).trans (iff_of_eq ?_)
  congr 1
  funext result past'
  cases result with
  | ok value => rfl
  | error error => rfl

@[simp] theorem obeys_run_perform (fault : ε) (call : S.Call) (past : List (Step S))
    (post : Except ε (S.Answer call) → List (Step S) → Prop) :
    Obeys C (perform fault call).run past post ↔
      C.allows past call ∧
        (∀ answer, C.credible ⟨call, some answer⟩ →
          post (.ok answer) (⟨call, some answer⟩ :: past)) ∧
        (C.credible ⟨call, none⟩ → post (.error fault) (⟨call, none⟩ :: past)) := by
  refine (obeys_ask call _ past post).trans (and_congr_right fun _ => ?_)
  constructor
  · intro each
    exact ⟨fun answer => each (some answer), each none⟩
  · rintro ⟨answered, threw⟩ reply
    cases reply with
    | none => exact threw
    | some answer => exact answered answer

@[simp] theorem obeys_run_tryCatch (p : ExceptT ε (Program S) α)
    (handler : ε → ExceptT ε (Program S) α) (past : List (Step S))
    (post : Except ε α → List (Step S) → Prop) :
    Obeys C (tryCatch p handler).run past post ↔
      Obeys C p.run past (handling (fun value => post (.ok value))
        fun error past' => Obeys C (handler error).run past' post) := by
  refine (obeys_bind p.run _ past post).trans (iff_of_eq ?_)
  congr 1
  funext result past'
  cases result with
  | ok value => rfl
  | error error => rfl

end Exceptions

/-! ## Whole runs -/

/-- The program ends in `value` after exactly these steps of its own, newest first. -/
def Ends (p : Program S α) (past : List (Step S)) (value : α) : Prop := After p past (.done value)

theorem after_ask {call : S.Call} {next : Option (S.Answer call) → Program S α}
    {past : List (Step S)} {q : Program S α} (after : After (.ask call next) past q) :
    (past = [] ∧ q = .ask call next) ∨
      ∃ reply newer, past = newer ++ [⟨call, reply⟩] ∧ After (next reply) newer q := by
  induction after with
  | start => exact .inl ⟨rfl, rfl⟩
  | step reply _ ih =>
      rcases ih with ⟨rfl, same⟩ | ⟨first, newer, rfl, rest⟩
      · cases same
        exact .inr ⟨reply, [], rfl, .start⟩
      · exact .inr ⟨first, _, rfl, rest.step reply⟩

theorem After.cons {call : S.Call} {next : Option (S.Answer call) → Program S α}
    {reply : Option (S.Answer call)} {past : List (Step S)} {q : Program S α}
    (after : After (next reply) past q) :
    After (.ask call next) (past ++ [⟨call, reply⟩]) q := by
  induction after with
  | start => exact .step reply .start
  | step last _ ih => exact ih.step last

theorem after_done {value : α} {past : List (Step S)} {q : Program S α}
    (after : After (.done value) past q) : past = [] ∧ q = .done value := by
  induction after with
  | start => exact ⟨rfl, rfl⟩
  | step reply _ ih => cases ih.2

@[simp] theorem ends_done {value result : α} {past : List (Step S)} :
    Ends (.done value) past result ↔ past = [] ∧ value = result := by
  constructor
  · intro ends
    obtain ⟨none, same⟩ := after_done ends
    exact ⟨none, (Program.done.inj same).symm⟩
  · rintro ⟨rfl, rfl⟩
    exact .start

@[simp] theorem ends_ask {call : S.Call} {next : Option (S.Answer call) → Program S α}
    {result : α} {past : List (Step S)} :
    Ends (.ask call next) past result ↔
      ∃ reply newer, past = newer ++ [⟨call, reply⟩] ∧ Ends (next reply) newer result := by
  constructor
  · intro ends
    rcases after_ask ends with ⟨-, wrong⟩ | found
    · cases wrong
    · exact found
  · rintro ⟨reply, newer, rfl, ends⟩
    exact ends.cons

theorem ends_bind {p : Program S α} {f : α → Program S β} {result : β} {past : List (Step S)} :
    Ends (p >>= f) past result ↔
      ∃ older newer value, past = newer ++ older ∧ Ends p older value ∧
        Ends (f value) newer result := by
  induction p generalizing past with
  | done value =>
      simp only [done_bind, ends_done]
      constructor
      · exact fun ends => ⟨[], past, value, by simp, ⟨rfl, rfl⟩, ends⟩
      · rintro ⟨older, newer, value', rfl, ⟨rfl, rfl⟩, ends⟩
        simpa using ends
  | ask call next ih =>
      simp only [ask_bind, ends_ask]
      constructor
      · rintro ⟨reply, newer, rfl, ends⟩
        obtain ⟨older, newest, value, rfl, first, second⟩ := (ih reply).mp ends
        exact ⟨older ++ [⟨call, reply⟩], newest, value, by simp, ⟨reply, older, rfl, first⟩, second⟩
      · rintro ⟨_, newer, value, rfl, ⟨reply, older, rfl, first⟩, second⟩
        refine ⟨reply, newer ++ older, by simp, ?_⟩
        exact (ih reply).mpr ⟨older, newer, value, rfl, first, second⟩

section Exceptions

variable {ε : Type}

/-- A call ends with its answer, or with the fault when it threw. -/
theorem ends_run_perform {fault : ε} {call : S.Call} {result : Except ε (S.Answer call)}
    {past : List (Step S)} :
    Ends (perform fault call).run past result ↔
      (∃ answer, result = .ok answer ∧ past = [⟨call, some answer⟩]) ∨
        (result = .error fault ∧ past = [⟨call, none⟩]) := by
  refine ends_ask.trans ⟨?_, ?_⟩
  · rintro ⟨reply, newer, rfl, answered⟩
    cases reply with
    | none =>
        obtain ⟨rfl, same⟩ := ends_done.mp answered
        exact .inr ⟨same.symm, rfl⟩
    | some answer =>
        obtain ⟨rfl, same⟩ := ends_done.mp answered
        exact .inl ⟨answer, same.symm, rfl⟩
  · rintro (⟨answer, rfl, rfl⟩ | ⟨rfl, rfl⟩)
    · exact ⟨some answer, [], rfl, ends_done.mpr ⟨rfl, rfl⟩⟩
    · exact ⟨none, [], rfl, ends_done.mpr ⟨rfl, rfl⟩⟩

/-- A sequence ends where its second part does, or where its first part threw. -/
theorem ends_run_bind {p : ExceptT ε (Program S) α} {f : α → ExceptT ε (Program S) β}
    {result : Except ε β} {past : List (Step S)} :
    Ends (p >>= f).run past result ↔
      (∃ older newer value, past = newer ++ older ∧ Ends p.run older (.ok value) ∧
        Ends (f value).run newer result) ∨
      ∃ error, result = .error error ∧ Ends p.run past (.error error) := by
  refine (ends_bind (p := p.run) (f := ExceptT.bindCont f)).trans ?_
  constructor
  · rintro ⟨older, newer, value, rfl, first, second⟩
    cases value with
    | ok value => exact .inl ⟨older, newer, value, rfl, first, second⟩
    | error error =>
        obtain ⟨rfl, rfl⟩ := ends_done.mp second
        exact .inr ⟨error, rfl, first⟩
  · rintro (⟨older, newer, value, rfl, first, second⟩ | ⟨error, rfl, first⟩)
    · exact ⟨older, newer, .ok value, rfl, first, second⟩
    · exact ⟨past, [], .error error, rfl, first, ends_done.mpr ⟨rfl, rfl⟩⟩

/-- A `try` ends where its body returned, or where its handler ends. -/
theorem ends_run_tryCatch {p : ExceptT ε (Program S) α} {handler : ε → ExceptT ε (Program S) α}
    {result : Except ε α} {past : List (Step S)} :
    Ends (tryCatch p handler).run past result ↔
      (∃ value, result = .ok value ∧ Ends p.run past (.ok value)) ∨
      ∃ older newer error, past = newer ++ older ∧ Ends p.run older (.error error) ∧
        Ends (handler error).run newer result := by
  refine (ends_bind (p := p.run)).trans ?_
  constructor
  · rintro ⟨older, newer, value, rfl, first, second⟩
    cases value with
    | ok value =>
        obtain ⟨rfl, rfl⟩ := ends_done.mp second
        exact .inl ⟨value, rfl, first⟩
    | error error => exact .inr ⟨older, newer, error, rfl, first, second⟩
  · rintro (⟨value, rfl, first⟩ | ⟨older, newer, error, rfl, first, second⟩)
    · exact ⟨past, [], .ok value, rfl, first, ends_done.mpr ⟨rfl, rfl⟩⟩
    · exact ⟨older, newer, .error error, rfl, first, second⟩

end Exceptions

/-! ## Running against a handler -/

/-- Interpret a program: the handler answers each call (`none`: it threw) and
moves the state. -/
def run (handle : σ → (call : S.Call) → Option (S.Answer call) × σ) :
    Program S α → σ → α × σ
  | .done value, s => (value, s)
  | .ask call next, s => run handle (next (handle s call).1) (handle s call).2

variable {handle : σ → (call : S.Call) → Option (S.Answer call) × σ}

@[simp] theorem run_done (value : α) (s : σ) : run handle (.done value) s = (value, s) := rfl

@[simp] theorem run_ask (call : S.Call) (next : Option (S.Answer call) → Program S α) (s : σ) :
    run handle (.ask call next) s = run handle (next (handle s call).1) (handle s call).2 := rfl

@[simp] theorem run_bind (p : Program S α) (f : α → Program S β) (s : σ) :
    run handle (p >>= f) s = run handle (f (run handle p s).1) (run handle p s).2 := by
  induction p generalizing s with
  | done value => rfl
  | ask call next ih => exact ih _ _

/-! Programs that may throw, run against a handler. -/

section Exceptions

variable {ε : Type}

/-- Go on where a run returned. -/
def andThen (first : Except ε α × σ) (next : α → σ → Except ε β × σ) : Except ε β × σ :=
  match first with
  | (.ok value, s) => next value s
  | (.error error, s) => (.error error, s)

/-- Go on where a run threw. -/
def orHandle (first : Except ε α × σ) (handler : ε → σ → Except ε α × σ) : Except ε α × σ :=
  match first with
  | (.ok value, s) => (.ok value, s)
  | (.error error, s) => handler error s

@[simp] theorem andThen_ok (value : α) (s : σ) (next : α → σ → Except ε β × σ) :
    andThen (.ok value, s) next = next value s := rfl

@[simp] theorem andThen_error (error : ε) (s : σ) (next : α → σ → Except ε β × σ) :
    andThen (.error error, s) next = (.error error, s) := rfl

@[simp] theorem orHandle_ok (value : α) (s : σ) (handler : ε → σ → Except ε α × σ) :
    orHandle (.ok value, s) handler = (.ok value, s) := rfl

@[simp] theorem orHandle_error (error : ε) (s : σ) (handler : ε → σ → Except ε α × σ) :
    orHandle (.error error, s) handler = handler error s := rfl

theorem of_andThen {first : Except ε α × σ} {next : α → σ → Except ε β × σ} {result : β} {s' : σ}
    (ran : andThen first next = (.ok result, s')) :
    ∃ value between, first = (.ok value, between) ∧ next value between = (.ok result, s') := by
  rcases first with ⟨error | value, between⟩
  · cases ran
  · exact ⟨value, between, rfl, ran⟩

theorem run_seq (p : ExceptT ε (Program S) α) (f : α → ExceptT ε (Program S) β) (s : σ) :
    run handle (p >>= f).run s =
      andThen (run handle p.run s) fun value s' => run handle (f value).run s' := by
  refine (run_bind p.run (ExceptT.bindCont f) s).trans ?_
  rcases run handle p.run s with ⟨_ | _, _⟩ <;> rfl

theorem run_tryCatch (p : ExceptT ε (Program S) α) (handler : ε → ExceptT ε (Program S) α)
    (s : σ) :
    run handle (tryCatch p handler).run s =
      orHandle (run handle p.run s) fun error s' => run handle (handler error).run s' := by
  refine (run_bind p.run _ s).trans ?_
  rcases run handle p.run s with ⟨_ | _, _⟩ <;> rfl

/-- A sequence that returned: each part returned. -/
theorem of_run_seq {p : ExceptT ε (Program S) α} {f : α → ExceptT ε (Program S) β} {s s' : σ}
    {result : β} (ran : run handle (p >>= f).run s = (.ok result, s')) :
    ∃ value between, run handle p.run s = (.ok value, between) ∧
      run handle (f value).run between = (.ok result, s') := by
  rw [run_seq] at ran
  exact of_andThen ran

end Exceptions

/-- A run is one way for a program to go on to its end, by replies that the handler gives. -/
theorem after_run (handle : σ → (call : S.Call) → Option (S.Answer call) × σ)
    (p : Program S α) (s : σ) : ∃ past, After p past (.done (run handle p s).1) ∧
      ∀ step ∈ past, ∃ at_, (handle at_ step.call).1 = step.reply := by
  suffices onward : ∀ q past, After p past q →
      (∀ step ∈ past, ∃ at_, (handle at_ step.call).1 = step.reply) →
      ∀ s, ∃ past', After p past' (.done (run handle q s).1) ∧
        ∀ step ∈ past', ∃ at_, (handle at_ step.call).1 = step.reply from
    onward p [] .start (fun _ none => nomatch none) s
  intro q
  induction q with
  | done value => exact fun past after replies _ => ⟨past, after, replies⟩
  | ask call next ih =>
      intro past after replies s
      exact ih _ _ (after.step _) (List.forall_mem_cons.mpr ⟨⟨s, rfl⟩, replies⟩) _

/-- Two runs, **related**: if the handler answers every allowed call alike in related
states and keeps them related, an obedient program gives the same result in both
runs, and the runs end related. -/
theorem run_related (R : List (Step S) → σ → σ → Prop)
    (sim : ∀ past s t call, R past s t → C.allows past call →
      (handle s call).1 = (handle t call).1 ∧ C.credible ⟨call, (handle s call).1⟩ ∧
        R (⟨call, (handle s call).1⟩ :: past) (handle s call).2 (handle t call).2)
    {p : Program S α} {past : List (Step S)} {post : α → List (Step S) → Prop} {s t : σ}
    (obeys : Obeys C p past post) (related : R past s t) :
    (run handle p s).1 = (run handle p t).1 ∧
      ∃ past', post (run handle p s).1 past' ∧
        R past' (run handle p s).2 (run handle p t).2 := by
  induction p generalizing past s t with
  | done value => exact ⟨rfl, past, obeys, related⟩
  | ask call next ih =>
      obtain ⟨same, credible, kept⟩ := sim past s t call related obeys.1
      simp only [run_ask]
      rw [← same]
      exact ih _ (obeys.2 _ credible) kept

/-- One run, **invariant**: if the handler answers every allowed call plausibly and keeps
`I`, an obedient program ends in its postcondition with `I` kept. -/
theorem run_obeys (I : List (Step S) → σ → Prop)
    (kept : ∀ past s call, I past s → C.allows past call →
      C.credible ⟨call, (handle s call).1⟩ ∧
        I (⟨call, (handle s call).1⟩ :: past) (handle s call).2)
    {p : Program S α} {past : List (Step S)} {post : α → List (Step S) → Prop} {s : σ}
    (obeys : Obeys C p past post) (inv : I past s) :
    ∃ past', post (run handle p s).1 past' ∧ I past' (run handle p s).2 := by
  induction p generalizing past s with
  | done value => exact ⟨past, obeys, inv⟩
  | ask call next ih =>
      obtain ⟨credible, inv'⟩ := kept past s call inv obeys.1
      exact ih _ (obeys.2 _ credible) inv'

end Program

end SdcoreNest.Theory
