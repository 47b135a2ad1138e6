/-
# Theory.Alone -- what can still be done from a reachable configuration

A configuration that was reached may go on by acts of a chosen kind only, and then the later one is
`Onward`.  The rule of this module is `Reach.alone`: one more thread, whose calls are all answered while
nothing else happens, comes to the end that `Program.run` computes.
-/
import SdcoreNest.Theory.Interleaving

namespace SdcoreNest.Theory.Machine

set_option autoImplicit false

variable {S : Signature} {M : Machine S}

/-- The later core comes after the earlier one by acts of the kind. -/
def Core.Onward (kind : Act M → Prop) (earlier later : Core M) : Prop :=
  ∃ events, later.history = events ++ earlier.history ∧ ∀ event ∈ events, kind event.act

section

variable {kind : Act M → Prop} {first second third : Core M}

theorem Core.Onward.refl (kind : Act M → Prop) (core : Core M) : core.Onward kind core :=
  ⟨[], rfl, fun _ member => by cases member⟩

theorem Core.Onward.trans (before : first.Onward kind second) (after : second.Onward kind third) :
    first.Onward kind third := by
  obtain ⟨events, grown, kinds⟩ := before
  obtain ⟨events', grown', kinds'⟩ := after
  refine ⟨events' ++ events, by rw [grown', grown, List.append_assoc], fun event member => ?_⟩
  rcases List.mem_append.mp member with new | old
  · exact kinds' event new
  · exact kinds event old

theorem Core.Onward.issue {worker : Worker} {call : S.Call} (core : Core M)
    (meets : kind (.issue .answer worker call)) : core.Onward kind (core.issue .answer worker call) := by
  refine ⟨[⟨.issue .answer worker call, core.world⟩], rfl, fun event member => ?_⟩
  obtain rfl := List.mem_singleton.mp member
  exact meets

theorem Core.Onward.move {m : M.Move} (core : Core M) (world : M.World) (meets : kind (.move m)) :
    core.Onward kind (core.move m world) := by
  refine ⟨[⟨.move m, core.world⟩], rfl, fun event member => ?_⟩
  obtain rfl := List.mem_singleton.mp member
  exact meets

end

/-- Every call of the worker is answered. -/
def answering (M : Machine S) (worker : Worker) (world : M.World) (call : S.Call) :
    Option (S.Answer call) × M.World :=
  (some (M.exec world worker call).1, (M.exec world worker call).2)

section

variable {α Op : Type} {launch : Op → Program S α} {ok : Core M → Act M → Prop} {kind : Act M → Prop}
  {initial : M.World}

/-- A thread that goes on alone comes to its end. -/
theorem Reach.onwards (free : ∀ core worker call, ok core (.issue .answer worker call))
    (calm : ∀ worker call, kind (.issue .answer worker call)) {number : Nat} {worker : Worker} {op : Op}
    {program : Program S α} : ∀ {config : Config M α Op}, Reach launch ok initial config →
      config.threads number = some ⟨worker, op, program⟩ →
        ∃ config', Reach launch ok initial config' ∧ config.core.Onward kind config'.core ∧
          config'.threads number =
            some ⟨worker, op, .done (Program.run (M.answering worker) program config.core.world).1⟩ ∧
          config'.core.world = (Program.run (M.answering worker) program config.core.world).2 := by
  induction program with
  | done value => exact fun {config} reached found => ⟨config, reached, .refl kind _, found, rfl⟩
  | ask call next ih =>
      intro config reached found
      obtain ⟨config', reached', stepped, -, found'⟩ := reached.answer found (free _ _ _)
      obtain ⟨config'', reached'', onward, ended, left⟩ := ih _ reached' found'
      refine ⟨config'', reached'', ?_, ?_, ?_⟩
      · refine Core.Onward.trans ?_ onward
        rw [stepped]
        exact .issue _ (calm _ _)
      · rw [ended, stepped]
        rfl
      · rw [left, stepped]
        rfl

/-- **One more thread**, alone from start to end. -/
theorem Reach.alone (free : ∀ core worker call, ok core (.issue .answer worker call))
    (calm : ∀ worker call, kind (.issue .answer worker call)) {config : Config M α Op}
    (reached : Reach launch ok initial config) (process : Nat) (op : Op) :
    ∃ config', Reach launch ok initial config' ∧ config.core.Onward kind config'.core ∧
      config'.threads config.size = some ⟨⟨process, config.size⟩, op,
        .done (Program.run (M.answering ⟨process, config.size⟩) (launch op) config.core.world).1⟩ ∧
      config'.core.world =
        (Program.run (M.answering ⟨process, config.size⟩) (launch op) config.core.world).2 := by
  obtain ⟨spawned, reached', same, -, found⟩ := reached.spawn process op
  obtain ⟨config', reached'', onward, ended, left⟩ := Reach.onwards free calm reached' found
  rw [same] at onward ended left
  exact ⟨config', reached'', onward, ended, left⟩

end

end SdcoreNest.Theory.Machine
