/-
# Publication.Descriptors -- both halves agree on what a descriptor says

The coordinator derives the target and the hash of an intent from its binding and source; `verify`
accepts an intent when it carries what would be derived.  The storage recomputes the hash over
objects it builds itself.

* `descriptorText_inj` -- the hashed text says all of binding, source and target;
* `verify_iff` -- what `verify` accepts is what is derived;
* `run_backed` -- a run touches the storage for a derived intent only;
* `expected_of_derived` -- the storage accepts what the coordinator derives.
-/
import SdcoreNest.Publication.Storage
import SdcoreNest.Publication.Targets

namespace SdcoreNest.Publication

open SdcoreNest.Theory SdcoreNest.Theory.JsString

set_option autoImplicit false

/-! ## The hashed text -/

/-- What the descriptor hash is taken of. -/
def descriptorText (binding : Binding) (source : Source) (target : Target) : JsString :=
  jsonObject [("binding", binding.json), ("source", source.json), ("target", target.json)]

theorem Binding.json_delimits {binding other : Binding} {rest others : JsString}
    (same : binding.json ++ rest = other.json ++ others) : binding = other ∧ rest = others := by
  simp only [Binding.json, jsonObject, joinWith, List.map_cons, List.map_nil, List.intersperse_cons_cons,
    List.intersperse_singleton, List.flatten_cons, List.flatten_nil, List.append_assoc, List.append_nil,
    List.append_cancel_left_eq] at same
  obtain ⟨environments, same⟩ := quote_delimits same
  simp only [List.append_cancel_left_eq] at same
  obtain ⟨modules, same⟩ := quote_delimits same
  simp only [List.append_cancel_left_eq] at same
  obtain ⟨scopes, same⟩ := quote_delimits same
  simp only [List.append_cancel_left_eq] at same
  obtain ⟨ids, same⟩ := quote_delimits same
  simp only [List.append_cancel_left_eq] at same
  obtain ⟨generations, same⟩ := quote_delimits same
  simp only [List.append_cancel_left_eq] at same
  refine ⟨?_, same⟩
  cases binding
  cases other
  simp only [Binding.mk.injEq]
  exact ⟨environments, modules, scopes, ids, generations⟩

theorem Target.json_delimits {target other : Target} {rest others : JsString}
    (same : target.json ++ rest = other.json ++ others) : target = other ∧ rest = others := by
  simp only [Target.json, jsonObject, joinWith, List.map_cons, List.map_nil, List.intersperse_cons_cons,
    List.intersperse_singleton, List.flatten_cons, List.flatten_nil, List.append_assoc, List.append_nil,
    List.append_cancel_left_eq] at same
  obtain ⟨keys, same⟩ := quote_delimits same
  simp only [List.append_cancel_left_eq] at same
  obtain ⟨urls, same⟩ := quote_delimits same
  simp only [List.append_cancel_left_eq] at same
  refine ⟨?_, same⟩
  cases target
  cases other
  simp only [Target.mk.injEq]
  exact ⟨keys, urls⟩

/-- A size that `publicationSource` accepts. -/
def IsSize (size : JsNumber) : Prop := ∃ n : Nat, size = .finite n

theorem isSize_of_publicationSource {source : Source} (checked : publicationSource source = .ok source) :
    IsSize source.size := by
  unfold publicationSource at checked
  split at checked
  · cases checked
  case isFalse refused =>
      simp only [not_or] at refused
      obtain ⟨-, -, -, -, safe, positive, -⟩ := refused
      cases size : source.size with
      | finite value =>
          simp [size, JsNumber.isSafeInteger] at safe
          simp [size, JsNumber.le, JsNumber.lt] at positive
          have whole : (value.num : ℚ) = value := Rat.coe_int_num_of_den_eq_one safe.1
          have above : 0 ≤ value.num := Rat.num_nonneg.mpr positive.2
          refine ⟨value.num.toNat, ?_⟩
          rw [← whole]
          congr 1
          exact_mod_cast (Int.toNat_of_nonneg above).symm
      | infinity negative => simp [size, JsNumber.isSafeInteger] at safe
      | nan => simp [size, JsNumber.isSafeInteger] at safe

theorem sizeText_natCast (n : Nat) : sizeText (.finite n) = Text.units (Text.decimal n) := by
  have digits : (toString (n : ℤ)).toList = Text.decimal n := by
    show (Nat.repr n).toList = Nat.toDigits 10 n
    simp
  rw [sizeText, Rat.num_natCast, js, digits]
  rfl

theorem comma_not_mem_units_decimal (n : Nat) : (0x2C : UInt16) ∉ Text.units (Text.decimal n) := by
  intro inside
  obtain ⟨c, member, unit⟩ := List.mem_flatMap.mp inside
  have digit := Nat.isDigit_of_mem_toDigits (by omega) (by omega) member
  obtain ⟨low, high⟩ : 48 ≤ c.toNat ∧ c.toNat ≤ 57 := by
    simpa [Char.isDigit, UInt32.le_iff_toNat_le] using digit
  have numbers := List.mem_map_of_mem (f := UInt16.toNat) unit
  rw [Text.rankOf, if_pos (by omega), List.mem_singleton] at numbers
  have comma : (0x2C : UInt16).toNat = 44 := rfl
  omega

/-- A size shows where it ends. -/
theorem sizeText_delimits {size other : JsNumber} (isSize : IsSize size) (isSize' : IsSize other)
    {rest others : JsString} (same : sizeText size ++ js "," ++ rest = sizeText other ++ js "," ++ others) :
    size = other ∧ rest = others := by
  obtain ⟨n, rfl⟩ := isSize
  obtain ⟨m, rfl⟩ := isSize'
  rw [sizeText_natCast, sizeText_natCast, List.append_assoc, List.append_assoc] at same
  obtain ⟨digits, tails⟩ := append_mark_inj (comma_not_mem_units_decimal n) (comma_not_mem_units_decimal m)
    (show Text.units (Text.decimal n) ++ 0x2C :: rest = Text.units (Text.decimal m) ++ 0x2C :: others from same)
  have ranks : Text.rank (Text.decimal n) = Text.rank (Text.decimal m) := congrArg (List.map UInt16.toNat) digits
  rw [Text.decimal_injective (Text.rank_injective ranks)]
  exact ⟨rfl, tails⟩

theorem Source.json_delimits {source other : Source} (checked : publicationSource source = .ok source)
    (checked' : publicationSource other = .ok other) {rest others : JsString}
    (same : source.json ++ rest = other.json ++ others) : source = other ∧ rest = others := by
  simp only [Source.json, jsonObject, joinWith, List.map_cons, List.map_nil, List.intersperse_cons_cons,
    List.intersperse_singleton, List.flatten_cons, List.flatten_nil, List.append_assoc, List.append_nil,
    List.append_cancel_left_eq] at same
  obtain ⟨ids, same⟩ := quote_delimits same
  simp only [List.append_cancel_left_eq] at same
  obtain ⟨versions, same⟩ := quote_delimits same
  simp only [List.append_cancel_left_eq] at same
  obtain ⟨locators, same⟩ := quote_delimits same
  simp only [List.append_cancel_left_eq] at same
  obtain ⟨digests, same⟩ := quote_delimits same
  simp only [List.append_cancel_left_eq] at same
  rw [← List.append_assoc, ← List.append_assoc (sizeText other.size)] at same
  obtain ⟨sizes, same⟩ := sizeText_delimits (isSize_of_publicationSource checked)
    (isSize_of_publicationSource checked') same
  simp only [List.append_cancel_left_eq] at same
  obtain ⟨types, same⟩ := quote_delimits same
  simp only [List.append_cancel_left_eq] at same
  refine ⟨?_, same⟩
  cases source
  cases other
  simp only [Source.mk.injEq]
  exact ⟨ids, versions, locators, digests, sizes, types⟩

/-- The hashed text says all of binding, source and target. -/
theorem descriptorText_inj {binding binding' : Binding} {source source' : Source} {target target' : Target}
    (checked : publicationSource source = .ok source) (checked' : publicationSource source' = .ok source')
    (same : descriptorText binding source target = descriptorText binding' source' target') :
    binding = binding' ∧ source = source' ∧ target = target' := by
  simp only [descriptorText, jsonObject, joinWith, List.map_cons, List.map_nil, List.intersperse_cons_cons,
    List.intersperse_singleton, List.flatten_cons, List.flatten_nil, List.append_assoc, List.append_nil,
    List.append_cancel_left_eq] at same
  obtain ⟨bindings, same⟩ := Binding.json_delimits same
  simp only [List.append_cancel_left_eq] at same
  obtain ⟨sources, same⟩ := Source.json_delimits checked checked' same
  simp only [List.append_cancel_left_eq] at same
  exact ⟨bindings, sources, (Target.json_delimits same).1⟩

/-! ## What `verify` accepts -/

/-- The intent carries what the coordinator derives from its binding and source. -/
structure Derived (platform : Platform) (config : Config) (intent : Intent) : Prop where
  accepted : Accepted platform config intent.binding intent.source intent.target
  hash : intent.descriptorHash = descriptor platform intent.binding intent.source intent.target

/-- The id and the time are those of an intent. -/
structure Labelled (intent : Intent) : Prop where
  id : part intent.id = .ok intent.id
  safe : intent.createdAt.isSafeInteger = true
  nonnegative : intent.createdAt.lt (.finite 0) = false

section Verify

variable {platform : Platform} {config : Config} {input intent : Intent}

/-- What is accepted is returned, and is what is derived. -/
theorem verify_iff : verify platform config input = .ok intent ↔
    intent = input ∧ Derived platform config input ∧ Labelled input := by
  constructor
  · intro passed
    have same := verify_eq passed
    unfold verify at passed
    obtain ⟨binding, first, passed⟩ := of_bind_ok passed
    obtain ⟨source, second, passed⟩ := of_bind_ok passed
    obtain ⟨target, third, passed⟩ := of_bind_ok passed
    split at passed
    · cases passed
    case isFalse fits =>
        obtain ⟨id, fourth, -⟩ := of_bind_ok passed
        obtain rfl := authorizedBinding_eq first
        obtain rfl := publicationSource_eq second
        simp only [not_or, not_not, Bool.not_eq_true, Bool.not_eq_false'] at fits
        obtain ⟨rfl, safe, nonnegative, hash⟩ := fits
        have fourth : part input.id = .ok input.id := by rw [fourth, part_eq fourth]
        exact ⟨same, ⟨⟨first, second, third⟩, hash⟩, fourth, safe, nonnegative⟩
  · rintro ⟨rfl, derived, labelled⟩
    have passes : ¬(intent.target ≠ intent.target ∨ !intent.createdAt.isSafeInteger ∨
        intent.createdAt.lt (.finite 0) ∨
        intent.descriptorHash ≠ descriptor platform intent.binding intent.source intent.target) := by
      simp [labelled.safe, labelled.nonnegative, derived.hash]
    rw [verify, derived.accepted.authorized]
    simp only [bind, Except.bind, derived.accepted.checked, derived.accepted.computed, if_neg passes,
      labelled.id]
    rfl

/-- Intents with the same hash say the same. -/
theorem Derived.ext {other : Intent} (derived : Derived platform config intent)
    (derived' : Derived platform config other) {texts : Set JsString}
    (injective : Set.InjOn platform.publicationHash texts)
    (hashed : descriptorText intent.binding intent.source intent.target ∈ texts)
    (hashed' : descriptorText other.binding other.source other.target ∈ texts)
    (same : intent.descriptorHash = other.descriptorHash) :
    intent.binding = other.binding ∧ intent.source = other.source ∧ intent.target = other.target := by
  rw [derived.hash, derived'.hash] at same
  exact descriptorText_inj derived.accepted.checked derived'.accepted.checked
    (injective hashed hashed' same)

end Verify

/-! ## What the coordinator does with what the repository returns -/

section Runs

variable (coordinator : Coordinator)

/-- The repository returned this intent with a claim, and it is derived. -/
def Claimed (past : Past) (intent : Intent) : Prop :=
  (∃ id token now leaseUntil work, answered (.claim id token now leaseUntil) (some work) ∈ past ∧
    work.intent = intent) ∧ Derived coordinator.platform coordinator.config intent

/-- Intents are staged, and the storage is touched, only as they are derived. -/
def derivedOnly : Conduct sig where
  allows past call := match call with
    | .call (.stage intent) => coordinator.verify intent = .ok intent
    | .call (.inspect intent) => Claimed coordinator past intent
    | .call (.publish intent) => Claimed coordinator past intent
    | .call (.removeExact intent) => Claimed coordinator past intent
    | _ => True
  credible _ := True

variable {coordinator} {past : Past} {α : Type}

theorem Claimed.later {past' : Past} {intent : Intent} (claimed : Claimed coordinator past intent)
    (longer : past <:+ past') : Claimed coordinator past' intent := by
  obtain ⟨⟨id, token, now, leaseUntil, work, member, same⟩, derived⟩ := claimed
  exact ⟨⟨id, token, now, leaseUntil, work, longer.subset member, same⟩, derived⟩

theorem call_derived {port : Port} {f : port.Answer → Job α} {post : α → Past → Prop}
    (allows : (derivedOnly coordinator).allows past (.call port))
    (each : ∀ answer, Follows (derivedOnly coordinator) (f answer) (answered port answer :: past)
      (returning post)) :
    Follows (derivedOnly coordinator) (call port >>= f) past (returning post) := by
  rw [follows_bind]
  refine ⟨allows, fun reply _ => ?_⟩
  cases reply with
  | none => exact trivial
  | some outcome =>
      cases outcome with
      | ok answer => exact each answer
      | error fault => exact trivial

/-- A last call. -/
theorem call_derived' {port : Port} (allows : (derivedOnly coordinator).allows past (.call port)) :
    Follows (derivedOnly coordinator) (call port) past
      (returning fun answer past' => past' = answered port answer :: past) := by
  refine ⟨allows, fun reply _ => ?_⟩
  cases reply with
  | none => exact trivial
  | some outcome =>
      cases outcome with
      | ok answer => exact rfl
      | error fault => exact trivial

theorem clock_derived {f : JsNumber → Job α} {post : α → Past → Prop}
    (each : ∀ now, Follows (derivedOnly coordinator) (f now) (⟨.clock, some now⟩ :: past)
      (returning post)) : Follows (derivedOnly coordinator) (clock >>= f) past (returning post) :=
  Follows.ask_bind trivial (fun now _ => each now) fun _ => trivial

theorem newId_derived {f : JsString → Job α} {post : α → Past → Prop}
    (each : ∀ id, Follows (derivedOnly coordinator) (f id) (⟨.newId, some id⟩ :: past)
      (returning post)) : Follows (derivedOnly coordinator) (newId >>= f) past (returning post) :=
  Follows.ask_bind trivial (fun id _ => each id) fun _ => trivial

theorem aborted_derived {f : Bool → Job α} {post : α → Past → Prop}
    (each : ∀ stopped, Follows (derivedOnly coordinator) (f stopped) (⟨.aborted, some stopped⟩ :: past)
      (returning post)) : Follows (derivedOnly coordinator) (aborted >>= f) past (returning post) :=
  Follows.ask_bind trivial (fun stopped _ => each stopped) fun _ => trivial

/-- What a stage that succeeds rests on: the resolved assignment, and a stored intent with the
hash of the one built of it. -/
def StagedBy (coordinator : Coordinator) (id : JsString) (past : Past) : Prop :=
  ∃ binding source intent stored, answered .resolve (.publicFile binding source) ∈ past ∧
    answered (.stage intent) stored ∈ past ∧ stored.id = id ∧ intent.binding = binding ∧
    intent.source = source ∧ Derived coordinator.platform coordinator.config intent ∧
    Derived coordinator.platform coordinator.config stored ∧
    stored.descriptorHash = intent.descriptorHash

theorem stage_derived : Follows (derivedOnly coordinator) coordinator.stage []
    (returning fun staged past => ∀ id, staged = .publicFile id → StagedBy coordinator id past) := by
  unfold Coordinator.stage
  refine call_derived trivial fun resolved => ?_
  cases resolved with
  | privateFile binding =>
      refine Follows.check_bind (fun checked _ => ?_) fun _ => trivial
      refine call_derived trivial fun _ => ?_
      exact fun id => Staged.noConfusion
  | other binding =>
      refine Follows.check_bind (fun checked _ => ?_) fun _ => trivial
      exact trivial
  | publicFile binding source =>
      refine Follows.check_bind (fun checked authorized => ?_) fun _ => trivial
      obtain rfl := authorizedBinding_eq authorized
      refine Follows.check_bind (fun checkedSource isSource => ?_) fun _ => trivial
      obtain rfl := publicationSource_eq isSource
      refine Follows.check_bind (fun target computed => ?_) fun _ => trivial
      refine newId_derived fun id => clock_derived fun createdAt => ?_
      refine Follows.check_bind (fun intent verified => ?_) fun _ => trivial
      obtain ⟨rfl, derived, labelled⟩ := verify_iff.mp verified
      refine call_derived verified fun stored => ?_
      refine Follows.check_bind (fun checkedStored verifiedStored => ?_) fun _ => trivial
      obtain ⟨rfl, derivedStored, -⟩ := verify_iff.mp verifiedStored
      split
      · exact trivial
      case isFalse same =>
          intro id' isId
          cases isId
          refine ⟨_, _, _, checkedStored, ?_, List.mem_cons_self, rfl, rfl, rfl, derived, derivedStored,
            not_not.mp same⟩
          simp

/-- What `project` returns rests on an intent of the repository that is derived. -/
theorem project_derived (binding : Binding) : Follows (derivedOnly coordinator) (coordinator.project binding) []
    (returning fun result past => ∀ url, result.1 = some url →
      ∃ intent, answered (.readCurrent binding) (some (intent, .ready)) ∈ past ∧
        Derived coordinator.platform coordinator.config intent ∧ intent.binding = binding ∧
        url = intent.target.url) := by
  unfold Coordinator.project
  refine Follows.check_bind (fun checked authorized => ?_) fun _ => trivial
  obtain rfl := authorizedBinding_eq authorized
  refine call_derived trivial fun row => ?_
  cases row with
  | none =>
      intro url isUrl
      cases isUrl
  | some row =>
      obtain ⟨given, state⟩ := row
      refine Follows.check_bind (fun intent verified => ?_) fun _ => trivial
      obtain ⟨rfl, derived, -⟩ := verify_iff.mp verified
      split
      · exact trivial
      case isFalse same =>
          intro url isUrl
          by_cases ready : state = .ready
          · subst ready
            simp only [if_true, Option.some.injEq] at isUrl
            exact ⟨intent, List.mem_cons_self, derived, not_not.mp same, isUrl.symm⟩
          · simp only [if_neg ready] at isUrl
            cases isUrl

/-! ### One run -/

theorem within_derived {body : Job α} {post : α → Past → Prop}
    (begun : ∀ past', past <:+ past' → Follows (derivedOnly coordinator) body past' (returning post)) :
    Follows (derivedOnly coordinator) (Coordinator.within body) past (returning post) := by
  unfold Coordinator.within
  refine aborted_derived fun stopped => ?_
  cases stopped with
  | true => exact trivial
  | false =>
      refine aborted_derived fun stopped => ?_
      cases stopped with
      | true => exact trivial
      | false => exact begun _ ((List.suffix_cons _ _).trans (List.suffix_cons _ _))

theorem within_call_derived {port : Port}
    (allows : ∀ past', past <:+ past' → (derivedOnly coordinator).allows past' (.call port)) :
    Follows (derivedOnly coordinator) (Coordinator.within (call port)) past anyhow :=
  within_derived fun past' longer => (call_derived' (allows past' longer)).mono
    fun result _ _ _ => by cases result <;> trivial

variable {owned : Lease}

theorem record_derived (state : State) (code : String) :
    Follows (derivedOnly coordinator) (coordinator.record owned state code) past anyhow := by
  refine within_derived fun past' _ => clock_derived fun now => ?_
  exact Follows.mono (call_derived' trivial) fun result _ _ _ => by cases result <;> trivial

theorem recorded_derived (state : State) (code : String) (result : Result) :
    Follows (derivedOnly coordinator) (coordinator.recorded owned state code result) past anyhow :=
  Follows.seq _ (record_derived state code) (fun _ _ _ _ => trivial) fun _ _ _ => trivial

theorem acknowledge_derived :
    Follows (derivedOnly coordinator) (coordinator.acknowledge owned) past anyhow := by
  unfold Coordinator.acknowledge
  refine Follows.seq (fun _ _ => True) (within_derived fun past' _ => clock_derived fun now => ?_) ?_
    fun _ _ _ => trivial
  · exact Follows.mono (call_derived' trivial) fun result _ _ _ => by cases result <;> trivial
  · intro answer past' _ _
    cases answer with
    | ready => exact trivial
    | lost => exact trivial
    | other => exact trivial
    | stale => exact recorded_derived _ _ _

theorem remove_derived (claimed : Claimed coordinator past owned.intent) :
    Follows (derivedOnly coordinator) (coordinator.remove owned) past anyhow := by
  unfold Coordinator.remove
  refine Follows.seq _ (within_call_derived fun past' longer => claimed.later longer) ?_ fun _ _ _ => trivial
  intro answer past' _ _
  cases answer with
  | unknown => exact recorded_derived _ _ _
  | acknowledged => exact recorded_derived _ _ _

theorem write_derived (claimed : Claimed coordinator past owned.intent) :
    Follows (derivedOnly coordinator) (coordinator.write owned) past anyhow := by
  unfold Coordinator.write
  refine Follows.seq _ (within_call_derived fun _ _ => trivial) ?_ fun _ _ _ => trivial
  intro current past' longer _
  cases current with
  | false => exact recorded_derived _ _ _
  | true =>
      refine Follows.seq _ (within_call_derived fun past'' further =>
        claimed.later (longer.trans further)) ?_ fun _ _ _ => trivial
      intro written past'' _ _
      cases written with
      | unknown => exact recorded_derived _ _ _
      | acknowledged => exact acknowledge_derived

theorem inspected_derived (claimed : Claimed coordinator past owned.intent) :
    Follows (derivedOnly coordinator) (coordinator.inspected owned) past anyhow := by
  unfold Coordinator.inspected
  refine Follows.seq _ (within_call_derived fun past' longer => claimed.later longer) ?_ fun _ _ _ => trivial
  intro observed past' longer _
  cases observed with
  | conflict => exact recorded_derived _ _ _
  | unknown => exact recorded_derived _ _ _
  | other => exact trivial
  | matching =>
      simp only
      split
      · exact remove_derived (claimed.later longer)
      · exact acknowledge_derived
  | absent =>
      simp only
      split
      · exact recorded_derived _ _ _
      · exact write_derived (claimed.later longer)

theorem work_derived (claimed : Claimed coordinator past owned.intent) :
    Follows (derivedOnly coordinator) (coordinator.work owned) past anyhow := by
  unfold Coordinator.work
  refine clock_derived fun now => ?_
  have claimed := claimed.later (List.suffix_cons (⟨.clock, some now⟩ : Step sig) past)
  split
  · exact trivial
  · split
    · refine Follows.seq _ (within_call_derived fun _ _ => trivial) ?_ fun _ _ _ => trivial
      intro current past' longer _
      cases current with
      | false => exact recorded_derived _ _ _
      | true => exact inspected_derived (claimed.later longer)
    · exact inspected_derived claimed

theorem claimWork_derived (intentId : JsString) (now : JsNumber) :
    Follows (derivedOnly coordinator) (coordinator.claimWork intentId now) past
      (returning fun result past' => ∀ owned, result = .inr owned →
        Claimed coordinator past' owned.intent) := by
  unfold Coordinator.claimWork
  refine Follows.seq (fun answer past' => ∀ work, answer = some work → ∃ id token now leaseUntil,
    answered (.claim id token now leaseUntil) (some work) ∈ past')
    (within_derived fun past' _ => newId_derived fun token => ?_) ?_ fun _ _ _ => trivial
  · refine Follows.check_bind (fun token _ => ?_) fun _ => trivial
    refine Follows.mono (call_derived' trivial) fun result past'' _ settled => ?_
    cases result with
    | error fault => exact trivial
    | ok answer =>
        obtain rfl : past'' = _ := settled
        rintro work rfl
        exact ⟨_, _, _, _, List.mem_cons_self⟩
  · intro answer past' _ found
    cases answer with
    | none =>
        intro owned isOwned
        cases isOwned
    | some work =>
        refine Follows.check_bind (fun intent verified => ?_) fun _ => trivial
        obtain ⟨rfl, derived, -⟩ := verify_iff.mp verified
        split
        · exact trivial
        · refine Follows.check_bind (fun token _ => ?_) fun _ => trivial
          intro owned isOwned
          cases isOwned
          obtain ⟨id, token, now, leaseUntil, member⟩ := found work rfl
          exact ⟨⟨id, token, now, leaseUntil, work, member, rfl⟩, derived⟩

theorem run_derived (intentId : JsString) :
    Follows (derivedOnly coordinator) (coordinator.run intentId) [] anyhow := by
  unfold Coordinator.run
  refine Follows.check_bind (fun _ _ => ?_) fun _ => trivial
  refine clock_derived fun now => ?_
  refine Follows.seq (fun claimed past' => ∀ owned, claimed = .inr owned →
    Claimed coordinator past' owned.intent) ?_ ?_ fun _ _ _ => trivial
  · refine Follows.guarding (claimWork_derived intentId now) (fun _ _ _ => id) fun fault past' _ => ?_
    cases fault with
    | other =>
        intro owned isOwned
        cases isOwned
    | publication code =>
        simp only [Coordinator.unowned]
        split
        · exact trivial
        · intro owned isOwned
          cases isOwned
  · intro claimed past' _ backed
    cases claimed with
    | inl result => exact trivial
    | inr owned =>
        refine Follows.catching (work_derived (backed owned rfl)) (fun _ _ _ => trivial) fun _ past'' _ => ?_
        unfold Coordinator.recover
        refine aborted_derived fun stopped => ?_
        cases stopped with
        | true => exact trivial
        | false =>
            refine Follows.catching ?_ (fun _ _ _ => trivial) fun _ _ _ => trivial
            exact Follows.seq _ (record_derived _ _) (fun _ _ _ _ => trivial) fun _ _ _ => trivial

end Runs

/-! ## What the storage accepts -/

theorem mapM_encoded {segments path : List JsString}
    (each : List.Forall₂ (fun segment text => encodeURIComponent segment = some text) segments path) :
    segments.mapM encoded = .ok path := by
  induction each with
  | nil => rfl
  | cons first _ ih =>
      rw [List.mapM_cons, ih, encoded, first]
      rfl

theorem Segment.isKeyPart {part : JsString} (segment : Segment part) : isKeyPart part = true := by
  simp [Publication.isKeyPart, segment.nonempty, segment.dot, segment.dots, segment.plain,
    segment.printable]

/-- The size of a source that was accepted. -/
theorem size_of_publicationSource {source : Source} (checked : publicationSource source = .ok source) :
    source.size.isSafeInteger = true ∧ source.size.lt (.finite 1) = false := by
  obtain ⟨n, isSize⟩ := isSize_of_publicationSource checked
  unfold publicationSource at checked
  split at checked
  · cases checked
  case isFalse refused =>
      simp only [not_or] at refused
      obtain ⟨-, -, -, -, safe, positive, -⟩ := refused
      refine ⟨by simpa using safe, ?_⟩
      rw [isSize] at positive ⊢
      have nonzero : n ≠ 0 := by
        rintro rfl
        exact positive (by simp [JsNumber.le])
      simpa [JsNumber.lt] using nonzero

theorem type_of_publicationSource {source : Source} (checked : publicationSource source = .ok source) :
    isContentType source.contentType = true ∧ source.version ≠ [] := by
  unfold publicationSource at checked
  split at checked
  · cases checked
  case isFalse refused =>
      simp only [not_or] at refused
      obtain ⟨-, -, -, -, -, -, type⟩ := refused
      obtain ⟨id, -, checked⟩ := of_bind_ok checked
      obtain ⟨version, isVersion, -⟩ := of_bind_ok checked
      exact ⟨by simpa using type, (of_part isVersion).1.nonempty⟩

/-- The storage accepts what the coordinator derives, under the same base, and expects the same. -/
theorem expected_of_derived {storage : Storage} {config : Config} {intent : Intent}
    (hex : storage.platform.HexDigests)
    (base : publicationCdnBase storage.platform config.cdnBaseUrl = .ok storage.cdnBaseUrl)
    (derived : Derived storage.platform config intent)
    (fits : storage.maxBytes.lt intent.source.size = false) :
    storage.expected intent = .ok ⟨intent.descriptorHash, intent.source.sha256, intent.source.version,
      intent.source.size, intent.source.contentType, storage.profileId⟩ := by
  obtain ⟨layout⟩ := derived.accepted.layout hex
  have binding : publicationBinding intent.binding = .ok intent.binding := by
    obtain ⟨checked, isBinding, -⟩ := of_bind_ok derived.accepted.authorized
    rw [isBinding, publicationBinding_eq isBinding]
  have parts := layout.splitOn_key
  have wellFormed : ¬(intent.target.key = [] ∨ !layout.segments.all isKeyPart) := by
    rw [not_or]
    constructor
    · intro empty
      rw [empty] at parts
      exact (layout.segment [] (parts ▸ List.mem_singleton_self _)).nonempty rfl
    · have all : layout.segments.all isKeyPart = true :=
        List.all_eq_true.mpr fun part inside => (layout.segment part inside).isKeyPart
      simp [all]
  have sameBase : layout.base = storage.cdnBaseUrl := by
    have same := layout.base_eq
    rw [base] at same
    exact (Except.ok.inj same).symm
  obtain ⟨safe, positive⟩ := size_of_publicationSource derived.accepted.checked
  obtain ⟨type, version⟩ := type_of_publicationSource derived.accepted.checked
  have digest := of_publicationSource derived.accepted.checked
  have passes : ¬(intent.target.url ≠ storage.cdnBaseUrl ++ [slash] ++ joinWith [slash] layout.path ∨
      !intent.source.size.isSafeInteger ∨ intent.source.size.lt (.finite 1) ∨
      storage.maxBytes.lt intent.source.size ∨ !isSha256 intent.source.sha256 ∨
      intent.source.version = [] ∨ !isContentType intent.source.contentType ∨
      intent.descriptorHash ≠
        descriptor storage.platform intent.binding intent.source intent.target) := by
    simp [layout.url_eq, sameBase, safe, positive, fits, digest, version, type, derived.hash]
  rw [Storage.expected, binding]
  simp only [bind, Except.bind, derived.accepted.checked, if_neg wellFormed, parts,
    mapM_encoded layout.path_eq, if_neg passes]
  rfl

theorem of_createStorage {platform : Platform} {digest : Bytes → JsString} {profile : DeliveryProfile}
    {maxBytes : Option JsNumber} {storage : Storage}
    (built : createUploadedFilePublicationStorage platform digest profile maxBytes = .ok storage) :
    storage.platform = platform ∧ storage.profileId = profile.id ∧
      publicationCdnBase platform profile.cdnBaseUrl = .ok storage.cdnBaseUrl := by
  unfold createUploadedFilePublicationStorage at built
  obtain ⟨base, isBase, built⟩ := of_bind_ok built
  split at built
  · cases built
  · simp only at built
    split at built
    · cases built
    · cases built
      exact ⟨rfl, rfl, isBase⟩

/-! ## Agreement -/

/-- Intents built of an accepted binding and source are verified unchanged, and so is what was
verified; a stage that succeeds, a call to the storage and a URL rest on values of the repository that
carry what is derived; and a storage under the same base expects of a verified intent what it says. -/
theorem descriptors_agree (coordinator : Coordinator) (hex : coordinator.platform.HexDigests)
    {texts : Set JsString} (injective : Set.InjOn coordinator.platform.publicationHash texts) :
    (∀ id binding source target createdAt,
      Accepted coordinator.platform coordinator.config binding source target → part id = .ok id →
      createdAt.isSafeInteger = true → createdAt.lt (.finite 0) = false →
      coordinator.verify ⟨id, binding, source, target,
          descriptor coordinator.platform binding source target, createdAt⟩ =
        .ok ⟨id, binding, source, target,
          descriptor coordinator.platform binding source target, createdAt⟩) ∧
    (∀ input intent, coordinator.verify input = .ok intent →
      intent = input ∧ coordinator.verify intent = .ok intent) ∧
    (∀ past rest, coordinator.stage.run.After past rest → ∀ intent reply earlier,
      (⟨.call (.stage intent), reply⟩ : Step sig) :: earlier <:+ past →
        coordinator.verify intent = .ok intent) ∧
    (∀ past id, coordinator.stage.run.Ends past (.ok (.publicFile id)) →
      ∃ binding source intent stored, answered .resolve (.publicFile binding source) ∈ past ∧
        answered (.stage intent) stored ∈ past ∧ stored.id = id ∧
        Derived coordinator.platform coordinator.config stored ∧
        (descriptorText binding source intent.target ∈ texts →
          descriptorText stored.binding stored.source stored.target ∈ texts →
          stored.binding = binding ∧ stored.source = source)) ∧
    (∀ intentId past rest, (coordinator.run intentId).run.After past rest →
      ∀ step earlier, step :: earlier <:+ past → ∀ intent,
        (step.call = .call (.inspect intent) ∨ step.call = .call (.publish intent) ∨
          step.call = .call (.removeExact intent)) → Claimed coordinator earlier intent) ∧
    (∀ binding past url state,
      (coordinator.project binding).run.Ends past (.ok (some url, state)) →
      ∃ intent, answered (.readCurrent binding) (some (intent, .ready)) ∈ past ∧
        Derived coordinator.platform coordinator.config intent ∧ intent.binding = binding ∧
        url = intent.target.url) ∧
    ∀ digest profile maxBytes storage input intent,
      createUploadedFilePublicationStorage coordinator.platform digest profile maxBytes = .ok storage →
      publicationCdnBase coordinator.platform profile.cdnBaseUrl =
        publicationCdnBase coordinator.platform coordinator.config.cdnBaseUrl →
      coordinator.verify input = .ok intent → storage.maxBytes.lt intent.source.size = false →
      storage.expected intent = .ok ⟨intent.descriptorHash, intent.source.sha256, intent.source.version,
        intent.source.size, intent.source.contentType, profile.id⟩ := by
  refine ⟨?_, ?_, ?_, ?_, ?_, ?_, ?_⟩
  · intro id binding source target createdAt accepted isId safe nonnegative
    exact verify_iff.mpr ⟨rfl, ⟨accepted, rfl⟩, isId, safe, nonnegative⟩
  · intro input intent passed
    obtain rfl := verify_eq passed
    exact ⟨rfl, passed⟩
  · intro past rest after intent reply earlier inside
    exact Program.allowed_after stage_derived after (fun _ _ => trivial) inside
  · intro past id ends
    obtain ⟨binding, source, intent, stored, resolved, staged, isId, rfl, rfl, derived, derivedStored, same⟩ :=
      Program.obeys_after stage_derived ends (fun _ _ => trivial) id rfl
    refine ⟨intent.binding, intent.source, intent, stored, resolved, staged, isId, derivedStored, ?_⟩
    intro hashed hashed'
    obtain ⟨bindings, sources, -⟩ := derivedStored.ext derived injective hashed' hashed same
    exact ⟨bindings, sources⟩
  · intro intentId past rest after step earlier inside intent touched
    have allowed := Program.allowed_after (run_derived intentId) after (fun _ _ => trivial) inside
    rcases touched with isCall | isCall | isCall
    · rwa [isCall] at allowed
    · rwa [isCall] at allowed
    · rwa [isCall] at allowed
  · intro binding past url state ends
    exact Program.obeys_after (project_derived binding) ends (fun _ _ => trivial) url rfl
  · intro digest profile maxBytes storage input intent built sameBase passed fits
    obtain ⟨isPlatform, isProfile, isBase⟩ := of_createStorage built
    obtain ⟨rfl, derived, -⟩ := verify_iff.mp passed
    rw [← isPlatform] at hex isBase sameBase derived
    rw [← isProfile]
    exact expected_of_derived hex (sameBase ▸ isBase) derived fits

/-! ### Poles -/

def smallProfile : DeliveryProfile := ⟨js "profile", some (js "https://cdn.example.test"), true⟩

theorem small_hex : smallPlatform.HexDigests := by
  intro text
  simp only [smallPlatform]
  split <;> decide +kernel

/-- Ports that resolve one file, and stage its intent. -/
def smallAnswers (state : Unit) : (call : Call) → Option call.Answer × Unit
  | .clock => (some (.finite 0), state)
  | .newId => (some (js "i"), state)
  | .aborted => (some false, state)
  | .call .resolve => (some (.ok (.publicFile smallBinding smallSource)), state)
  | .call (.stage intent) => (if intent = smallIntent then some (.ok smallIntent) else none, state)
  | .call _ => (none, state)

/-- What is hashed of the intent: its descriptor and its logical name. -/
def smallTexts : Set JsString :=
  {descriptorText smallBinding smallSource smallIntent.target, smallBinding.identityText}

theorem smallTexts_injective : Set.InjOn smallCoordinator.platform.publicationHash smallTexts := by
  have apart : smallCoordinator.platform.publicationHash
      (descriptorText smallBinding smallSource smallIntent.target) ≠
        smallCoordinator.platform.publicationHash smallBinding.identityText := by decide +kernel
  rintro text (rfl | rfl) text' (rfl | rfl) same
  · rfl
  · exact absurd same apart
  · exact absurd same.symm apart
  · rfl

/-- The file is staged under its binding and source, and the storage of the same CDN expects of the
intent what it says. -/
theorem smallIntent_staged :
    createUploadedFilePublicationStorage smallPlatform (fun _ => smallSha256) smallProfile
        (some (.finite 100)) = .ok smallStorage ∧
      smallStorage.expected smallIntent = .ok smallMetadata ∧
      ∃ past stored, smallCoordinator.stage.run.Ends past (.ok (.publicFile (js "i"))) ∧
        answered (.stage smallIntent) stored ∈ past ∧ stored.binding = smallBinding ∧
        stored.source = smallSource := by
  have built : createUploadedFilePublicationStorage smallPlatform (fun _ => smallSha256) smallProfile
      (some (.finite 100)) = .ok smallStorage := by
    have base : publicationCdnBase smallPlatform smallProfile.cdnBaseUrl =
        .ok (js "https://cdn.example.test") := by decide +kernel
    rw [createUploadedFilePublicationStorage, base]
    simp only [bind, Except.bind]
    rw [if_neg (by decide +kernel), if_neg (by decide +kernel)]
    rfl
  have passed : smallCoordinator.verify smallIntent = .ok smallIntent := by decide +kernel
  obtain ⟨-, -, -, staged, -, -, expects⟩ :=
    descriptors_agree smallCoordinator small_hex smallTexts_injective
  refine ⟨built, expects (fun _ => smallSha256) smallProfile (some (.finite 100)) smallStorage smallIntent
    smallIntent built rfl passed (by decide +kernel), ?_⟩
  obtain ⟨past, ends, replies⟩ :=
    Program.after_run (S := sig) smallAnswers smallCoordinator.stage.run ()
  have ended : (Program.run (S := sig) smallAnswers smallCoordinator.stage.run ()).1 =
      .ok (.publicFile (js "i")) := by decide +kernel
  rw [ended] at ends
  obtain ⟨binding, source, intent, stored, resolves, stages, -, -, agree⟩ := staged past _ ends
  obtain ⟨_, resolved⟩ := replies _ resolves
  obtain ⟨rfl, rfl⟩ := Resolution.publicFile.inj (Except.ok.inj (Option.some.inj resolved))
  obtain ⟨_, replied⟩ := replies _ stages
  obtain ⟨rfl, answer⟩ := Option.ite_none_right_eq_some.mp replied
  obtain rfl := Except.ok.inj (Option.some.inj answer)
  exact ⟨past, smallIntent, ends, stages, agree (.inl rfl) (.inl rfl)⟩

end SdcoreNest.Publication
