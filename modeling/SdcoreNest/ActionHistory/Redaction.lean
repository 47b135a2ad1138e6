/-
# ActionHistory.Redaction -- what a snapshot shows of redacted values

Two graphs agree when they differ only in values under redacted keys and paths.  The walk looks
at no such value in an object, so it treats agreeing graphs alike; in an array it never asks,
and a listed element is stored.
-/
import SdcoreNest.ActionHistory.Budget

namespace SdcoreNest.ActionHistory

open SdcoreNest.Theory SdcoreNest.Theory.JsString

set_option autoImplicit false

/-! ## Graphs that differ in redacted values only -/

section

variable (toLowerCase : JsString → JsString) (security : ActionHistorySecurityOptions)
  (related : JsString → Ref → Ref → Prop)

/-- Equal, or objects that are related where they are met. -/
inductive ValuesAlike (path : JsString) : Value → Value → Prop
  | primitive (value : Primitive) : ValuesAlike path (.primitive value) (.primitive value)
  | object {ref other : Ref} (same : related path ref other) :
      ValuesAlike path (.object ref) (.object other)

/-- Data under a redacted key or path may be anything. -/
inductive DescriptorsAlike (path key : JsString) : Descriptor → Descriptor → Prop
  | accessor : DescriptorsAlike path key .accessor .accessor
  | visible {value other : Value} (same : ValuesAlike related (childPath path key) value other) :
      DescriptorsAlike path key (.data value) (.data other)
  | redacted {value other : Value} (hidden : redacts toLowerCase security key (childPath path key) = true) :
      DescriptorsAlike path key (.data value) (.data other)

inductive PropertiesAlike (path : JsString) : Property → Property → Prop
  | enumerable {key : JsString} {first second : Descriptor}
      (same : DescriptorsAlike toLowerCase security related path key first second) :
      PropertiesAlike path ⟨.string key, true, first⟩ ⟨.string key, true, second⟩
  | hidden {key : PropertyKey} {first second : Descriptor} :
      PropertiesAlike path ⟨key, false, first⟩ ⟨key, false, second⟩
  | symbol {id : Nat} {first second : Descriptor} :
      PropertiesAlike path ⟨.symbol id, true, first⟩ ⟨.symbol id, true, second⟩

/-- An element of an array, under its index as a key. -/
def ElementsAlike (path : JsString) (first second : Nat × Descriptor) : Prop :=
  first.1 = second.1 ∧
    DescriptorsAlike toLowerCase security related path (indexText first.1) first.2 second.2

inductive ObjectsAlike (path : JsString) : HeapObject → HeapObject → Prop
  | date (time : Option Int) : ObjectsAlike path (.date time) (.date time)
  | array {first second : ArrayObject} (long : first.length = second.length)
      (elements : List.Forall₂ (ElementsAlike toLowerCase security related path) first.elements
        second.elements)
      (extras : first.extras.map Property.enumerable = second.extras.map Property.enumerable) :
      ObjectsAlike path (.array first) (.array second)
  | plain {first second : PlainObject}
      (properties : List.Forall₂ (PropertiesAlike toLowerCase security related path) first.properties
        second.properties) :
      ObjectsAlike path (.plain first) (.plain second)

/-- What is visible of two graphs is the same, sharing included; `related` says which objects
correspond, and on which paths. -/
structure Alike (first second : Graph) : Prop where
  root : ValuesAlike related [] first.root second.root
  unique : ∀ {path path' ref other ref' other'}, related path ref other → related path' ref' other' →
    (ref = ref' ↔ other = other')
  objects : ∀ {path ref other}, related path ref other →
    ObjectsAlike toLowerCase security related path (first.heap ref) (second.heap other)

/-- The graphs differ in redacted values only. -/
def Agree (first second : Graph) : Prop := ∃ related, Alike toLowerCase security related first second

end

/-! ## The way to a value -/

/-- One step down: a key of an object or an index of an array. -/
inductive Step where
  | key (text : JsString)
  | element (index : Nat)

def Step.text : Step → JsString
  | .key text => text
  | .element index => indexText index

/-- The path after some steps. -/
def follow (path : JsString) (steps : List Step) : JsString :=
  steps.foldl (fun path step => childPath path step.text) path

/-- The bytes that the paths before the last one are charged for. -/
def pathBytes : JsString → List Step → Nat
  | _, [] => 0
  | path, step :: rest => byteLength path + pathBytes (childPath path step.text) rest

section

variable (toLowerCase : JsString → JsString) (security : ActionHistorySecurityOptions)

/-- A step that a walk takes: not redacted, and one that some object has. -/
def Step.Open (path : JsString) (step : Step) : Prop :=
  redacts toLowerCase security step.text (childPath path step.text) = false ∧
    match step with
    | .key text => text ∉ UNSAFE_SNAPSHOT_KEYS
    | .element index => index < 2 ^ 32 - 1

/-- Every step is open on its path. -/
def Open : JsString → List Step → Prop
  | _, [] => True
  | path, step :: rest => step.Open toLowerCase security path ∧ Open (childPath path step.text) rest

/-- No element of an array is redacted by its index or its path, wherever a walk can meet one
within the limits. -/
def ElementsVisible : Prop :=
  ∀ (steps : List Step) (index : Nat), Open toLowerCase security [] steps → index < 2 ^ 32 - 1 →
    steps.length + 1 ≤ MAX_SNAPSHOT_DEPTH →
    pathBytes [] steps + byteLength (follow [] steps) +
      byteLength (childPath (follow [] steps) (indexText index)) ≤ MAX_SNAPSHOT_UTF8_BYTES →
    redacts toLowerCase security (indexText index) (childPath (follow [] steps) (indexText index)) = false

end

theorem follow_concat (path : JsString) (steps : List Step) (step : Step) :
    follow path (steps ++ [step]) = childPath (follow path steps) step.text := by
  rw [follow, List.foldl_append]
  rfl

theorem pathBytes_concat (path : JsString) (steps : List Step) (step : Step) :
    pathBytes path (steps ++ [step]) = pathBytes path steps + byteLength (follow path steps) := by
  induction steps generalizing path with
  | nil =>
      rw [List.nil_append, pathBytes, pathBytes, pathBytes, Nat.zero_add]
      rfl
  | cons first rest ih =>
      rw [List.cons_append, pathBytes, ih, pathBytes, Nat.add_assoc]
      rfl

section

variable {toLowerCase : JsString → JsString} {security : ActionHistorySecurityOptions}

theorem open_concat {path : JsString} {steps : List Step} {step : Step}
    (first : Open toLowerCase security path steps)
    (last : step.Open toLowerCase security (follow path steps)) :
    Open toLowerCase security path (steps ++ [step]) := by
  induction steps generalizing path with
  | nil => exact ⟨last, trivial⟩
  | cons other rest ih => exact ⟨first.1, ih first.2 last⟩

/-- A walk that is charged for the way to a value stands at it. -/
def At (toLowerCase : JsString → JsString) (security : ActionHistorySecurityOptions)
    (path : JsString) (depth : Nat) (state : Traversal) : Prop :=
  ∃ steps, Open toLowerCase security [] steps ∧ follow [] steps = path ∧ steps.length = depth ∧
    pathBytes [] steps ≤ state.utf8Bytes

/-- The same once the value itself was charged. -/
def Within (toLowerCase : JsString → JsString) (security : ActionHistorySecurityOptions)
    (path : JsString) (depth : Nat) (state : Traversal) : Prop :=
  ∃ steps, Open toLowerCase security [] steps ∧ follow [] steps = path ∧ steps.length = depth ∧
    pathBytes [] steps + byteLength path ≤ state.utf8Bytes

theorem Within.grow {path : JsString} {depth : Nat} {before after : Traversal}
    (inside : Within toLowerCase security path depth before)
    (grows : before.utf8Bytes ≤ after.utf8Bytes) : Within toLowerCase security path depth after := by
  obtain ⟨steps, opens, led, long, spent⟩ := inside
  exact ⟨steps, opens, led, long, spent.trans grows⟩

theorem Within.child {path : JsString} {depth : Nat} {state : Traversal} {step : Step}
    (inside : Within toLowerCase security path depth state)
    (last : step.Open toLowerCase security path) :
    At toLowerCase security (childPath path step.text) (depth + 1) state := by
  obtain ⟨steps, opens, rfl, rfl, spent⟩ := inside
  refine ⟨steps ++ [step], open_concat opens last, follow_concat [] steps step, ?_, ?_⟩
  · rw [List.length_append, List.length_singleton]
  · rwa [pathBytes_concat]

theorem At.charged {path : JsString} {depth : Nat} {before after : Traversal} {value : Value}
    (here : At toLowerCase security path depth before)
    (passed : consume value path depth before = .ok after) :
    Within toLowerCase security path depth after := by
  obtain ⟨steps, opens, led, long, spent⟩ := here
  refine ⟨steps, opens, led, long, ?_⟩
  rw [(of_consume_ok passed).1]
  simp only
  omega

/-! ## Agreeing graphs have one outcome -/

/-- Equal counters, and corresponding objects were met by both or by neither. -/
structure Similar (same : Ref → Ref → Prop) (state other : Traversal) : Prop where
  nodes : state.nodes = other.nodes
  bytes : state.utf8Bytes = other.utf8Bytes
  seen : ∀ {ref ref' : Ref}, same ref ref' → (ref ∈ state.seen ↔ ref' ∈ other.seen)

inductive SameOutcome (same : Ref → Ref → Prop) {α : Type} :
    Except SnapshotError (α × Traversal) → Except SnapshotError (α × Traversal) → Prop
  | error (fault : SnapshotError) : SameOutcome same (.error fault) (.error fault)
  | ok (result : α) {state other : Traversal} (similar : Similar same state other) :
      SameOutcome same (.ok (result, state)) (.ok (result, other))

theorem SameOutcome.bind {same : Ref → Ref → Prop} {α β : Type}
    {first second : Except SnapshotError (α × Traversal)}
    {next next' : α × Traversal → Except SnapshotError (β × Traversal)}
    (outcome : SameOutcome same first second)
    (later : ∀ result state other, Similar same state other → first = .ok (result, state) →
      SameOutcome same (next (result, state)) (next' (result, other))) :
    SameOutcome same (first >>= next) (second >>= next') := by
  cases outcome with
  | error fault => exact .error fault
  | ok result similar => exact later result _ _ similar rfl

theorem consume_similar {same : Ref → Ref → Prop} {state other : Traversal}
    (similar : Similar same state other) (value : Value) (path : JsString) (depth : Nat)
    {value' : Value} (bytes : stringBytes value = stringBytes value') :
    (consume value path depth state = .error .limit ∧ consume value' path depth other = .error .limit) ∨
      ∃ spent spent', consume value path depth state = .ok spent ∧
        consume value' path depth other = .ok spent' ∧ Similar same spent spent' := by
  unfold consume
  simp only [similar.nodes, similar.bytes, bytes]
  split
  · exact .inl ⟨rfl, rfl⟩
  · exact .inr ⟨_, _, rfl, rfl, ⟨rfl, rfl, similar.seen⟩⟩

section

variable {related : JsString → Ref → Ref → Prop}

/-- Objects that correspond on some path. -/
def Corresponds (related : JsString → Ref → Ref → Prop) (ref other : Ref) : Prop :=
  ∃ path, related path ref other

/-- The visits of the level below treat alike values alike. -/
def VisitsAlike (toLowerCase : JsString → JsString) (security : ActionHistorySecurityOptions)
    (related : JsString → Ref → Ref → Prop) (depth : Nat) (visit visit' : Visit) : Prop :=
  ∀ {value value' : Value} {path : JsString} {state other : Traversal},
    ValuesAlike related path value value' → Similar (Corresponds related) state other →
    At toLowerCase security path (depth + 1) state →
      SameOutcome (Corresponds related) (visit value path state) (visit' value' path other)

/-- Where the budget is spent both visits refuse, whatever the value. -/
def Refuse (depth : Nat) (visit visit' : Visit) : Prop :=
  ∃ fault, ∀ (value : Value) (path : JsString) (state : Traversal),
    MAX_SNAPSHOT_DEPTH < depth + 1 ∨ MAX_SNAPSHOT_UTF8_BYTES < state.utf8Bytes + byteLength path →
      visit value path state = .error fault ∧ visit' value path state = .error fault

theorem walkElements_similar (visible : ElementsVisible toLowerCase security) {depth : Nat}
    {visit visit' : Visit} (alike : VisitsAlike toLowerCase security related depth visit visit')
    (refuse : Refuse depth visit visit') (charges : Charges depth visit) {path : JsString}
    {elements elements' : List (Nat × Descriptor)}
    (same : List.Forall₂ (ElementsAlike toLowerCase security related path) elements elements')
    (small : ∀ element ∈ elements, element.1 < 2 ^ 32 - 1) {state other : Traversal}
    (similar : Similar (Corresponds related) state other)
    (inside : Within toLowerCase security path depth state) :
    SameOutcome (Corresponds related) (walkElements visit path elements state)
      (walkElements visit' path elements' other) := by
  induction same generalizing state other with
  | nil => exact .ok Branches.none similar
  | @cons element element' rest rest' first _ ih =>
      obtain ⟨index, descriptor⟩ := element
      obtain ⟨index', descriptor'⟩ := element'
      obtain ⟨sameIndex, first⟩ := first
      simp only at sameIndex first
      subst sameIndex
      have below : index < 2 ^ 32 - 1 := small (index, descriptor) List.mem_cons_self
      have later : ∀ {middle middle' : Traversal}, Similar (Corresponds related) middle middle' →
          Within toLowerCase security path depth middle →
          SameOutcome (Corresponds related) (walkElements visit path rest middle)
            (walkElements visit' path rest' middle') :=
        ih fun element inside => small element (.tail _ inside)
      have descend {value value' : Value}
          (outcome : SameOutcome (Corresponds related) (visit value (childPath path (indexText index)) state)
            (visit' value' (childPath path (indexText index)) other)) :
          SameOutcome (Corresponds related) (walkElements visit path ((index, .data value) :: rest) state)
            (walkElements visit' path ((index, .data value') :: rest') other) := by
        refine outcome.bind fun child middle middle' close visited => ?_
        refine (later close (inside.grow (charges visited).grows)).bind fun branches last last' near _ => ?_
        exact .ok _ near
      -- a redacted element is out of reach, by the condition
      by_cases hidden :
        redacts toLowerCase security (indexText index) (childPath path (indexText index)) = true
      · cases first with
        | accessor => exact .error _
        | _ =>
            obtain ⟨fault, refused⟩ := refuse
            obtain ⟨steps, opens, rfl, rfl, spent⟩ := inside
            have full : MAX_SNAPSHOT_DEPTH < steps.length + 1 ∨ MAX_SNAPSHOT_UTF8_BYTES <
                state.utf8Bytes + byteLength (childPath (follow [] steps) (indexText index)) := by
              by_contra room
              rw [not_or, not_lt, not_lt] at room
              have shown := visible steps index opens below room.1 (by omega)
              rw [hidden] at shown
              cases shown
            have full' := full
            rw [similar.bytes] at full'
            refine descend ?_
            rw [(refused _ _ _ full).1, (refused _ _ _ full').2]
            exact .error fault
      · have opened : (Step.element index).Open toLowerCase security path :=
          ⟨Bool.eq_false_iff.mpr hidden, below⟩
        cases first with
        | accessor => exact .error _
        | visible same => exact descend (alike same similar (inside.child opened))
        | redacted hidden' => exact absurd hidden' hidden

theorem walkChild_similar {depth : Nat} {visit visit' : Visit}
    (alike : VisitsAlike toLowerCase security related depth visit visit') {path key : JsString}
    {value value' : Value}
    (same : DescriptorsAlike toLowerCase security related path key (.data value) (.data value'))
    (safe : key ∉ UNSAFE_SNAPSHOT_KEYS) {state other : Traversal}
    (similar : Similar (Corresponds related) state other)
    (inside : Within toLowerCase security path depth state) :
    SameOutcome (Corresponds related) (walkChild toLowerCase visit security path depth key value state)
      (walkChild toLowerCase visit' security path depth key value' other) := by
  unfold walkChild
  by_cases hidden : redacts toLowerCase security key (childPath path key) = true
  · rw [if_pos hidden, if_pos hidden]
    rcases consume_similar similar (.primitive .undefined) (childPath path key) (depth + 1) rfl with
      ⟨first, second⟩ | ⟨spent, spent', first, second, close⟩
    · rw [first, second]
      exact .error _
    · rw [first, second]
      exact .ok _ close
  · rw [if_neg hidden, if_neg hidden]
    cases same with
    | visible same =>
        have opened : (Step.key key).Open toLowerCase security path := ⟨Bool.eq_false_iff.mpr hidden, safe⟩
        exact alike same similar (inside.child opened)
    | redacted hidden' => exact absurd hidden' hidden

theorem walkProperties_similar {depth : Nat} {visit visit' : Visit}
    (alike : VisitsAlike toLowerCase security related depth visit visit')
    (charges : Charges depth visit) {path : JsString} {properties properties' : List Property}
    (same : List.Forall₂ (PropertiesAlike toLowerCase security related path) properties properties')
    {state other : Traversal} (similar : Similar (Corresponds related) state other)
    (inside : Within toLowerCase security path depth state) :
    SameOutcome (Corresponds related)
      (walkProperties toLowerCase visit security path depth properties state)
      (walkProperties toLowerCase visit' security path depth properties' other) := by
  induction same generalizing state other with
  | nil => exact .ok Branches.none similar
  | @cons property property' rest rest' first _ ih =>
      cases first with
      | hidden => exact ih similar inside
      | symbol => exact .error _
      | @enumerable key first second descriptors =>
          have data {value value' : Value} (same : DescriptorsAlike toLowerCase security related path key
              (.data value) (.data value')) : SameOutcome (Corresponds related)
              (walkProperties toLowerCase visit security path depth
                (⟨.string key, true, .data value⟩ :: rest) state)
              (walkProperties toLowerCase visit' security path depth
                (⟨.string key, true, .data value'⟩ :: rest') other) := by
            rw [walkProperties_data, walkProperties_data]
            by_cases safe : UNSAFE_SNAPSHOT_KEYS.contains key = true
            · rw [if_pos safe, if_pos safe]
              exact .error _
            · rw [if_neg safe, if_neg safe]
              have safe' : key ∉ UNSAFE_SNAPSHOT_KEYS := by simpa using safe
              refine (walkChild_similar alike same safe' similar inside).bind
                fun child middle middle' close visited => ?_
              have grows := (walkChild_charged charges visited).grows
              refine (ih close (inside.grow grows)).bind fun branches last last' near _ => ?_
              exact .ok _ near
          cases descriptors with
          | accessor => exact .error _
          | visible same => exact data (.visible same)
          | redacted hidden => exact data (.redacted hidden)

theorem below_refuse (heap heap' : Heap) (fuel depth : Nat) :
    Refuse depth (below toLowerCase security heap fuel depth)
      (below toLowerCase security heap' fuel depth) := by
  cases fuel with
  | zero => exact ⟨.unfinished, fun _ _ _ _ => ⟨rfl, rfl⟩⟩
  | succ fuel =>
      refine ⟨.limit, fun value path state full => ⟨?_, ?_⟩⟩
      · exact walk_refused (consume_of_full full)
      · exact walk_refused (consume_of_full full)

theorem extras_alike {extras extras' : List Property}
    (same : extras.map Property.enumerable = extras'.map Property.enumerable) :
    extras.any Property.enumerable = extras'.any Property.enumerable := by
  have any (list : List Property) : list.any Property.enumerable =
      (list.map Property.enumerable).any id := by
    rw [List.any_map]
    rfl
  rw [any, any, same]

/-- The walks of agreeing graphs go the same way. -/
theorem walk_similar (visible : ElementsVisible toLowerCase security) {first second : Graph}
    (agree : Alike toLowerCase security related first second) {fuel : Nat} :
    ∀ {depth : Nat} {value value' : Value} {path : JsString} {state other : Traversal},
      ValuesAlike related path value value' → Similar (Corresponds related) state other →
      At toLowerCase security path depth state →
        SameOutcome (Corresponds related)
          (walk toLowerCase security first.heap fuel value path depth state)
          (walk toLowerCase security second.heap fuel value' path depth other) := by
  induction fuel with
  | zero => exact fun _ _ _ => .error _
  | succ fuel ih =>
      intro depth value value' path state other same similar here
      have bytes : stringBytes value = stringBytes value' := by cases same <;> rfl
      rcases consume_similar similar value path depth bytes with
        ⟨full, full'⟩ | ⟨spent, spent', charged, charged', close⟩
      · rw [walk_refused full, walk_refused full']
        exact .error _
      have inside := here.charged charged
      have alike : VisitsAlike toLowerCase security related depth
          (below toLowerCase security first.heap fuel depth)
          (below toLowerCase security second.heap fuel depth) := ih
      have charges : Charges depth (below toLowerCase security first.heap fuel depth) :=
        fun passed => walk_charged passed
      cases same with
      | primitive value =>
          rw [walk_primitive charged, walk_primitive charged']
          exact .ok _ close
      | @object ref ref' met =>
          have corresponds : Corresponds related ref ref' := ⟨path, met⟩
          have marked : Similar (Corresponds related) (spent.mark ref) (spent'.mark ref') := by
            refine ⟨close.nodes, close.bytes, fun {later later'} found => ?_⟩
            obtain ⟨path', found⟩ := found
            have identical := agree.unique found met
            rw [Traversal.mark, Traversal.mark, List.mem_cons, List.mem_cons, identical,
              close.seen ⟨path', found⟩]
          have objects := agree.objects met
          generalize stored : first.heap ref = object at objects
          generalize stored' : second.heap ref' = object' at objects
          cases objects with
          | date time =>
              rw [walk_date charged stored, walk_date charged' stored']
              cases time with
              | none => exact .error _
              | some time => exact .ok _ close
          | @array array array' long elements extras =>
              by_cases seen : ref ∈ spent.seen
              · have seen' := (close.seen corresponds).mp seen
                rw [walk_again charged (fun time date => by rw [stored] at date; cases date) seen,
                  walk_again charged' (fun time date => by rw [stored'] at date; cases date) seen']
                exact .ok _ close
              · have seen' := (close.seen corresponds).not.mp seen
                rw [walk_array charged stored seen, walk_array charged' stored' seen']
                have small : ∀ element ∈ array.elements, element.1 < 2 ^ 32 - 1 := fun element listed =>
                  Nat.lt_of_lt_of_le (array.inside element listed) (Nat.le_pred_of_lt array.short)
                have walked := walkElements_similar visible alike (below_refuse _ _ fuel depth) charges
                  elements small marked inside
                refine walked.bind fun branches last last' near _ => ?_
                rw [extras_alike extras, long]
                split
                · exact .error _
                · exact .ok _ near
          | @plain object object' properties =>
              by_cases seen : ref ∈ spent.seen
              · have seen' := (close.seen corresponds).mp seen
                rw [walk_again charged (fun time date => by rw [stored] at date; cases date) seen,
                  walk_again charged' (fun time date => by rw [stored'] at date; cases date) seen']
                exact .ok _ close
              · have seen' := (close.seen corresponds).not.mp seen
                rw [walk_plain charged stored seen, walk_plain charged' stored' seen']
                have walked := walkProperties_similar alike charges properties marked inside
                exact walked.bind fun branches last last' near _ => .ok _ near

end

/-- Agreeing graphs have one outcome, where no element of an array is redacted. -/
theorem sanitizeSnapshot_congr (bare : security.redactSnapshot = none)
    (visible : ElementsVisible toLowerCase security) {first second : Graph}
    (agree : Agree toLowerCase security first second) :
    sanitizeSnapshot toLowerCase security first = sanitizeSnapshot toLowerCase security second := by
  obtain ⟨related, alike⟩ := agree
  have start : Similar (Corresponds related) ⟨0, 0, []⟩ ⟨0, 0, []⟩ :=
    ⟨rfl, rfl, fun _ => iff_of_false List.not_mem_nil List.not_mem_nil⟩
  have here : At toLowerCase security [] 0 ⟨0, 0, []⟩ := ⟨[], trivial, rfl, rfl, Nat.le_refl 0⟩
  have outcome :=
    @walk_similar _ _ _ visible _ _ alike (MAX_SNAPSHOT_DEPTH + 2) _ _ _ _ _ _ alike.root start here
  have roots : first.root = .primitive .undefined ↔ second.root = .primitive .undefined := by
    have same := alike.root
    generalize first.root = value at same
    generalize second.root = value' at same
    cases same <;> simp
  simp only [sanitizeSnapshot, sanitizeWithin, bare, Option.map_none, Option.getD_none]
  by_cases empty : first.root = .primitive .undefined
  · rw [if_pos empty, if_pos (roots.mp empty)]
  · rw [if_neg empty, if_neg (roots.not.mp empty)]
    generalize walk toLowerCase security first.heap _ _ _ _ _ = result at outcome
    generalize walk toLowerCase security second.heap _ _ _ _ _ = result' at outcome
    cases outcome <;> rfl

/-! ## A listed element is stored -/

/-- An array with one element, and holes before it. -/
def elementArray (index : Nat) (value : Value) : HeapObject :=
  if short : index + 1 < 2 ^ 32 then
    .array ⟨index + 1, [(index, .data value)], [], short,
      fun _ listed => List.mem_singleton.mp listed ▸ Nat.lt_succ_self index, List.pairwise_singleton _ _⟩
  else .date none

/-- An object whose only child is found by one step. -/
def stepObject (step : Step) (child : Value) : HeapObject :=
  match step with
  | .key text => .plain ⟨[⟨.string text, true, .data child⟩], List.nodup_singleton _⟩
  | .element index => elementArray index child

/-- Each object leads to the next by one step. -/
def chainHeap (steps : List Step) (last : HeapObject) : Heap :=
  fun ref => (steps[ref]?).elim last fun step => stepObject step (.object (ref + 1))

def wrap (step : Step) (snapshot : Snapshot) : Snapshot :=
  match step with
  | .key text => .object (.branch (.string text) snapshot .none)
  | .element index => .array (index + 1) (.branch (.string (indexText index)) snapshot .none)

def wrapAll (steps : List Step) (snapshot : Snapshot) : Snapshot := steps.foldr wrap snapshot

theorem wrap_injective (step : Step) : Function.Injective (wrap step) := by
  intro snapshot other same
  cases step with
  | key text =>
      cases same
      rfl
  | element index =>
      cases same
      rfl

theorem wrapAll_injective (steps : List Step) : Function.Injective (wrapAll steps) := by
  induction steps with
  | nil => exact fun _ _ same => same
  | cons step rest ih => exact fun _ _ same => ih (wrap_injective step same)

section

variable {heap : Heap} {fuel depth : Nat} {path : JsString} {before spent : Traversal} {ref : Ref}

/-- The walk of an array with one element does not ask whether it is redacted. -/
theorem walk_element {index : Nat} {child : Value}
    (charged : consume (.object ref) path depth before = .ok spent) (first : ref ∉ spent.seen)
    (short : index + 1 < 2 ^ 32) (stored : heap ref = elementArray index child) :
    walk toLowerCase security heap (fuel + 1) (.object ref) path depth before =
      (below toLowerCase security heap fuel depth child (childPath path (indexText index))
        (spent.mark ref)).map fun result => (wrap (.element index) result.1, result.2) := by
  rw [elementArray, dif_pos short] at stored
  rw [walk_array charged stored first]
  simp only [walkElements]
  cases below toLowerCase security heap fuel depth child (childPath path (indexText index))
      (spent.mark ref) <;> rfl

theorem walk_step {step : Step} {child : Value}
    (charged : consume (.object ref) path depth before = .ok spent) (first : ref ∉ spent.seen)
    (opened : step.Open toLowerCase security path) (stored : heap ref = stepObject step child) :
    walk toLowerCase security heap (fuel + 1) (.object ref) path depth before =
      (below toLowerCase security heap fuel depth child (childPath path step.text)
        (spent.mark ref)).map fun result => (wrap step result.1, result.2) := by
  obtain ⟨shown, safe⟩ := opened
  cases step with
  | key text =>
      have unlisted : ¬UNSAFE_SNAPSHOT_KEYS.contains text = true := by simpa using safe
      have visible : ¬redacts toLowerCase security text (childPath path text) = true :=
        Bool.eq_false_iff.mp shown
      rw [walk_plain charged stored first, walkProperties_data, if_neg unlisted, walkChild, if_neg visible]
      simp only [walkProperties, Step.text]
      cases below toLowerCase security heap fuel depth child (childPath path text) (spent.mark ref) <;> rfl
  | element index => exact walk_element charged first (Nat.add_lt_of_lt_sub safe) stored

end

theorem pathBytes_append (path : JsString) (steps rest : List Step) :
    pathBytes path (steps ++ rest) = pathBytes path steps + pathBytes (follow path steps) rest := by
  induction steps generalizing path with
  | nil => rw [List.nil_append, pathBytes, Nat.zero_add]; rfl
  | cons step steps ih =>
      rw [List.cons_append, pathBytes, ih, pathBytes, Nat.add_assoc]
      rfl

/-- The walk of a chain ends at its last object, charged for the way. -/
theorem walk_chain {last : HeapObject} {steps : List Step} {fuel : Nat}
    (short : pathBytes [] steps ≤ MAX_SNAPSHOT_UTF8_BYTES) (shallow : steps.length ≤ MAX_SNAPSHOT_DEPTH) :
    ∀ (rest done : List Step) (before : Traversal), steps = done ++ rest →
      Open toLowerCase security (follow [] done) rest → before.nodes = done.length →
      before.utf8Bytes = pathBytes [] done → (∀ ref ∈ before.seen, ref < done.length) →
      ∃ after : Traversal, after.nodes = steps.length ∧ after.utf8Bytes = pathBytes [] steps ∧
        (∀ ref ∈ after.seen, ref < steps.length) ∧
        walk toLowerCase security (chainHeap steps last) (rest.length + fuel) (.object done.length)
            (follow [] done) done.length before =
          (walk toLowerCase security (chainHeap steps last) fuel (.object steps.length) (follow [] steps)
            steps.length after).map fun result => (wrapAll rest result.1, result.2) := by
  intro rest
  induction rest with
  | nil =>
      intro done before whole _ nodes bytes seen
      rw [List.append_nil] at whole
      subst whole
      refine ⟨before, nodes, bytes, seen, ?_⟩
      rw [List.length_nil, Nat.zero_add]
      cases walk toLowerCase security (chainHeap steps last) fuel (.object steps.length) (follow [] steps)
        steps.length before <;> rfl
  | cons step rest ih =>
      intro done before whole opens nodes bytes seen
      have long : steps.length = done.length + (rest.length + 1) := by
        rw [whole, List.length_append, List.length_cons]
      have spentBytes : pathBytes [] (done ++ [step]) ≤ pathBytes [] steps := by
        have parts := pathBytes_append [] (done ++ [step]) rest
        rw [List.append_assoc, List.singleton_append, ← whole] at parts
        exact Nat.le.intro parts.symm
      have step' := pathBytes_concat [] done step
      have room : consume (.object done.length) (follow [] done) done.length before =
          .ok { before with
            nodes := before.nodes + 1
            utf8Bytes := before.utf8Bytes + stringBytes (.object done.length) +
              byteLength (follow [] done) } := by
        have none : stringBytes (.object done.length) = 0 := rfl
        have depth : MAX_SNAPSHOT_DEPTH + 1 ≤ MAX_SNAPSHOT_NODES := by decide
        exact consume_of_room (by omega) (by omega) (by omega)
      have first : done.length ∉ before.seen := fun met => Nat.lt_irrefl _ (seen _ met)
      have stored : chainHeap steps last done.length = stepObject step (.object (done.length + 1)) := by
        rw [chainHeap, whole, List.getElem?_append_right (Nat.le_refl _), Nat.sub_self]
        rfl
      have concat : (done ++ [step]).length = done.length + 1 := by
        rw [List.length_append, List.length_singleton]
      obtain ⟨after, nodes', bytes', seen', walked⟩ := ih (done ++ [step])
        (Traversal.mark { before with
          nodes := before.nodes + 1
          utf8Bytes := before.utf8Bytes + stringBytes (.object done.length) + byteLength (follow [] done) }
          done.length)
        (by rw [whole, List.append_assoc, List.singleton_append])
        (by rw [follow_concat]; exact opens.2) (by rw [concat, ← nodes]; rfl)
        (by rw [step', ← bytes]; rfl)
        (by
          intro ref listed
          rw [concat]
          rcases List.mem_cons.mp listed with rfl | listed
          · exact Nat.lt_succ_self _
          · exact Nat.lt_succ_of_lt (seen ref listed))
      refine ⟨after, nodes', bytes', seen', ?_⟩
      rw [List.length_cons, Nat.add_right_comm, walk_step room first opens.1 stored]
      rw [concat, follow_concat] at walked
      rw [below, walked]
      cases walk toLowerCase security (chainHeap steps last) fuel (.object steps.length) (follow [] steps)
        steps.length after <;> rfl

/-- A chain that ends in an array with one element. -/
def listedGraph (steps : List Step) (index : Nat) (answer : Bool) : Graph where
  heap := chainHeap steps (elementArray index (.primitive (.boolean answer)))
  root := .object 0

theorem sanitize_listedGraph (bare : security.redactSnapshot = none) {steps : List Step} {index : Nat}
    (opens : Open toLowerCase security [] steps) (short : index < 2 ^ 32 - 1)
    (shallow : steps.length + 1 ≤ MAX_SNAPSHOT_DEPTH)
    (small : pathBytes [] steps + byteLength (follow [] steps) +
      byteLength (childPath (follow [] steps) (indexText index)) ≤ MAX_SNAPSHOT_UTF8_BYTES)
    (answer : Bool) :
    sanitizeSnapshot toLowerCase security (listedGraph steps index answer) =
      .ok (wrapAll steps (wrap (.element index) (.leaf (.boolean answer)))) := by
  obtain ⟨fuel, enough⟩ : ∃ fuel, MAX_SNAPSHOT_DEPTH + 2 = steps.length + (fuel + 1 + 1) :=
    ⟨MAX_SNAPSHOT_DEPTH - steps.length, by omega⟩
  have nodes : MAX_SNAPSHOT_DEPTH + 2 ≤ MAX_SNAPSHOT_NODES := by decide
  obtain ⟨after, counted, bytes, seen, walked⟩ := @walk_chain toLowerCase security
    (elementArray index (.primitive (.boolean answer))) steps (fuel + 1 + 1) (by omega) (by omega) steps []
    ⟨0, 0, []⟩ rfl opens rfl rfl (fun _ listed => by cases listed)
  have room : consume (.object steps.length) (follow [] steps) steps.length after = .ok { after with
      nodes := after.nodes + 1
      utf8Bytes := after.utf8Bytes + stringBytes (.object steps.length) + byteLength (follow [] steps) } := by
    have none : stringBytes (.object steps.length) = 0 := rfl
    exact consume_of_room (by omega) (by omega) (by omega)
  have first : steps.length ∉ after.seen := fun met => Nat.lt_irrefl _ (seen _ met)
  have stored : chainHeap steps (elementArray index (.primitive (.boolean answer))) steps.length =
      elementArray index (.primitive (.boolean answer)) := by
    rw [chainHeap, List.getElem?_eq_none (Nat.le_refl _)]
    rfl
  obtain ⟨spent, child⟩ : ∃ spent, consume (.primitive (.boolean answer))
      (childPath (follow [] steps) (indexText index)) (steps.length + 1) (Traversal.mark { after with
        nodes := after.nodes + 1
        utf8Bytes := after.utf8Bytes + stringBytes (.object steps.length) + byteLength (follow [] steps) }
        steps.length) = .ok spent := by
    have none : stringBytes (.primitive (.boolean answer)) = 0 := rfl
    have none' : stringBytes (.object steps.length) = 0 := rfl
    refine ⟨_, consume_of_room shallow ?_ ?_⟩
    · simp only [Traversal.mark]
      omega
    · simp only [Traversal.mark]
      omega
  have last := @walk_element toLowerCase security _ (fuel + 1) _ _ _ _ _ _ _ room first
    (Nat.add_lt_of_lt_sub short) stored
  rw [below, walk_primitive child] at last
  rw [last] at walked
  simp only [sanitizeSnapshot, sanitizeWithin, bare, Option.map_none, Option.getD_none]
  rw [if_neg (by simp [listedGraph]), enough]
  exact congrArg (Except.map Prod.fst) walked

/-! ### Graphs that differ in a listed element -/

theorem elementArray_alike {related : JsString → Ref → Ref → Prop} {path : JsString} {index : Nat}
    {value other : Value}
    (same : DescriptorsAlike toLowerCase security related path (indexText index) (.data value)
      (.data other)) :
    ObjectsAlike toLowerCase security related path (elementArray index value) (elementArray index other) := by
  unfold elementArray
  by_cases short : index + 1 < 2 ^ 32
  · rw [dif_pos short, dif_pos short]
    exact .array rfl (.cons ⟨rfl, same⟩ .nil) rfl
  · rw [dif_neg short, dif_neg short]
    exact .date none

theorem stepObject_alike {related : JsString → Ref → Ref → Prop} {path : JsString} {step : Step} {child : Ref}
    (met : related (childPath path step.text) child child) :
    ObjectsAlike toLowerCase security related path (stepObject step (.object child))
      (stepObject step (.object child)) := by
  cases step with
  | key text => exact .plain (.cons (.enumerable (.visible (.object met))) .nil)
  | element index => exact elementArray_alike (.visible (.object met))

theorem listedGraph_agree {steps : List Step} {index : Nat}
    (hidden : redacts toLowerCase security (indexText index)
      (childPath (follow [] steps) (indexText index)) = true) (answer other : Bool) :
    Agree toLowerCase security (listedGraph steps index answer) (listedGraph steps index other) := by
  -- the objects of the two chains correspond one by one, each on its own path
  refine ⟨fun path ref ref' => ref = ref' ∧ ref ≤ steps.length ∧ path = follow [] (steps.take ref), ?_⟩
  refine ⟨.object ⟨rfl, Nat.zero_le _, rfl⟩, ?_, ?_⟩
  · rintro path path' ref _ ref' _ ⟨rfl, -, -⟩ ⟨rfl, -, -⟩
    exact Iff.rfl
  · rintro path ref _ ⟨rfl, inside, rfl⟩
    rcases Nat.lt_or_eq_of_le inside with inside | rfl
    · have stored (last : HeapObject) : chainHeap steps last ref =
          stepObject steps[ref] (.object (ref + 1)) := by
        rw [chainHeap, List.getElem?_eq_getElem inside]
        rfl
      simp only [listedGraph, stored]
      refine stepObject_alike ⟨rfl, inside, ?_⟩
      rw [List.take_succ_eq_append_getElem inside, follow_concat]
    · have stored (last : HeapObject) : chainHeap steps last steps.length = last := by
        rw [chainHeap, List.getElem?_eq_none (Nat.le_refl _)]
        rfl
      simp only [listedGraph, stored, List.take_length]
      exact elementArray_alike (.redacted hidden)

theorem listedGraph_revealed (bare : security.redactSnapshot = none) {steps : List Step} {index : Nat}
    (opens : Open toLowerCase security [] steps) (short : index < 2 ^ 32 - 1)
    (shallow : steps.length + 1 ≤ MAX_SNAPSHOT_DEPTH)
    (small : pathBytes [] steps + byteLength (follow [] steps) +
      byteLength (childPath (follow [] steps) (indexText index)) ≤ MAX_SNAPSHOT_UTF8_BYTES) :
    sanitizeSnapshot toLowerCase security (listedGraph steps index true) ≠
      sanitizeSnapshot toLowerCase security (listedGraph steps index false) := by
  intro same
  rw [sanitize_listedGraph bare opens short shallow small true,
    sanitize_listedGraph bare opens short shallow small false] at same
  have stored := wrap_injective _ (wrapAll_injective _ (Except.ok.inj same))
  cases stored

end

/-! ## What an audit row reveals -/

section

variable (toLowerCase : JsString → JsString) (redactFields : List JsString)

/-- Graphs that differ in redacted values only have one outcome. -/
def Secret : Prop :=
  ∀ {first second : Graph}, Agree toLowerCase ⟨redactFields, none⟩ first second →
    sanitizeSnapshot toLowerCase ⟨redactFields, none⟩ first =
      sanitizeSnapshot toLowerCase ⟨redactFields, none⟩ second

/-- The walk of every graph ends, and what it returns is small and plain. -/
def Bounded : Prop :=
  ∀ (redactSnapshot : Option (Graph → Graph)) (graph : Graph),
    (∀ fuel, MAX_SNAPSHOT_DEPTH + 2 ≤ fuel →
      sanitizeWithin toLowerCase fuel ⟨redactFields, redactSnapshot⟩ graph =
          sanitizeSnapshot toLowerCase ⟨redactFields, redactSnapshot⟩ graph ∧
        sanitizeWithin toLowerCase fuel ⟨redactFields, redactSnapshot⟩ graph ≠ .error .unfinished) ∧
    ∀ snapshot, sanitizeSnapshot toLowerCase ⟨redactFields, redactSnapshot⟩ graph = .ok snapshot →
      snapshot.nodes ≤ MAX_SNAPSHOT_NODES ∧ snapshot.height ≤ MAX_SNAPSHOT_DEPTH ∧ snapshot.Safe

/-- A snapshot is always bounded, and it reveals nothing of redacted values exactly when no
element of an array is redacted where a walk can meet it. -/
theorem snapshot_secret_iff_elementsVisible :
    (Secret toLowerCase redactFields ∧ Bounded toLowerCase redactFields) ↔
      ElementsVisible toLowerCase ⟨redactFields, none⟩ := by
  constructor
  · rintro ⟨secret, -⟩ steps index opens short shallow small
    by_contra hidden
    rw [Bool.not_eq_false] at hidden
    exact listedGraph_revealed rfl opens short shallow small (secret (listedGraph_agree hidden true false))
  · intro visible
    refine ⟨fun agree => sanitizeSnapshot_congr rfl visible agree, fun hook graph => ⟨?_, ?_⟩⟩
    · exact fun fuel enough => sanitizeWithin_eq enough graph
    · exact fun snapshot stored => sanitizeSnapshot_bounded stored

/-- `redactFields: ['items.0']` hides nothing of the list `{ items: [true] }`. -/
theorem listed_element_revealed :
    let security : ActionHistorySecurityOptions := ⟨[js "items.0"], none⟩
    let graph := listedGraph [.key (js "items")] 0
    Agree (List.map lowerAscii) security (graph true) (graph false) ∧
      sanitizeSnapshot (List.map lowerAscii) security (graph true) ≠
        sanitizeSnapshot (List.map lowerAscii) security (graph false) := by
  refine ⟨listedGraph_agree (by decide) true false, listedGraph_revealed rfl ?_ (by decide) ?_ ?_⟩
  · exact ⟨⟨by decide, by decide⟩, trivial⟩
  · decide
  · decide

end

end SdcoreNest.ActionHistory
