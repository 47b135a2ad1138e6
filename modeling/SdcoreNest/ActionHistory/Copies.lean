/-
# ActionHistory.Copies -- what a snapshot keeps of plain data

Plain data unfolds to a tree: an object that is shared appears in it once for each way to it.  A
walk charges the tree value by value and copies it, until it meets an object for the second
time.
-/
import SdcoreNest.ActionHistory.Budget
import Mathlib.Algebra.BigOperators.Group.List.Basic

namespace SdcoreNest.ActionHistory

open SdcoreNest.Theory SdcoreNest.Theory.JsString

set_option autoImplicit false

/-! ## Plain data -/

/-- `null`, booleans, finite numbers and strings. -/
def Primitive.Plain : Primitive → Prop
  | .null | .boolean _ | .string _ => True
  | .number value => value.isFinite = true
  | _ => False

/-- What a property holds. -/
def Descriptor.value? : Descriptor → Option Value
  | .data value => some value
  | .accessor => none

/-- The values in the elements and enumerable properties of an object. -/
def HeapObject.values : HeapObject → List Value
  | .date _ => []
  | .array object => object.elements.filterMap fun element => element.2.value?
  | .plain object => (object.properties.filter Property.enumerable).filterMap (·.descriptor.value?)

/-- A valid date, an array with nothing but elements, or an object of data under safe keys. -/
def HeapObject.Plain : HeapObject → Prop
  | .date time => time.isSome
  | .array object => (∀ element ∈ object.elements, element.2 ≠ .accessor) ∧
      object.extras.any Property.enumerable = false
  | .plain object => ∀ property ∈ object.properties, property.enumerable = true →
      property.key.Safe ∧ property.descriptor ≠ .accessor

/-- Plain data all the way down, where no way down goes on for ever: the graph has no cycle. -/
inductive Plain (heap : Heap) : Value → Prop
  | primitive {value : Primitive} (plain : value.Plain) : Plain heap (.primitive value)
  | object {ref : Ref} (plain : (heap ref).Plain)
      (values : ∀ value ∈ (heap ref).values, Plain heap value) : Plain heap (.object ref)

/-! ## The tree of a graph -/

mutual

inductive Tree where
  | leaf (value : Primitive)
  | date (time : Int)
  | array (ref : Ref) (length : Nat) (elements : Forest)
  | object (ref : Ref) (properties : Forest)

inductive Forest where
  | none
  | branch (key : JsString) (value : Tree) (rest : Forest)

end

section

variable (heap : Heap)

mutual

inductive Unfolds : Value → Tree → Prop
  | leaf {value : Primitive} (plain : value.Plain) : Unfolds (.primitive value) (.leaf value)
  | date {ref : Ref} {time : Int} (stored : heap ref = .date (some time)) :
      Unfolds (.object ref) (.date time)
  | array {ref : Ref} {object : ArrayObject} {elements : Forest} (stored : heap ref = .array object)
      (bare : object.extras.any Property.enumerable = false)
      (unfolds : UnfoldsElements object.elements elements) :
      Unfolds (.object ref) (.array ref object.length elements)
  | object {ref : Ref} {object : PlainObject} {properties : Forest} (stored : heap ref = .plain object)
      (unfolds : UnfoldsProperties object.properties properties) :
      Unfolds (.object ref) (.object ref properties)

inductive UnfoldsElements : List (Nat × Descriptor) → Forest → Prop
  | none : UnfoldsElements [] .none
  | element {index : Nat} {value : Value} {tree : Tree} {rest : List (Nat × Descriptor)} {forest : Forest}
      (first : Unfolds value tree) (later : UnfoldsElements rest forest) :
      UnfoldsElements ((index, .data value) :: rest) (.branch (indexText index) tree forest)

inductive UnfoldsProperties : List Property → Forest → Prop
  | none : UnfoldsProperties [] .none
  | hidden {key : PropertyKey} {descriptor : Descriptor} {rest : List Property} {forest : Forest}
      (later : UnfoldsProperties rest forest) : UnfoldsProperties (⟨key, false, descriptor⟩ :: rest) forest
  | property {key : JsString} {value : Value} {tree : Tree} {rest : List Property} {forest : Forest}
      (safe : key ∉ UNSAFE_SNAPSHOT_KEYS) (first : Unfolds value tree)
      (later : UnfoldsProperties rest forest) :
      UnfoldsProperties (⟨.string key, true, .data value⟩ :: rest) (.branch key tree forest)

end

end

theorem exists_unfoldsElements {heap : Heap} {elements : List (Nat × Descriptor)}
    (plain : ∀ element ∈ elements, element.2 ≠ .accessor)
    (values : ∀ value ∈ elements.filterMap fun element => element.2.value?, ∃ tree, Unfolds heap value tree) :
    ∃ forest, UnfoldsElements heap elements forest := by
  induction elements with
  | nil => exact ⟨.none, .none⟩
  | cons element rest ih =>
      obtain ⟨index, descriptor⟩ := element
      cases descriptor with
      | accessor => exact absurd rfl (plain _ List.mem_cons_self)
      | data value =>
          obtain ⟨tree, first⟩ := values value List.mem_cons_self
          obtain ⟨forest, later⟩ := ih (fun element listed => plain element (.tail _ listed))
            (fun value held => values value (.tail _ held))
          exact ⟨_, .element first later⟩

theorem exists_unfoldsProperties {heap : Heap} {properties : List Property}
    (plain : ∀ property ∈ properties, property.enumerable = true →
      property.key.Safe ∧ property.descriptor ≠ .accessor)
    (values : ∀ value ∈ (properties.filter Property.enumerable).filterMap (·.descriptor.value?),
      ∃ tree, Unfolds heap value tree) :
    ∃ forest, UnfoldsProperties heap properties forest := by
  induction properties with
  | nil => exact ⟨.none, .none⟩
  | cons property rest ih =>
      have later (shown : ∀ value ∈ (rest.filter Property.enumerable).filterMap (·.descriptor.value?),
          ∃ tree, Unfolds heap value tree) : ∃ forest, UnfoldsProperties heap rest forest :=
        ih (fun property listed => plain property (.tail _ listed)) shown
      have clean := plain property List.mem_cons_self
      rcases property_cases property with ⟨key, descriptor, rfl⟩ | ⟨id, descriptor, rfl⟩ | ⟨key, rfl⟩ |
        ⟨key, value, rfl⟩
      · obtain ⟨forest, unfolds⟩ := later values
        exact ⟨forest, .hidden unfolds⟩
      · exact (clean rfl).1.elim
      · exact absurd rfl (clean rfl).2
      · obtain ⟨tree, first⟩ := values value List.mem_cons_self
        obtain ⟨forest, unfolds⟩ := later fun value held => values value (.tail _ held)
        exact ⟨_, .property (clean rfl).1 first unfolds⟩

/-- Plain data has a tree. -/
theorem Plain.exists_unfolds {heap : Heap} {value : Value} (plain : Plain heap value) :
    ∃ tree, Unfolds heap value tree := by
  induction plain with
  | primitive plain => exact ⟨_, .leaf plain⟩
  | @object ref plain _ ih =>
      cases stored : heap ref with
      | date time =>
          rw [stored] at plain
          obtain ⟨time, rfl⟩ := Option.isSome_iff_exists.mp plain
          exact ⟨_, .date stored⟩
      | array object =>
          rw [stored] at plain ih
          obtain ⟨forest, unfolds⟩ := exists_unfoldsElements plain.1 ih
          exact ⟨_, .array stored plain.2 unfolds⟩
      | plain object =>
          rw [stored] at plain ih
          obtain ⟨forest, unfolds⟩ := exists_unfoldsProperties plain ih
          exact ⟨_, .object stored unfolds⟩

/-- Data has one tree. -/
theorem Unfolds.unique {heap : Heap} {value : Value} {tree tree' : Tree} (unfolds : Unfolds heap value tree)
    (unfolds' : Unfolds heap value tree') : tree = tree' := by
  refine @Unfolds.rec heap (fun value tree _ => ∀ other, Unfolds heap value other → tree = other)
    (fun elements forest _ => ∀ other, UnfoldsElements heap elements other → forest = other)
    (fun properties forest _ => ∀ other, UnfoldsProperties heap properties other → forest = other)
    ?leaf ?date ?array ?object ?noElement ?element ?noProperty ?hidden ?property value tree unfolds tree'
      unfolds'
  case leaf =>
    rintro value plain _ ⟨⟩
    rfl
  case date =>
    intro ref time stored other again
    cases again with
    | date stored' =>
        cases stored.symm.trans stored'
        rfl
    | array stored' => cases stored.symm.trans stored'
    | object stored' => cases stored.symm.trans stored'
  case array =>
    intro ref object elements stored bare unfolds ih other again
    cases again with
    | date stored' => cases stored.symm.trans stored'
    | array stored' bare' unfolds' =>
        cases stored.symm.trans stored'
        rw [ih _ unfolds']
    | object stored' => cases stored.symm.trans stored'
  case object =>
    intro ref object properties stored unfolds ih other again
    cases again with
    | date stored' => cases stored.symm.trans stored'
    | array stored' => cases stored.symm.trans stored'
    | object stored' unfolds' =>
        cases stored.symm.trans stored'
        rw [ih _ unfolds']
  case noElement =>
    rintro _ ⟨⟩
    rfl
  case element =>
    rintro index value tree rest forest - - first later other again
    cases again with
    | element first' later' => rw [first _ first', later _ later']
  case noProperty =>
    rintro _ ⟨⟩
    rfl
  case hidden =>
    rintro key descriptor rest forest - later other again
    cases again with
    | hidden unfolds' => exact later other unfolds'
  case property =>
    rintro key value tree rest forest safe - - first later other again
    cases again with
    | property safe' first' later' => rw [first _ first', later _ later']

/-! ## The copy of a tree -/

mutual

/-- A fresh value of the same structure, dates as text. -/
def Tree.copy : Tree → Snapshot
  | .leaf value => .leaf value
  | .date time => .leaf (.string (toISOString time))
  | .array _ length elements => .array length elements.copy
  | .object _ properties => .object properties.copy

def Forest.copy : Forest → Branches
  | .none => .none
  | .branch key value rest => .branch (.string key) value.copy rest.copy

end

def PropertyKey.text : PropertyKey → JsString
  | .string text => text
  | .symbol _ => []

section

variable (toLowerCase : JsString → JsString) (security : ActionHistorySecurityOptions)

mutual

/-- The second value is the first but for what it has under redacted keys. -/
def Snapshot.SameOutside (path : JsString) : Snapshot → Snapshot → Prop
  | .leaf value, other => other = .leaf value
  | .array length elements, other =>
      ∃ branches, other = .array length branches ∧ elements.SameElements path branches
  | .object properties, other =>
      ∃ branches, other = .object branches ∧ properties.SameProperties path branches

def Branches.SameElements (path : JsString) : Branches → Branches → Prop
  | .none, others => others = .none
  | .branch key value rest, others =>
      ∃ other more, others = .branch key other more ∧ value.SameOutside (childPath path key.text) other ∧
        rest.SameElements path more

def Branches.SameProperties (path : JsString) : Branches → Branches → Prop
  | .none, others => others = .none
  | .branch key value rest, others =>
      ∃ other more, others = .branch key other more ∧
        (redacts toLowerCase security key.text (childPath path key.text) = false →
          value.SameOutside (childPath path key.text) other) ∧
        rest.SameProperties path more

end

mutual

/-- No key of an object is redacted. -/
def Snapshot.Shown (path : JsString) : Snapshot → Prop
  | .leaf _ => True
  | .array _ elements => elements.ElementsShown path
  | .object properties => properties.PropertiesShown path

def Branches.ElementsShown (path : JsString) : Branches → Prop
  | .none => True
  | .branch key value rest => value.Shown (childPath path key.text) ∧ rest.ElementsShown path

def Branches.PropertiesShown (path : JsString) : Branches → Prop
  | .none => True
  | .branch key value rest =>
      redacts toLowerCase security key.text (childPath path key.text) = false ∧
        value.Shown (childPath path key.text) ∧ rest.PropertiesShown path

end

/-! ## What a walk is charged -/

/-- One charge; `object` is the array or object that is entered. -/
structure Charge where
  path : JsString
  depth : Nat
  text : Nat
  object : Option Ref

mutual

/-- The charges for a tree, in the order of the walk; a redacted value is one of them. -/
def Tree.charges (path : JsString) (depth : Nat) : Tree → List Charge
  | .leaf value => [⟨path, depth, stringBytes (.primitive value), none⟩]
  | .date _ => [⟨path, depth, 0, none⟩]
  | .array ref _ elements => ⟨path, depth, 0, some ref⟩ :: elements.elementCharges path depth
  | .object ref properties => ⟨path, depth, 0, some ref⟩ :: properties.propertyCharges path depth

def Forest.elementCharges (path : JsString) (depth : Nat) : Forest → List Charge
  | .none => []
  | .branch key value rest =>
      value.charges (childPath path key) (depth + 1) ++ rest.elementCharges path depth

def Forest.propertyCharges (path : JsString) (depth : Nat) : Forest → List Charge
  | .none => []
  | .branch key value rest =>
      (if redacts toLowerCase security key (childPath path key) then
          [⟨childPath path key, depth + 1, 0, none⟩]
        else value.charges (childPath path key) (depth + 1)) ++ rest.propertyCharges path depth

end

end

def bytes (charges : List Charge) : Nat :=
  (charges.map fun charge => charge.text + byteLength charge.path).sum

/-- The arrays and objects that are entered, once for each way to them. -/
def objects (charges : List Charge) : List Ref := charges.filterMap Charge.object

/-- A walk that starts here can pay the charges. -/
structure Fits (charges : List Charge) (state : Traversal) : Prop where
  nodes : state.nodes + charges.length ≤ MAX_SNAPSHOT_NODES
  bytes : state.utf8Bytes + bytes charges ≤ MAX_SNAPSHOT_UTF8_BYTES
  depth : ∀ charge ∈ charges, charge.depth ≤ MAX_SNAPSHOT_DEPTH

/-- No object comes twice, and none was met. -/
def Fresh (refs seen : List Ref) : Prop := refs.Nodup ∧ ∀ ref ∈ refs, ref ∉ seen

/-- A walk paid no more than its charges, and the result is the same as the copy exactly when it
entered no object that it had met. -/
structure Copied (charges : List Charge) (same : Prop) (before after : Traversal) : Prop where
  nodes : after.nodes ≤ before.nodes + charges.length
  bytes : after.utf8Bytes ≤ before.utf8Bytes + bytes charges
  same : same ↔ Fresh (objects charges) before.seen
  seen : Fresh (objects charges) before.seen →
    ∀ ref, ref ∈ after.seen ↔ ref ∈ objects charges ∨ ref ∈ before.seen

theorem bytes_append (charges more : List Charge) : bytes (charges ++ more) = bytes charges + bytes more := by
  rw [bytes, List.map_append, List.sum_append]
  rfl

theorem objects_append (charges more : List Charge) :
    objects (charges ++ more) = objects charges ++ objects more := List.filterMap_append

theorem Fits.left {charges more : List Charge} {state : Traversal} (fits : Fits (charges ++ more) state) :
    Fits charges state := by
  obtain ⟨nodes, bytes, depth⟩ := fits
  rw [List.length_append] at nodes
  rw [bytes_append] at bytes
  exact ⟨by omega, by omega, fun charge listed => depth charge (List.mem_append_left _ listed)⟩

theorem Fits.right {charges more : List Charge} {same : Prop} {before after : Traversal}
    (fits : Fits (charges ++ more) before) (paid : Copied charges same before after) : Fits more after := by
  obtain ⟨nodes, bytes, depth⟩ := fits
  have paidNodes := paid.nodes
  have paidBytes := paid.bytes
  rw [List.length_append] at nodes
  rw [bytes_append] at bytes
  exact ⟨by omega, by omega, fun charge listed => depth charge (List.mem_append_right _ listed)⟩

theorem fresh_append {refs more seen seen' : List Ref}
    (grown : Fresh refs seen → ∀ ref, ref ∈ seen' ↔ ref ∈ refs ∨ ref ∈ seen) :
    Fresh (refs ++ more) seen ↔ Fresh refs seen ∧ Fresh more seen' := by
  constructor
  · rintro ⟨distinct, unmet⟩
    obtain ⟨first, later, apart⟩ := List.nodup_append.mp distinct
    have fresh : Fresh refs seen := ⟨first, fun ref listed => unmet ref (List.mem_append_left _ listed)⟩
    refine ⟨fresh, later, fun ref listed met => ?_⟩
    rcases (grown fresh ref).mp met with entered | met
    · exact apart ref entered ref listed rfl
    · exact unmet ref (List.mem_append_right _ listed) met
  · rintro ⟨fresh, later, unmet⟩
    refine ⟨List.nodup_append.mpr ⟨fresh.1, later, fun ref entered other listed same => ?_⟩, ?_⟩
    · subst same
      exact unmet ref listed ((grown fresh ref).mpr (.inl entered))
    · intro ref listed
      rcases List.mem_append.mp listed with entered | listed
      · exact fresh.2 ref entered
      · exact fun met => unmet ref listed ((grown fresh ref).mpr (.inr met))

theorem Copied.append {charges more : List Charge} {same same' : Prop} {before middle after : Traversal}
    (first : Copied charges same before middle) (later : Copied more same' middle after) :
    Copied (charges ++ more) (same ∧ same') before after := by
  have fresh := @fresh_append _ (objects more) _ _ first.seen
  refine ⟨?_, ?_, ?_, ?_⟩
  · rw [List.length_append, ← Nat.add_assoc]
    exact later.nodes.trans (Nat.add_le_add_right first.nodes _)
  · rw [bytes_append, ← Nat.add_assoc]
    exact later.bytes.trans (Nat.add_le_add_right first.bytes _)
  · rw [objects_append, fresh, first.same, later.same]
  · rw [objects_append, fresh]
    rintro ⟨start, rest⟩ ref
    rw [later.seen rest, first.seen start, List.mem_append, or_left_comm, or_assoc]

theorem Copied.congr {charges : List Charge} {same same' : Prop} {before after : Traversal}
    (copied : Copied charges same before after) (equal : same' ↔ same) : Copied charges same' before after :=
  ⟨copied.nodes, copied.bytes, equal.trans copied.same, copied.seen⟩

/-! ## The walk copies -/

/-- One value is charged. -/
theorem consume_copied {value : Value} {path : JsString} {depth : Nat} {object : Option Ref}
    {before : Traversal} (fits : Fits [⟨path, depth, stringBytes value, object⟩] before) :
    ∃ spent, consume value path depth before = .ok spent ∧ spent.nodes = before.nodes + 1 ∧
      spent.utf8Bytes = before.utf8Bytes + bytes [⟨path, depth, stringBytes value, object⟩] ∧
      spent.seen = before.seen := by
  have level := fits.depth _ List.mem_cons_self
  have short := fits.bytes
  rw [bytes, List.map_singleton, List.sum_singleton] at short ⊢
  refine ⟨_, consume_of_room level fits.nodes (by rwa [Nat.add_assoc]), rfl, ?_, rfl⟩
  exact Nat.add_assoc _ _ _

/-- A charge that enters no object. -/
theorem copied_single {charge : Charge} {same : Prop} {before after : Traversal}
    (none : charge.object = none) (holds : same) (nodes : after.nodes = before.nodes + 1)
    (spent : after.utf8Bytes = before.utf8Bytes + bytes [charge]) (seen : after.seen = before.seen) :
    Copied [charge] same before after := by
  have empty : objects [charge] = [] := by
    rw [objects, List.filterMap_cons, none]
    rfl
  refine ⟨nodes.le, spent.le, ?_, ?_⟩
  · rw [empty]
    exact iff_of_true holds ⟨List.nodup_nil, fun _ listed => by cases listed⟩
  · rw [empty, seen]
    exact fun _ ref => by simp

/-- The charge that enters an object. -/
theorem copied_entered {path : JsString} {depth text : Nat} {ref : Ref} {before spent : Traversal}
    (nodes : spent.nodes = before.nodes + 1)
    (bytes : spent.utf8Bytes = before.utf8Bytes + bytes [⟨path, depth, text, some ref⟩])
    (seen : spent.seen = before.seen) (first : ref ∉ before.seen) :
    Copied [⟨path, depth, text, some ref⟩] True before (spent.mark ref) := by
  refine ⟨nodes.le, bytes.le, ?_, ?_⟩
  · refine iff_of_true trivial ⟨List.nodup_singleton ref, fun other listed => ?_⟩
    rw [List.mem_singleton.mp listed]
    exact first
  · intro _ other
    rw [Traversal.mark, List.mem_cons, seen]
    exact or_congr_left List.mem_singleton.symm

/-- An object that was met is not copied. -/
theorem copied_again {path : JsString} {depth text : Nat} {ref : Ref} {charges : List Charge} {same : Prop}
    {before after : Traversal} (differs : ¬same) (nodes : after.nodes = before.nodes + 1)
    (spent : after.utf8Bytes = before.utf8Bytes + bytes [⟨path, depth, text, some ref⟩])
    (met : ref ∈ before.seen) : Copied (⟨path, depth, text, some ref⟩ :: charges) same before after := by
  have stale : ¬Fresh (objects (⟨path, depth, text, some ref⟩ :: charges)) before.seen :=
    fun fresh => fresh.2 ref List.mem_cons_self met
  refine ⟨?_, ?_, iff_of_false differs stale, fun fresh => absurd fresh stale⟩
  · rw [nodes, List.length_cons]
    omega
  · have more := bytes_append [⟨path, depth, text, some ref⟩] charges
    rw [List.singleton_append] at more
    omega

section

variable {toLowerCase : JsString → JsString} {security : ActionHistorySecurityOptions} {heap : Heap}

theorem Tree.depth_le {tree : Tree} {path : JsString} {depth : Nat} {before : Traversal}
    (fits : Fits (tree.charges toLowerCase security path depth) before) : depth ≤ MAX_SNAPSHOT_DEPTH := by
  have first := fits.depth
  cases tree with
  | leaf value => exact first _ List.mem_cons_self
  | date time => exact first _ List.mem_cons_self
  | array ref length elements => exact first _ List.mem_cons_self
  | object ref properties => exact first _ List.mem_cons_self

/-- One visible property is copied, or its value is redacted. -/
theorem walkChild_copies {value : Value} {tree : Tree} {fuel depth : Nat} {path key : JsString}
    {before : Traversal}
    (walked : ∀ before, Fits (tree.charges toLowerCase security (childPath path key) (depth + 1)) before →
      ∃ snapshot after,
        below toLowerCase security heap fuel depth value (childPath path key) before = .ok (snapshot, after) ∧
          Copied (tree.charges toLowerCase security (childPath path key) (depth + 1))
            (tree.copy.SameOutside toLowerCase security (childPath path key) snapshot) before after)
    (fits : Fits (if redacts toLowerCase security key (childPath path key) then
      [⟨childPath path key, depth + 1, 0, none⟩]
      else tree.charges toLowerCase security (childPath path key) (depth + 1)) before) :
    ∃ snapshot after,
      walkChild toLowerCase (below toLowerCase security heap fuel depth) security path depth key value
          before = .ok (snapshot, after) ∧
        Copied (if redacts toLowerCase security key (childPath path key) then
            [⟨childPath path key, depth + 1, 0, none⟩]
            else tree.charges toLowerCase security (childPath path key) (depth + 1))
          (redacts toLowerCase security key (childPath path key) = false →
            tree.copy.SameOutside toLowerCase security (childPath path key) snapshot) before after := by
  unfold walkChild
  by_cases hidden : redacts toLowerCase security key (childPath path key) = true
  · simp only [if_pos hidden] at fits ⊢
    obtain ⟨spent, charged, nodes, bytes, seen⟩ := @consume_copied (.primitive .undefined) _ _ _ _ fits
    refine ⟨_, spent, by rw [charged]; rfl, copied_single rfl (fun shown => ?_) nodes bytes seen⟩
    rw [hidden] at shown
    cases shown
  · simp only [if_neg hidden] at fits ⊢
    obtain ⟨snapshot, after, ran, copied⟩ := walked before fits
    refine ⟨snapshot, after, ran, ?_⟩
    rwa [forall_prop_of_true (Bool.eq_false_iff.mpr hidden)]

/-! ### Level by level -/

theorem sameOutside_array {path : JsString} {length : Nat} {elements others : Branches} :
    (Snapshot.array length elements).SameOutside toLowerCase security path (.array length others) ↔
      elements.SameElements toLowerCase security path others := by
  constructor
  · rintro ⟨branches, same, close⟩
    cases same
    exact close
  · exact fun close => ⟨others, rfl, close⟩

theorem sameOutside_object {path : JsString} {properties others : Branches} :
    (Snapshot.object properties).SameOutside toLowerCase security path (.object others) ↔
      properties.SameProperties toLowerCase security path others := by
  constructor
  · rintro ⟨branches, same, close⟩
    cases same
    exact close
  · exact fun close => ⟨others, rfl, close⟩

theorem sameElements_branch {path key : JsString} {value other : Snapshot} {rest others : Branches} :
    (Branches.branch (.string key) value rest).SameElements toLowerCase security path
        (.branch (.string key) other others) ↔
      value.SameOutside toLowerCase security (childPath path key) other ∧
        rest.SameElements toLowerCase security path others := by
  constructor
  · rintro ⟨_, _, same, close⟩
    cases same
    exact close
  · exact fun close => ⟨other, others, rfl, close⟩

theorem sameProperties_branch {path key : JsString} {value other : Snapshot} {rest others : Branches} :
    (Branches.branch (.string key) value rest).SameProperties toLowerCase security path
        (.branch (.string key) other others) ↔
      (redacts toLowerCase security key (childPath path key) = false →
        value.SameOutside toLowerCase security (childPath path key) other) ∧
        rest.SameProperties toLowerCase security path others := by
  constructor
  · rintro ⟨_, _, same, close⟩
    cases same
    exact close
  · exact fun close => ⟨other, others, rfl, close⟩

variable (toLowerCase security heap) in
/-- A walk that can pay for the tree of its value copies it. -/
def WalkCopies (value : Value) (tree : Tree) : Prop :=
  ∀ {fuel depth : Nat} {path : JsString} {before : Traversal}, MAX_SNAPSHOT_DEPTH + 1 < fuel + depth →
    Fits (tree.charges toLowerCase security path depth) before →
    ∃ snapshot after, walk toLowerCase security heap fuel value path depth before = .ok (snapshot, after) ∧
      Copied (tree.charges toLowerCase security path depth)
        (tree.copy.SameOutside toLowerCase security path snapshot) before after

variable (toLowerCase security heap) in
def ElementsCopy (elements : List (Nat × Descriptor)) (forest : Forest) : Prop :=
  ∀ {fuel depth : Nat} {path : JsString} {before : Traversal}, MAX_SNAPSHOT_DEPTH < fuel + depth →
    Fits (forest.elementCharges toLowerCase security path depth) before →
    ∃ branches after, walkElements (below toLowerCase security heap fuel depth) path elements before =
        .ok (branches, after) ∧
      Copied (forest.elementCharges toLowerCase security path depth)
        (forest.copy.SameElements toLowerCase security path branches) before after

variable (toLowerCase security heap) in
def PropertiesCopy (properties : List Property) (forest : Forest) : Prop :=
  ∀ {fuel depth : Nat} {path : JsString} {before : Traversal}, MAX_SNAPSHOT_DEPTH < fuel + depth →
    Fits (forest.propertyCharges toLowerCase security path depth) before →
    ∃ branches after, walkProperties toLowerCase (below toLowerCase security heap fuel depth) security path
        depth properties before = .ok (branches, after) ∧
      Copied (forest.propertyCharges toLowerCase security path depth)
        (forest.copy.SameProperties toLowerCase security path branches) before after

/-- There is fuel for every level that is charged. -/
theorem exists_level {tree : Tree} {fuel depth : Nat} {path : JsString} {before : Traversal}
    (enough : MAX_SNAPSHOT_DEPTH + 1 < fuel + depth)
    (fits : Fits (tree.charges toLowerCase security path depth) before) :
    ∃ less, fuel = less + 1 ∧ MAX_SNAPSHOT_DEPTH < less + depth := by
  have level := tree.depth_le fits
  exact ⟨fuel - 1, by omega, by omega⟩

theorem walkCopies_leaf {value : Primitive} :
    WalkCopies toLowerCase security heap (.primitive value) (.leaf value) := by
  intro fuel depth path before enough fits
  obtain ⟨fuel, rfl, -⟩ := exists_level enough fits
  obtain ⟨spent, charged, nodes, bytes, seen⟩ := @consume_copied (.primitive value) _ _ _ _ fits
  exact ⟨_, spent, walk_primitive charged, copied_single rfl rfl nodes bytes seen⟩

theorem walkCopies_date {ref : Ref} {time : Int} (stored : heap ref = .date (some time)) :
    WalkCopies toLowerCase security heap (.object ref) (.date time) := by
  intro fuel depth path before enough fits
  obtain ⟨fuel, rfl, -⟩ := exists_level enough fits
  obtain ⟨spent, charged, nodes, bytes, seen⟩ := @consume_copied (.object ref) _ _ _ _ fits
  exact ⟨_, spent, walk_date charged stored, copied_single rfl rfl nodes bytes seen⟩

theorem walkCopies_array {ref : Ref} {object : ArrayObject} {elements : Forest}
    (stored : heap ref = .array object) (bare : object.extras.any Property.enumerable = false)
    (copies : ElementsCopy toLowerCase security heap object.elements elements) :
    WalkCopies toLowerCase security heap (.object ref) (.array ref object.length elements) := by
  intro fuel depth path before enough fits
  obtain ⟨fuel, rfl, under⟩ := exists_level enough fits
  have paid := @Fits.left [_] _ _ fits
  obtain ⟨spent, charged, nodes, bytes, seen⟩ := @consume_copied (.object ref) _ _ _ _ paid
  by_cases met : ref ∈ before.seen
  · have noDate : ∀ time, heap ref ≠ .date time := fun time date => by
      rw [stored] at date
      cases date
    refine ⟨_, spent, walk_again charged noDate (seen ▸ met), copied_again ?_ nodes bytes met⟩
    rintro ⟨branches, same, -⟩
    cases same
  · have entered := copied_entered nodes bytes seen met
    obtain ⟨branches, after, walked, copied⟩ := copies under (@Fits.right [_] _ _ _ _ fits entered)
    refine ⟨.array object.length branches, after, ?_, ?_⟩
    · rw [walk_array charged stored (seen ▸ met), walked]
      exact if_neg (Bool.eq_false_iff.mp bare)
    · have whole := entered.append copied
      rw [true_and] at whole
      exact whole.congr sameOutside_array

theorem walkCopies_object {ref : Ref} {object : PlainObject} {properties : Forest}
    (stored : heap ref = .plain object)
    (copies : PropertiesCopy toLowerCase security heap object.properties properties) :
    WalkCopies toLowerCase security heap (.object ref) (.object ref properties) := by
  intro fuel depth path before enough fits
  obtain ⟨fuel, rfl, under⟩ := exists_level enough fits
  have paid := @Fits.left [_] _ _ fits
  obtain ⟨spent, charged, nodes, bytes, seen⟩ := @consume_copied (.object ref) _ _ _ _ paid
  by_cases met : ref ∈ before.seen
  · have noDate : ∀ time, heap ref ≠ .date time := fun time date => by
      rw [stored] at date
      cases date
    refine ⟨_, spent, walk_again charged noDate (seen ▸ met), copied_again ?_ nodes bytes met⟩
    rintro ⟨branches, same, -⟩
    cases same
  · have entered := copied_entered nodes bytes seen met
    obtain ⟨branches, after, walked, copied⟩ := copies under (@Fits.right [_] _ _ _ _ fits entered)
    refine ⟨.object branches, after, ?_, ?_⟩
    · rw [walk_plain charged stored (seen ▸ met), walked]
      rfl
    · have whole := entered.append copied
      rw [true_and] at whole
      exact whole.congr sameOutside_object

/-- Nothing is charged for nothing. -/
theorem copied_nil {same : Prop} (holds : same) (state : Traversal) : Copied [] same state state := by
  refine ⟨Nat.le_refl _, Nat.le_refl _, iff_of_true holds ?_, fun _ ref => ?_⟩
  · exact ⟨List.nodup_nil, fun _ listed => by cases listed⟩
  · exact (or_iff_right List.not_mem_nil).symm

theorem elementsCopy_cons {index : Nat} {value : Value} {tree : Tree} {rest : List (Nat × Descriptor)}
    {forest : Forest} (first : WalkCopies toLowerCase security heap value tree)
    (later : ElementsCopy toLowerCase security heap rest forest) :
    ElementsCopy toLowerCase security heap ((index, .data value) :: rest)
      (.branch (indexText index) tree forest) := by
  intro fuel depth path before enough fits
  obtain ⟨child, middle, visited, copied⟩ := @first fuel (depth + 1) _ _ (by omega) fits.left
  obtain ⟨branches, after, walked, more⟩ := later enough (fits.right copied)
  refine ⟨.branch (.string (indexText index)) child branches, after, ?_, ?_⟩
  · rw [walkElements, below, visited]
    simp only [bind, Except.bind, walked]
    rfl
  · exact (copied.append more).congr sameElements_branch

theorem propertiesCopy_cons {key : JsString} {value : Value} {tree : Tree} {rest : List Property}
    {forest : Forest} (safe : key ∉ UNSAFE_SNAPSHOT_KEYS)
    (first : WalkCopies toLowerCase security heap value tree)
    (later : PropertiesCopy toLowerCase security heap rest forest) :
    PropertiesCopy toLowerCase security heap (⟨.string key, true, .data value⟩ :: rest)
      (.branch key tree forest) := by
  intro fuel depth path before enough fits
  have unlisted : ¬UNSAFE_SNAPSHOT_KEYS.contains key = true := by simpa using safe
  obtain ⟨child, middle, visited, copied⟩ :=
    walkChild_copies (fun before fits => @first fuel (depth + 1) _ before (by omega) fits) fits.left
  obtain ⟨branches, after, walked, more⟩ := later enough (fits.right copied)
  refine ⟨.branch (.string key) child branches, after, ?_, ?_⟩
  · rw [walkProperties_data, if_neg unlisted, visited]
    simp only [bind, Except.bind, walked]
    rfl
  · exact (copied.append more).congr sameProperties_branch

/-- Level by level, the walk of plain data copies its tree. -/
theorem Unfolds.walkCopies {value : Value} {tree : Tree} (unfolds : Unfolds heap value tree) :
    WalkCopies toLowerCase security heap value tree := by
  refine @Unfolds.rec heap (fun value tree _ => WalkCopies toLowerCase security heap value tree)
    (fun elements forest _ => ElementsCopy toLowerCase security heap elements forest)
    (fun properties forest _ => PropertiesCopy toLowerCase security heap properties forest)
    ?leaf ?date ?array ?object ?noElement ?element ?noProperty ?hidden ?property value tree unfolds
  case leaf => exact fun _ => walkCopies_leaf
  case date => exact fun stored => walkCopies_date stored
  case array => exact fun stored bare _ copies => walkCopies_array stored bare copies
  case object => exact fun stored _ copies => walkCopies_object stored copies
  case noElement => exact fun _ _ => ⟨.none, _, rfl, copied_nil rfl _⟩
  case element => exact fun _ _ first later => elementsCopy_cons first later
  case noProperty => exact fun _ _ => ⟨.none, _, rfl, copied_nil rfl _⟩
  case hidden => exact fun _ copies => copies
  case property => exact fun safe _ _ first later => propertiesCopy_cons safe first later

/-- Where no key is redacted, nothing else is the same as the copy. -/
theorem Snapshot.sameOutside_iff_eq (value : Snapshot) :
    ∀ path, value.Shown toLowerCase security path → ∀ other,
      (value.SameOutside toLowerCase security path other ↔ other = value) := by
  refine @Snapshot.rec
    (fun value => ∀ path, value.Shown toLowerCase security path → ∀ other,
      (value.SameOutside toLowerCase security path other ↔ other = value))
    (fun branches =>
      (∀ path, branches.ElementsShown toLowerCase security path → ∀ others,
        (branches.SameElements toLowerCase security path others ↔ others = branches)) ∧
      (∀ path, branches.PropertiesShown toLowerCase security path → ∀ others,
        (branches.SameProperties toLowerCase security path others ↔ others = branches)))
    ?leaf ?array ?object ?none ?branch value
  case leaf => exact fun value path _ other => Iff.rfl
  case array =>
    intro length elements ih path shown other
    constructor
    · rintro ⟨branches, rfl, close⟩
      rw [(ih.1 path shown branches).mp close]
    · rintro rfl
      exact ⟨elements, rfl, (ih.1 path shown elements).mpr rfl⟩
  case object =>
    intro properties ih path shown other
    constructor
    · rintro ⟨branches, rfl, close⟩
      rw [(ih.2 path shown branches).mp close]
    · rintro rfl
      exact ⟨properties, rfl, (ih.2 path shown properties).mpr rfl⟩
  case none => exact ⟨fun path _ others => Iff.rfl, fun path _ others => Iff.rfl⟩
  case branch =>
    intro key value rest first later
    refine ⟨fun path shown others => ?_, fun path shown others => ?_⟩
    · constructor
      · rintro ⟨other, more, rfl, close, same⟩
        rw [(first _ shown.1 other).mp close, (later.1 path shown.2 more).mp same]
      · rintro rfl
        exact ⟨value, rest, rfl, (first _ shown.1 value).mpr rfl, (later.1 path shown.2 rest).mpr rfl⟩
    · obtain ⟨visible, shown, others'⟩ := shown
      constructor
      · rintro ⟨other, more, rfl, close, same⟩
        rw [(first _ shown other).mp (close visible), (later.2 path others' more).mp same]
      · rintro rfl
        exact ⟨value, rest, rfl, fun _ => (first _ shown value).mpr rfl, (later.2 path others' rest).mpr rfl⟩

end

/-! ## What an audit row keeps -/

section

variable (toLowerCase : JsString → JsString) (redactFields : List JsString)

/-- The stored value is the copy of the tree: all of it where no key is redacted, and everything
outside redacted keys where some are. -/
def Lossless (graph : Graph) (tree : Tree) : Prop :=
  ∃ snapshot, sanitizeSnapshot toLowerCase ⟨redactFields, none⟩ graph = .ok snapshot ∧
    tree.copy.SameOutside toLowerCase ⟨redactFields, none⟩ [] snapshot ∧
    (tree.copy.Shown toLowerCase ⟨redactFields, none⟩ [] → snapshot = tree.copy)

/-- Plain data within the limits is kept exactly when no array or object comes twice outside
redacted keys. -/
theorem sanitizeSnapshot_lossless_iff {graph : Graph} (plain : Plain graph.heap graph.root) :
    ∃ tree, Unfolds graph.heap graph.root tree ∧
      (Fits (tree.charges toLowerCase ⟨redactFields, none⟩ [] 0) ⟨0, 0, []⟩ →
        (Lossless toLowerCase redactFields graph tree ↔
          (objects (tree.charges toLowerCase ⟨redactFields, none⟩ [] 0)).Nodup)) := by
  obtain ⟨tree, unfolds⟩ := plain.exists_unfolds
  refine ⟨tree, unfolds, fun fits => ?_⟩
  obtain ⟨snapshot, after, walked, copied⟩ :=
    @Unfolds.walkCopies toLowerCase _ _ _ _ unfolds (MAX_SNAPSHOT_DEPTH + 2) 0 _ _ (Nat.lt_succ_self _) fits
  have defined : graph.root ≠ .primitive .undefined := by
    intro undefined
    rw [undefined] at plain
    cases plain with
    | primitive plain => exact plain
  have stored : sanitizeSnapshot toLowerCase ⟨redactFields, none⟩ graph = .ok snapshot := by
    rw [sanitizeSnapshot, sanitizeWithin, if_neg defined]
    exact congrArg (Except.map Prod.fst) walked
  have unmet : Fresh (objects (tree.charges toLowerCase ⟨redactFields, none⟩ [] 0)) [] ↔
      (objects (tree.charges toLowerCase ⟨redactFields, none⟩ [] 0)).Nodup :=
    and_iff_left fun _ _ => List.not_mem_nil
  rw [← unmet, ← copied.same]
  constructor
  · rintro ⟨other, same, close, -⟩
    rw [stored] at same
    cases same
    exact close
  · intro close
    exact ⟨snapshot, stored, close, fun shown => (tree.copy.sameOutside_iff_eq [] shown snapshot).mp close⟩

end

/-! ### Two properties -/

theorem pairKeys_distinct : [PropertyKey.string (js "a"), PropertyKey.string (js "b")].Nodup := by decide

/-- `{ a, b }` with two empty objects, or one twice. -/
def pairGraph (first second : Ref) : Graph where
  heap ref :=
    if ref = 0 then
      .plain ⟨[⟨.string (js "a"), true, .data (.object first)⟩,
        ⟨.string (js "b"), true, .data (.object second)⟩], pairKeys_distinct⟩
    else .plain ⟨[], List.nodup_nil⟩
  root := .object 0

def pairTree (first second : Ref) : Tree :=
  .object 0 (.branch (js "a") (.object first .none) (.branch (js "b") (.object second .none) .none))

theorem pairGraph_empty {first second ref : Ref} (other : ref ≠ 0) :
    (pairGraph first second).heap ref = .plain ⟨[], List.nodup_nil⟩ := if_neg other

theorem pairGraph_plain {first second : Ref} (firstOther : first ≠ 0) (secondOther : second ≠ 0) :
    Plain (pairGraph first second).heap (pairGraph first second).root := by
  have empty {ref : Ref} (other : ref ≠ 0) : Plain (pairGraph first second).heap (.object ref) := by
    refine .object ?_ ?_
    · rw [pairGraph_empty other]
      exact fun _ listed => by cases listed
    · rw [pairGraph_empty other]
      exact fun _ listed => by cases listed
  refine .object ?_ ?_
  · have firstSafe : js "a" ∉ UNSAFE_SNAPSHOT_KEYS := by decide
    have secondSafe : js "b" ∉ UNSAFE_SNAPSHOT_KEYS := by decide
    rintro property listed -
    rcases List.mem_pair.mp listed with rfl | rfl
    · exact ⟨firstSafe, fun same => by cases same⟩
    · exact ⟨secondSafe, fun same => by cases same⟩
  · intro value held
    rcases List.mem_pair.mp held with rfl | rfl
    · exact empty firstOther
    · exact empty secondOther

theorem pairGraph_unfolds {first second : Ref} (firstOther : first ≠ 0) (secondOther : second ≠ 0) :
    Unfolds (pairGraph first second).heap (pairGraph first second).root (pairTree first second) := by
  have empty {ref : Ref} (other : ref ≠ 0) :
      Unfolds (pairGraph first second).heap (.object ref) (.object ref .none) :=
    .object (pairGraph_empty other) .none
  have rest := UnfoldsProperties.property (by decide : js "b" ∉ UNSAFE_SNAPSHOT_KEYS) (empty secondOther) .none
  exact .object rfl (.property (by decide) (empty firstOther) rest)

/-- Two objects are stored as they are. -/
theorem pairGraph_lossless : Lossless (List.map lowerAscii) [] (pairGraph 1 2) (pairTree 1 2) := by
  obtain ⟨tree, unfolds, kept_iff⟩ := sanitizeSnapshot_lossless_iff (List.map lowerAscii) []
    (pairGraph_plain (by decide : (1 : Ref) ≠ 0) (by decide : (2 : Ref) ≠ 0))
  obtain rfl := unfolds.unique (pairGraph_unfolds (by decide) (by decide))
  exact (kept_iff ⟨by decide, by decide, by decide⟩).mpr (by decide)

/-- `const x = {}; { a: x, b: x }` is stored as `{ a: {}, b: '[REDACTED]' }`. -/
theorem shared_object_redacted :
    Plain (pairGraph 1 1).heap (pairGraph 1 1).root ∧
      Unfolds (pairGraph 1 1).heap (pairGraph 1 1).root (pairTree 1 1) ∧
      Fits ((pairTree 1 1).charges (List.map lowerAscii) ⟨[], none⟩ [] 0) ⟨0, 0, []⟩ ∧
      (pairTree 1 1).copy.Shown (List.map lowerAscii) ⟨[], none⟩ [] ∧
      sanitizeSnapshot (List.map lowerAscii) ⟨[], none⟩ (pairGraph 1 1) =
        .ok (.object (.branch (.string (js "a")) (.object .none)
          (.branch (.string (js "b")) (.leaf (.string REDACTED)) .none))) ∧
      ¬Lossless (List.map lowerAscii) [] (pairGraph 1 1) (pairTree 1 1) := by
  have stored : sanitizeSnapshot (List.map lowerAscii) ⟨[], none⟩ (pairGraph 1 1) =
      .ok (.object (.branch (.string (js "a")) (.object .none)
        (.branch (.string (js "b")) (.leaf (.string REDACTED)) .none))) := rfl
  refine ⟨pairGraph_plain (by decide) (by decide), pairGraph_unfolds (by decide) (by decide),
    ⟨by decide, by decide, by decide⟩, ⟨by decide, trivial, by decide, trivial, trivial⟩, stored, ?_⟩
  rintro ⟨snapshot, same, close, -⟩
  rw [stored] at same
  cases same
  have second := sameProperties_branch.mp (sameOutside_object.mp close)
  obtain ⟨branches, same, -⟩ := (sameProperties_branch.mp second.2).1 (by decide)
  cases same

end SdcoreNest.ActionHistory
