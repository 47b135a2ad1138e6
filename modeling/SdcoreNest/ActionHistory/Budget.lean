/-
# ActionHistory.Budget -- the walk ends, and what it stores is small and plain

Every level of the walk charges its value before it looks inside, so a walk ends one level below
the depth that is allowed, whatever the graph.  What it returns was charged node by node.
-/
import SdcoreNest.ActionHistory.Snapshot
import SdcoreNest.Theory.Program

namespace SdcoreNest.ActionHistory

open SdcoreNest.Theory SdcoreNest.Theory.JsString

set_option autoImplicit false

/-! ## The size of a snapshot -/

mutual

/-- The values in a snapshot, itself included. -/
def Snapshot.nodes : Snapshot → Nat
  | .leaf _ => 1
  | .array _ elements => 1 + elements.nodes
  | .object properties => 1 + properties.nodes

def Branches.nodes : Branches → Nat
  | .none => 0
  | .branch _ value rest => value.nodes + rest.nodes

end

mutual

/-- The levels below a value. -/
def Snapshot.height : Snapshot → Nat
  | .leaf _ => 0
  | .array _ elements => elements.height
  | .object properties => properties.height

def Branches.height : Branches → Nat
  | .none => 0
  | .branch _ value rest => max (value.height + 1) rest.height

end

/-- A string that no prototype answers to. -/
def PropertyKey.Safe : PropertyKey → Prop
  | .string text => text ∉ UNSAFE_SNAPSHOT_KEYS
  | .symbol _ => False

mutual

/-- Every key of every object is safe, and every key of an array is an index. -/
def Snapshot.Safe : Snapshot → Prop
  | .leaf _ => True
  | .array _ elements => elements.Indexed
  | .object properties => properties.Safe

def Branches.Safe : Branches → Prop
  | .none => True
  | .branch key value rest => key.Safe ∧ value.Safe ∧ rest.Safe

def Branches.Indexed : Branches → Prop
  | .none => True
  | .branch key value rest => (∃ index, key = .string (indexText index)) ∧ value.Safe ∧ rest.Indexed

end

/-! ## One charge -/

theorem of_consume_ok {value : Value} {path : JsString} {depth : Nat} {before after : Traversal}
    (passed : consume value path depth before = .ok after) :
    after = { before with
      nodes := before.nodes + 1
      utf8Bytes := before.utf8Bytes + stringBytes value + byteLength path } ∧
    depth ≤ MAX_SNAPSHOT_DEPTH ∧ after.nodes ≤ MAX_SNAPSHOT_NODES ∧
    after.utf8Bytes ≤ MAX_SNAPSHOT_UTF8_BYTES := by
  unfold consume at passed
  simp only at passed
  split at passed
  · cases passed
  next room =>
    cases passed
    simp only [not_or, not_lt] at room
    exact ⟨rfl, room⟩

theorem consume_of_room {value : Value} {path : JsString} {depth : Nat} {before : Traversal}
    (level : depth ≤ MAX_SNAPSHOT_DEPTH) (few : before.nodes + 1 ≤ MAX_SNAPSHOT_NODES)
    (short : before.utf8Bytes + stringBytes value + byteLength path ≤ MAX_SNAPSHOT_UTF8_BYTES) :
    consume value path depth before = .ok { before with
      nodes := before.nodes + 1
      utf8Bytes := before.utf8Bytes + stringBytes value + byteLength path } := by
  unfold consume
  simp only
  exact if_neg (by omega)

/-- A refused charge is a limit error. -/
theorem consume_cases (value : Value) (path : JsString) (depth : Nat) (state : Traversal) :
    consume value path depth state = .error .limit ∨ ∃ after, consume value path depth state = .ok after := by
  unfold consume
  simp only
  split
  · exact .inl rfl
  · exact .inr ⟨_, rfl⟩

theorem consume_of_full {value : Value} {path : JsString} {depth : Nat} {state : Traversal}
    (full : MAX_SNAPSHOT_DEPTH < depth ∨ MAX_SNAPSHOT_UTF8_BYTES < state.utf8Bytes + byteLength path) :
    consume value path depth state = .error .limit := by
  unfold consume
  simp only
  exact if_pos (by omega)

/-! ## What a walk returns -/

section

variable {toLowerCase : JsString → JsString} {security : ActionHistorySecurityOptions}

/-! ### One property -/

theorem walkProperties_data (visit : Visit) (path : JsString) (depth : Nat) (key : JsString)
    (value : Value) (rest : List Property) (state : Traversal) :
    walkProperties toLowerCase visit security path depth (⟨.string key, true, .data value⟩ :: rest) state =
      if UNSAFE_SNAPSHOT_KEYS.contains key then .error .unsafeProperty
      else do
        let (child, state) ← walkChild toLowerCase visit security path depth key value state
        let (branches, state) ← walkProperties toLowerCase visit security path depth rest state
        return (.branch (.string key) child branches, state) := rfl

/-- A property is skipped, refused, or a data property under a string. -/
theorem property_cases (property : Property) :
    (∃ key descriptor, property = ⟨key, false, descriptor⟩) ∨
      (∃ id descriptor, property = ⟨.symbol id, true, descriptor⟩) ∨
      (∃ key, property = ⟨.string key, true, .accessor⟩) ∨
      ∃ key value, property = ⟨.string key, true, .data value⟩ := by
  obtain ⟨key, enumerable, descriptor⟩ := property
  cases enumerable with
  | false => exact .inl ⟨key, descriptor, rfl⟩
  | true =>
      cases key with
      | symbol id => exact .inr (.inl ⟨id, descriptor, rfl⟩)
      | string key =>
          cases descriptor with
          | accessor => exact .inr (.inr (.inl ⟨key, rfl⟩))
          | data value => exact .inr (.inr (.inr ⟨key, value, rfl⟩))

/-! ### One level -/

/-- The object is entered. -/
def Traversal.mark (state : Traversal) (ref : Ref) : Traversal := { state with seen := ref :: state.seen }

/-- The visit of the children of a value at this depth. -/
def below (toLowerCase : JsString → JsString) (security : ActionHistorySecurityOptions) (heap : Heap)
    (fuel depth : Nat) : Visit :=
  fun value path state => walk toLowerCase security heap fuel value path (depth + 1) state

section

variable {heap : Heap} {fuel depth : Nat} {path : JsString} {before spent : Traversal} {ref : Ref}

theorem walk_refused {value : Value} {fault : SnapshotError}
    (refused : consume value path depth before = .error fault) :
    walk toLowerCase security heap (fuel + 1) value path depth before = .error fault := by
  rw [walk, refused]
  rfl

theorem walk_primitive {value : Primitive}
    (charged : consume (.primitive value) path depth before = .ok spent) :
    walk toLowerCase security heap (fuel + 1) (.primitive value) path depth before =
      .ok (.leaf value, spent) := by
  rw [walk, charged]
  rfl

theorem walk_date {time : Option Int} (charged : consume (.object ref) path depth before = .ok spent)
    (stored : heap ref = .date time) :
    walk toLowerCase security heap (fuel + 1) (.object ref) path depth before =
      time.elim (.error .range) fun time => .ok (.leaf (.string (toISOString time)), spent) := by
  rw [walk, charged]
  cases time <;> simp [bind, Except.bind, stored, pure, Except.pure]

/-- An object that was met before. -/
theorem walk_again (charged : consume (.object ref) path depth before = .ok spent)
    (noDate : ∀ time, heap ref ≠ .date time) (met : ref ∈ spent.seen) :
    walk toLowerCase security heap (fuel + 1) (.object ref) path depth before =
      .ok (.leaf (.string REDACTED), spent) := by
  rw [walk, charged]
  cases stored : heap ref with
  | date time => exact absurd stored (noDate time)
  | array array => simp [bind, Except.bind, stored, met, pure, Except.pure]
  | plain object => simp [bind, Except.bind, stored, met, pure, Except.pure]

theorem walk_array {array : ArrayObject} (charged : consume (.object ref) path depth before = .ok spent)
    (stored : heap ref = .array array) (first : ref ∉ spent.seen) :
    walk toLowerCase security heap (fuel + 1) (.object ref) path depth before =
      (walkElements (below toLowerCase security heap fuel depth) path array.elements (spent.mark ref) >>=
        fun result =>
          if array.extras.any Property.enumerable then .error .unsafeProperty
          else .ok (.array array.length result.1, result.2)) := by
  rw [walk, charged]
  simp only [bind, Except.bind, stored, first, if_false, Traversal.mark]
  rfl

theorem walk_plain {object : PlainObject} (charged : consume (.object ref) path depth before = .ok spent)
    (stored : heap ref = .plain object) (first : ref ∉ spent.seen) :
    walk toLowerCase security heap (fuel + 1) (.object ref) path depth before =
      (walkProperties toLowerCase (below toLowerCase security heap fuel depth) security path depth
        object.properties (spent.mark ref) >>= fun result => .ok (.object result.1, result.2)) := by
  rw [walk, charged]
  simp only [bind, Except.bind, stored, first, if_false, Traversal.mark]
  rfl

/-- How a level that was charged can end well. -/
inductive Walked (toLowerCase : JsString → JsString) (security : ActionHistorySecurityOptions)
    (heap : Heap) (visit : Visit) (path : JsString) (depth : Nat) (spent : Traversal) :
    Value → Snapshot → Traversal → Prop
  | primitive (value : Primitive) :
      Walked toLowerCase security heap visit path depth spent (.primitive value) (.leaf value) spent
  | date {ref : Ref} {time : Int} (stored : heap ref = .date (some time)) :
      Walked toLowerCase security heap visit path depth spent (.object ref)
        (.leaf (.string (toISOString time))) spent
  | again {ref : Ref} (noDate : ∀ time, heap ref ≠ .date time) (met : ref ∈ spent.seen) :
      Walked toLowerCase security heap visit path depth spent (.object ref) (.leaf (.string REDACTED)) spent
  | array {ref : Ref} {array : ArrayObject} {elements : Branches} {after : Traversal}
      (stored : heap ref = .array array) (first : ref ∉ spent.seen)
      (walked : walkElements visit path array.elements (spent.mark ref) = .ok (elements, after))
      (bare : array.extras.any Property.enumerable = false) :
      Walked toLowerCase security heap visit path depth spent (.object ref)
        (.array array.length elements) after
  | plain {ref : Ref} {object : PlainObject} {properties : Branches} {after : Traversal}
      (stored : heap ref = .plain object) (first : ref ∉ spent.seen)
      (walked : walkProperties toLowerCase visit security path depth object.properties (spent.mark ref) =
        .ok (properties, after)) :
      Walked toLowerCase security heap visit path depth spent (.object ref) (.object properties) after

theorem of_walk_ok {value : Value} {after : Traversal} {snapshot : Snapshot}
    (passed : walk toLowerCase security heap (fuel + 1) value path depth before = .ok (snapshot, after)) :
    ∃ spent, consume value path depth before = .ok spent ∧
      Walked toLowerCase security heap (below toLowerCase security heap fuel depth) path depth spent value
        snapshot after := by
  rcases consume_cases value path depth before with full | ⟨spent, charged⟩
  · rw [walk_refused full] at passed
    cases passed
  refine ⟨spent, charged, ?_⟩
  cases value with
  | primitive value =>
      rw [walk_primitive charged] at passed
      cases passed
      exact .primitive value
  | object ref =>
      cases stored : heap ref with
      | date time =>
          rw [walk_date charged stored] at passed
          cases time with
          | none => cases passed
          | some time =>
              cases passed
              exact .date stored
      | array array =>
          by_cases met : ref ∈ spent.seen
          · have noDate : ∀ time, heap ref ≠ .date time := fun time other => by
              rw [stored] at other
              cases other
            rw [walk_again charged noDate met] at passed
            cases passed
            exact .again noDate met
          · rw [walk_array charged stored met] at passed
            obtain ⟨⟨elements, later⟩, walked, passed⟩ := of_bind_ok passed
            simp only at passed
            split at passed
            · cases passed
            next bare =>
              cases passed
              exact .array stored met walked (Bool.eq_false_iff.mpr bare)
      | plain object =>
          by_cases met : ref ∈ spent.seen
          · have noDate : ∀ time, heap ref ≠ .date time := fun time other => by
              rw [stored] at other
              cases other
            rw [walk_again charged noDate met] at passed
            cases passed
            exact .again noDate met
          · rw [walk_plain charged stored met] at passed
            obtain ⟨⟨properties, later⟩, walked, passed⟩ := of_bind_ok passed
            cases passed
            exact .plain stored met walked

end

/-! ## Charges add up -/

/-- What a walk that ended well has charged. -/
structure Charged (depth : Nat) (before : Traversal) (snapshot : Snapshot) (after : Traversal) : Prop where
  nodes : after.nodes = before.nodes + snapshot.nodes
  few : after.nodes ≤ MAX_SNAPSHOT_NODES
  grows : before.utf8Bytes ≤ after.utf8Bytes
  height : depth + snapshot.height ≤ MAX_SNAPSHOT_DEPTH
  safe : snapshot.Safe

/-- The same for the children of a value at this depth. -/
structure ChargedAll (depth : Nat) (before : Traversal) (branches : Branches) (after : Traversal) :
    Prop where
  nodes : after.nodes = before.nodes + branches.nodes
  few : before.nodes ≤ MAX_SNAPSHOT_NODES → after.nodes ≤ MAX_SNAPSHOT_NODES
  grows : before.utf8Bytes ≤ after.utf8Bytes
  height : depth ≤ MAX_SNAPSHOT_DEPTH → depth + branches.height ≤ MAX_SNAPSHOT_DEPTH

theorem ChargedAll.none (depth : Nat) (state : Traversal) : ChargedAll depth state .none state where
  nodes := rfl
  few small := small
  grows := Nat.le_refl _
  height small := small

theorem ChargedAll.branch {depth : Nat} {before middle after : Traversal} {key : PropertyKey}
    {value : Snapshot} {rest : Branches} (first : Charged (depth + 1) before value middle)
    (later : ChargedAll depth middle rest after) :
    ChargedAll depth before (.branch key value rest) after where
  nodes := by
    have left := first.nodes
    have right := later.nodes
    rw [Branches.nodes]
    omega
  few _ := later.few first.few
  grows := first.grows.trans later.grows
  height small := by
    have left := first.height
    have right := later.height small
    rw [Branches.height]
    omega

/-- A visit of the level below charges what it returns. -/
def Charges (depth : Nat) (visit : Visit) : Prop :=
  ∀ {value : Value} {path : JsString} {before after : Traversal} {snapshot : Snapshot},
    visit value path before = .ok (snapshot, after) → Charged (depth + 1) before snapshot after

theorem walkElements_charged {visit : Visit} {depth : Nat} (charges : Charges depth visit)
    {path : JsString} {elements : List (Nat × Descriptor)} {before after : Traversal} {branches : Branches}
    (passed : walkElements visit path elements before = .ok (branches, after)) :
    ChargedAll depth before branches after ∧ branches.Indexed := by
  induction elements generalizing before branches after with
  | nil =>
      cases passed
      exact ⟨.none depth _, trivial⟩
  | cons element rest ih =>
      obtain ⟨index, descriptor⟩ := element
      cases descriptor with
      | accessor => cases passed
      | data value =>
          obtain ⟨⟨child, middle⟩, first, passed⟩ := of_bind_ok passed
          obtain ⟨⟨others, later⟩, second, passed⟩ := of_bind_ok passed
          cases passed
          obtain ⟨charged, indexed⟩ := ih second
          exact ⟨.branch (charges first) charged, ⟨index, rfl⟩, (charges first).safe, indexed⟩

theorem walkChild_charged {visit : Visit} {depth : Nat} (charges : Charges depth visit)
    {path key : JsString} {value : Value} {before after : Traversal} {snapshot : Snapshot}
    (passed : walkChild toLowerCase visit security path depth key value before = .ok (snapshot, after)) :
    Charged (depth + 1) before snapshot after := by
  unfold walkChild at passed
  split at passed
  · obtain ⟨spent, charged, passed⟩ := of_bind_ok passed
    cases passed
    obtain ⟨rfl, level, few, -⟩ := of_consume_ok charged
    exact ⟨rfl, few, by simp only; omega, level, trivial⟩
  · exact charges passed

theorem walkProperties_charged {visit : Visit} {depth : Nat} (charges : Charges depth visit)
    {path : JsString} {properties : List Property} {before after : Traversal} {branches : Branches}
    (passed : walkProperties toLowerCase visit security path depth properties before =
      .ok (branches, after)) :
    ChargedAll depth before branches after ∧ branches.Safe := by
  induction properties generalizing before branches after with
  | nil =>
      cases passed
      exact ⟨.none depth _, trivial⟩
  | cons property rest ih =>
      rcases property_cases property with
        ⟨key, descriptor, rfl⟩ | ⟨id, descriptor, rfl⟩ | ⟨key, rfl⟩ | ⟨key, value, rfl⟩
      · exact ih passed
      · cases passed
      · cases passed
      · rw [walkProperties_data] at passed
        split at passed
        · cases passed
        next safe =>
          obtain ⟨⟨child, middle⟩, first, passed⟩ := of_bind_ok passed
          obtain ⟨⟨others, later⟩, second, passed⟩ := of_bind_ok passed
          cases passed
          obtain ⟨charged, safeRest⟩ := ih second
          have here := walkChild_charged charges first
          refine ⟨.branch here charged, ?_, here.safe, safeRest⟩
          simpa [PropertyKey.Safe] using safe

theorem walk_charged {heap : Heap} {fuel : Nat} :
    ∀ {depth : Nat} {value : Value} {path : JsString} {before after : Traversal} {snapshot : Snapshot},
      walk toLowerCase security heap fuel value path depth before = .ok (snapshot, after) →
        Charged depth before snapshot after := by
  induction fuel with
  | zero =>
      intro depth value path before after snapshot passed
      cases passed
  | succ fuel ih =>
      intro depth value path before after snapshot passed
      obtain ⟨spent, charged, walked⟩ := of_walk_ok passed
      obtain ⟨same, level, few, -⟩ := of_consume_ok charged
      have counted : spent.nodes = before.nodes + 1 := by rw [same]
      have grown : before.utf8Bytes ≤ spent.utf8Bytes := by
        rw [same]
        simp only
        omega
      cases walked with
      | primitive value => exact ⟨counted, few, grown, level, trivial⟩
      | date => exact ⟨counted, few, grown, level, trivial⟩
      | again => exact ⟨counted, few, grown, level, trivial⟩
      | array stored first walked bare =>
          obtain ⟨all, indexed⟩ := @walkElements_charged _ depth (fun later => ih later) _ _ _ _ _ walked
          have total : after.nodes = spent.nodes + _ := all.nodes
          refine ⟨?_, all.few few, grown.trans all.grows, all.height level, indexed⟩
          rw [total, counted, Snapshot.nodes, Nat.add_assoc]
      | plain stored first walked =>
          obtain ⟨all, safe⟩ := @walkProperties_charged _ _ _ depth (fun later => ih later) _ _ _ _ _ walked
          have total : after.nodes = spent.nodes + _ := all.nodes
          refine ⟨?_, all.few few, grown.trans all.grows, all.height level, safe⟩
          rw [total, counted, Snapshot.nodes, Nat.add_assoc]

/-! ## Every walk ends -/

theorem bind_ne_error {ε α β : Type} {first : Except ε α} {next : α → Except ε β} {fault : ε}
    (firstEnds : first ≠ .error fault) (laterEnds : ∀ value, first = .ok value → next value ≠ .error fault) :
    (first >>= next) ≠ .error fault := by
  cases first with
  | error other => exact fun same => firstEnds (congrArg Except.error (Except.error.inj same))
  | ok value => exact laterEnds value rfl

/-- No visit of the level below is cut off. -/
def Finishes (visit : Visit) : Prop :=
  ∀ value path state, visit value path state ≠ .error .unfinished

theorem consume_finishes (value : Value) (path : JsString) (depth : Nat) (state : Traversal) :
    consume value path depth state ≠ .error .unfinished := by
  rcases consume_cases value path depth state with full | ⟨after, passed⟩
  · rw [full]
    intro same
    cases same
  · rw [passed]
    intro same
    cases same

theorem walkElements_finishes {visit : Visit} (finishes : Finishes visit) (path : JsString)
    (elements : List (Nat × Descriptor)) (state : Traversal) :
    walkElements visit path elements state ≠ .error .unfinished := by
  induction elements generalizing state with
  | nil => intro same; cases same
  | cons element rest ih =>
      obtain ⟨index, descriptor⟩ := element
      cases descriptor with
      | accessor => intro same; cases same
      | data value =>
          refine bind_ne_error (finishes value _ state) fun result _ => ?_
          exact bind_ne_error (ih result.2) fun result _ same => by cases same

theorem walkChild_finishes {visit : Visit} (finishes : Finishes visit) (path : JsString) (depth : Nat)
    (key : JsString) (value : Value) (state : Traversal) :
    walkChild toLowerCase visit security path depth key value state ≠ .error .unfinished := by
  unfold walkChild
  split
  · exact bind_ne_error (consume_finishes _ _ _ state) fun result _ same => by cases same
  · exact finishes value _ state

theorem walkProperties_finishes {visit : Visit} (finishes : Finishes visit) (path : JsString)
    (depth : Nat) (properties : List Property) (state : Traversal) :
    walkProperties toLowerCase visit security path depth properties state ≠ .error .unfinished := by
  induction properties generalizing state with
  | nil => intro same; cases same
  | cons property rest ih =>
      rcases property_cases property with
        ⟨key, descriptor, rfl⟩ | ⟨id, descriptor, rfl⟩ | ⟨key, rfl⟩ | ⟨key, value, rfl⟩
      · exact ih state
      · intro same; cases same
      · intro same; cases same
      · rw [walkProperties_data]
        split
        · intro same; cases same
        · refine bind_ne_error (walkChild_finishes finishes path depth _ _ state) fun result _ => ?_
          exact bind_ne_error (ih result.2) fun result _ same => by cases same

theorem walk_level_finishes {heap : Heap} {fuel depth : Nat}
    (finishes : Finishes (below toLowerCase security heap fuel depth)) (value : Value) (path : JsString)
    (state : Traversal) :
    walk toLowerCase security heap (fuel + 1) value path depth state ≠ .error .unfinished := by
  rcases consume_cases value path depth state with full | ⟨spent, charged⟩
  · rw [walk_refused full]
    intro same; cases same
  cases value with
  | primitive value =>
      rw [walk_primitive charged]
      intro same; cases same
  | object ref =>
      by_cases date : ∃ time, heap ref = .date time
      · obtain ⟨time, stored⟩ := date
        rw [walk_date charged stored]
        cases time <;> (intro same; cases same)
      · have noDate : ∀ time, heap ref ≠ .date time := fun time stored => date ⟨time, stored⟩
        by_cases met : ref ∈ spent.seen
        · rw [walk_again charged noDate met]
          intro same; cases same
        · cases stored : heap ref with
          | date time => exact absurd stored (noDate time)
          | array array =>
              rw [walk_array charged stored met]
              refine bind_ne_error (walkElements_finishes finishes _ _ _) fun result _ => ?_
              split <;> (intro same; cases same)
          | plain object =>
              rw [walk_plain charged stored met]
              exact bind_ne_error (walkProperties_finishes finishes _ _ _ _) fun result _ same => by
                cases same

/-- A level is decided by the visits below it. -/
theorem walk_level_congr {heap : Heap} {fuel fuel' depth : Nat}
    (same : below toLowerCase security heap fuel depth = below toLowerCase security heap fuel' depth)
    (value : Value) (path : JsString) (state : Traversal) :
    walk toLowerCase security heap (fuel + 1) value path depth state =
      walk toLowerCase security heap (fuel' + 1) value path depth state := by
  unfold below at same
  rw [walk, walk, same]

/-- With a level to spare below the depth that is allowed, no walk is cut off. -/
theorem walk_finishes {heap : Heap} {fuel : Nat} :
    ∀ {depth : Nat}, depth ≤ MAX_SNAPSHOT_DEPTH + 1 → MAX_SNAPSHOT_DEPTH + 1 < fuel + depth →
      ∀ value path state,
        walk toLowerCase security heap fuel value path depth state ≠ .error .unfinished ∧
          walk toLowerCase security heap (fuel + 1) value path depth state =
            walk toLowerCase security heap fuel value path depth state := by
  induction fuel with
  | zero =>
      intro depth level enough
      omega
  | succ fuel ih =>
      intro depth level enough value path state
      rcases consume_cases value path depth state with full | ⟨spent, charged⟩
      · rw [walk_refused full, walk_refused full]
        exact ⟨fun same => (by cases same), rfl⟩
      · have room := (of_consume_ok charged).2.1
        have under := @ih (depth + 1) (by omega) (by omega)
        refine ⟨walk_level_finishes (fun value path state => (under value path state).1) value path state,
          walk_level_congr ?_ value path state⟩
        funext value path state
        exact (under value path state).2

/-- The walk of a graph ends before it is cut off, and a longer run finds nothing more. -/
theorem sanitizeWithin_eq {fuel : Nat} (enough : MAX_SNAPSHOT_DEPTH + 2 ≤ fuel) (graph : Graph) :
    sanitizeWithin toLowerCase fuel security graph = sanitizeSnapshot toLowerCase security graph ∧
      sanitizeWithin toLowerCase fuel security graph ≠ .error .unfinished := by
  have steady : ∀ value heap, walk toLowerCase security heap fuel value [] 0 ⟨0, 0, []⟩ =
      walk toLowerCase security heap (MAX_SNAPSHOT_DEPTH + 2) value [] 0 ⟨0, 0, []⟩ := by
    intro value heap
    induction fuel, enough using Nat.le_induction with
    | base => rfl
    | succ fuel enough ih =>
        rw [(walk_finishes (Nat.zero_le _) (by omega) value [] _).2]
        exact ih
  have ends : ∀ value heap, walk toLowerCase security heap fuel value [] 0 ⟨0, 0, []⟩ ≠
      .error .unfinished :=
    fun value heap => (walk_finishes (Nat.zero_le _) (by omega) value [] _).1
  unfold sanitizeSnapshot sanitizeWithin
  split
  · exact ⟨rfl, fun cut => by cases cut⟩
  · generalize (security.redactSnapshot.map (· graph)).getD graph = candidate
    refine ⟨by simp only [steady], fun cut => ?_⟩
    simp only at cut
    cases walked : walk toLowerCase security candidate.heap fuel candidate.root [] 0 ⟨0, 0, []⟩ with
    | error fault =>
        rw [walked] at cut
        exact ends _ _ (walked.trans (congrArg Except.error (Except.error.inj cut)))
    | ok result =>
        rw [walked] at cut
        cases cut

/-- Whatever is stored is within the limits and plain. -/
theorem sanitizeSnapshot_bounded {graph : Graph} {snapshot : Snapshot}
    (stored : sanitizeSnapshot toLowerCase security graph = .ok snapshot) :
    snapshot.nodes ≤ MAX_SNAPSHOT_NODES ∧ snapshot.height ≤ MAX_SNAPSHOT_DEPTH ∧ snapshot.Safe := by
  unfold sanitizeSnapshot sanitizeWithin at stored
  split at stored
  · cases stored
    exact ⟨by decide, by decide, trivial⟩
  · obtain ⟨⟨result, after⟩, walked, rfl⟩ := of_map_ok stored
    have charged := walk_charged walked
    have counted : after.nodes = 0 + result.nodes := charged.nodes
    have few := charged.few
    have height : 0 + result.height ≤ MAX_SNAPSHOT_DEPTH := charged.height
    rw [Nat.zero_add] at counted height
    rw [counted] at few
    exact ⟨few, height, charged.safe⟩

end

end SdcoreNest.ActionHistory
