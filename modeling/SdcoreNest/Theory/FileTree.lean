/-
# Theory.FileTree -- directories, files and symbolic links

A tree says what lies at each path of real directories.  A call's path is walked name by name
from the root; a link on the way is replaced by its target, so often at most.

* `walk_entry` -- the path of an entry leads to it;
* `walk_found` -- a walk ends at an entry, and not at a link if it follows them;
* `Onward.walk` -- a walk to a directory leads there in every later tree whose links are the same.
-/
import Mathlib.Logic.Function.Basic
import Mathlib.Data.List.Basic

namespace SdcoreNest.Theory.FileTree

set_option autoImplicit false

/-! ## Trees -/

inductive Errno where
  | noEntry
  | exists
  | notDirectory
  | isDirectory
  | tooManyLinks
deriving DecidableEq

/-- A component of the text of a link. -/
inductive Part (N : Type) where
  | self
  | parent
  | name (name : N)
deriving DecidableEq

structure Target (N : Type) where
  absolute : Bool
  parts : List (Part N)
deriving DecidableEq

inductive Entry (N : Type) where
  | directory
  | file (inode : Nat)
  | link (target : Target N)
deriving DecidableEq

def Entry.isLink {N : Type} : Entry N → Bool
  | .link _ => true
  | _ => false

structure Tree (N : Type) where
  entry : List N → Option (Entry N)
  rooted : entry [] = some .directory
  closed : ∀ (path : List N) (name : N), entry (path ++ [name]) ≠ none → entry path = some .directory

variable {N : Type}

namespace Tree

/-- The root alone. -/
def bare [DecidableEq N] : Tree N where
  entry path := if path = [] then some .directory else none
  rooted := if_pos rfl
  closed path name there :=
    absurd (if_neg (List.append_ne_nil_of_right_ne_nil path (List.cons_ne_nil name []))) there

theorem entry_bare [DecidableEq N] {path : List N} (some' : path ≠ []) : bare.entry path = none :=
  if_neg some'

/-- Walk on from a directory; `jump` goes on behind a link. -/
def descend (tree : Tree N) (follow : Bool) (jump : List N → List (Part N) → Except Errno (List N)) :
    List N → List (Part N) → Except Errno (List N)
  | here, [] => .ok here
  | here, .self :: rest => tree.descend follow jump here rest
  | here, .parent :: rest => tree.descend follow jump here.dropLast rest
  | here, .name name :: rest =>
      match tree.entry (here ++ [name]) with
      | none => .error .noEntry
      | some .directory => tree.descend follow jump (here ++ [name]) rest
      | some (.file _) => if rest.isEmpty then .ok (here ++ [name]) else .error .notDirectory
      | some (.link target) =>
          if rest.isEmpty && !follow then .ok (here ++ [name])
          else jump (if target.absolute then [] else here) (target.parts ++ rest)

/-- Walk on with so many links to go. -/
def travel (tree : Tree N) (follow : Bool) : Nat → List N → List (Part N) → Except Errno (List N)
  | 0 => tree.descend follow fun _ _ => .error .tooManyLinks
  | links + 1 => tree.descend follow (tree.travel follow links)

/-- Where a path leads. -/
def walk (tree : Tree N) (follow : Bool) (path : List N) : Except Errno (List N) :=
  tree.travel follow 40 [] (path.map .name)

variable {tree : Tree N}

/-! ## Where walks lead -/

theorem entry_dropLast {here : List N} (there : tree.entry here = some .directory) :
    tree.entry here.dropLast = some .directory := by
  rcases List.eq_nil_or_concat here with rfl | ⟨path, name, rfl⟩
  · exact there
  · rw [List.concat_eq_append, List.dropLast_concat]
    exact tree.closed path name (by rw [← List.concat_eq_append, there]; exact fun same => by cases same)

/-- What an entry lies under is a directory. -/
theorem entry_of_append {names : List N} (some' : names ≠ []) :
    ∀ {here : List N}, tree.entry (here ++ names) ≠ none → tree.entry here = some .directory := by
  induction names with
  | nil => exact absurd rfl some'
  | cons name rest ih =>
      intro here there
      rw [List.append_cons] at there
      by_cases last : rest = []
      · rw [last, List.append_nil] at there
        exact tree.closed here name there
      · exact tree.closed here name (by rw [ih last there]; exact fun same => by cases same)

/-- A walk ends at an entry, and not at a link if it follows them. -/
theorem travel_found {follow : Bool} (links : Nat) :
    ∀ {here : List N} {parts : List (Part N)} {path : List N},
    tree.entry here = some .directory → tree.travel follow links here parts = .ok path →
      ∃ entry, tree.entry path = some entry ∧ (follow = true → entry.isLink = false) := by
  have descends {jump : List N → List (Part N) → Except Errno (List N)}
      (jumps : ∀ {here : List N} {parts : List (Part N)} {path : List N},
        tree.entry here = some .directory → jump here parts = .ok path →
          ∃ entry, tree.entry path = some entry ∧ (follow = true → entry.isLink = false))
      {parts : List (Part N)} : ∀ {here path : List N}, tree.entry here = some .directory →
        tree.descend follow jump here parts = .ok path →
          ∃ entry, tree.entry path = some entry ∧ (follow = true → entry.isLink = false) := by
    induction parts with
    | nil =>
        intro here path there walked
        cases walked
        exact ⟨.directory, there, fun _ => rfl⟩
    | cons part rest ih =>
        intro here path there walked
        cases part with
        | self => exact ih there walked
        | parent => exact ih (entry_dropLast there) walked
        | name name =>
            rw [descend] at walked
            split at walked
            · cases walked
            next found => exact ih found walked
            next inode found =>
              split at walked
              · cases walked
                exact ⟨_, found, fun _ => rfl⟩
              · cases walked
            next target found =>
              split at walked
              next last =>
                cases walked
                refine ⟨_, found, fun follows => ?_⟩
                rw [follows, Bool.not_true, Bool.and_false] at last
                cases last
              next => exact jumps (by split; exacts [tree.rooted, there]) walked
  induction links with
  | zero => exact descends fun _ walked => by cases walked
  | succ links ih => exact descends ih

theorem walk_found {follow : Bool} {path found : List N} (walked : tree.walk follow path = .ok found) :
    ∃ entry, tree.entry found = some entry ∧ (follow = true → entry.isLink = false) :=
  travel_found 40 tree.rooted walked

/-- Directories on the way are walked through. -/
theorem descend_directories {follow : Bool} {jump : List N → List (Part N) → Except Errno (List N)}
    {names : List N} {rest : List (Part N)} : ∀ {here : List N},
      tree.entry (here ++ names) = some .directory →
        tree.descend follow jump here (names.map .name ++ rest) =
          tree.descend follow jump (here ++ names) rest := by
  induction names with
  | nil => exact fun _ => by rw [List.append_nil]; rfl
  | cons name names ih =>
      intro here there
      rw [List.append_cons] at there
      have first : tree.entry (here ++ [name]) = some .directory := by
        by_cases last : names = []
        · rwa [last, List.append_nil] at there
        · exact entry_of_append last (by rw [there]; exact fun same => by cases same)
      rw [List.map_cons, List.cons_append, descend, first, List.append_cons here name names]
      exact ih there

theorem walk_directory {dir : List N} (there : tree.entry dir = some .directory) (follow : Bool) :
    tree.walk follow dir = .ok dir := by
  have walked (jump : List N → List (Part N) → Except Errno (List N)) :
      tree.descend follow jump [] (dir.map .name) = .ok dir := by
    have through := @descend_directories _ tree follow jump dir [] [] there
    rw [List.append_nil] at through
    exact through
  exact walked _

/-- The last step of a walk that ends there: a link is not followed, or is none. -/
theorem walk_child {follow : Bool} {dir : List N} {name : N} (there : tree.entry dir = some .directory)
    (stays : follow = true → ∀ target, tree.entry (dir ++ [name]) ≠ some (.link target)) :
    tree.walk follow (dir ++ [name]) =
      if (tree.entry (dir ++ [name])).isSome then .ok (dir ++ [name]) else .error .noEntry := by
  have walked (jump : List N → List (Part N) → Except Errno (List N)) :
      tree.descend follow jump [] ((dir ++ [name]).map .name) =
        if (tree.entry (dir ++ [name])).isSome then .ok (dir ++ [name]) else .error .noEntry := by
    rw [List.map_append, List.map_singleton, @descend_directories _ tree follow jump dir _ [] there,
      List.nil_append, descend]
    split
    next found => rw [found]; rfl
    next found => rw [found]; rfl
    next inode found => rw [found]; rfl
    next target found =>
      cases follow with
      | false => rw [found]; rfl
      | true => exact absurd found (stays rfl target)
  exact walked _

/-- No link, in a directory: where such a path leads does not depend on anything else. -/
structure Settled (tree : Tree N) (path : List N) : Prop where
  parent : tree.entry path.dropLast = some .directory
  unlinked : ∀ target, tree.entry path ≠ some (.link target)

theorem walk_settled {path : List N} (settled : tree.Settled path) (follow : Bool) :
    tree.walk follow path = if (tree.entry path).isSome then .ok path else .error .noEntry := by
  rcases List.eq_nil_or_concat path with rfl | ⟨dir, name, rfl⟩
  · rw [walk_directory tree.rooted, tree.rooted]
    rfl
  · rw [List.concat_eq_append] at settled ⊢
    have parent := settled.parent
    rw [List.dropLast_concat] at parent
    exact walk_child parent fun _ => settled.unlinked

theorem settled_of_entry {path : List N} {entry : Entry N} (there : tree.entry path = some entry)
    (plain : entry.isLink = false) : tree.Settled path := by
  refine ⟨?_, fun target linked => ?_⟩
  · rcases List.eq_nil_or_concat path with rfl | ⟨dir, name, rfl⟩
    · exact tree.rooted
    · rw [List.concat_eq_append] at there ⊢
      rw [List.dropLast_concat]
      exact tree.closed dir name (by rw [there]; exact fun same => by cases same)
  · cases there.symm.trans linked
    cases plain

/-- An entry that is no link is where its path leads. -/
theorem walk_entry {path : List N} {entry : Entry N} (there : tree.entry path = some entry)
    (plain : entry.isLink = false) (follow : Bool) : tree.walk follow path = .ok path := by
  rw [walk_settled (settled_of_entry there plain), there]
  rfl

/-- Where a walk ends that follows links. -/
theorem settled_of_walk {path found : List N} (walked : tree.walk true path = .ok found) :
    tree.Settled found := by
  obtain ⟨entry, there, plain⟩ := walk_found walked
  exact settled_of_entry there (plain rfl)

/-- A path that breaks off below a directory. -/
theorem walk_missing {names : List N} : ∀ {dir : List N}, tree.entry dir = some .directory →
    (∀ front, front <+: names → front ≠ names →
      tree.entry (dir ++ front) = none ∨ tree.entry (dir ++ front) = some .directory) →
    tree.entry (dir ++ names) = none → ∀ follow, tree.walk follow (dir ++ names) = .error .noEntry := by
  induction names with
  | nil =>
      intro dir there _ missing
      rw [List.append_nil, there] at missing
      cases missing
  | cons name rest ih =>
      intro dir there above missing follow
      rw [List.append_cons] at missing ⊢
      cases first : tree.entry (dir ++ [name]) with
      | none =>
          have walked (jump : List N → List (Part N) → Except Errno (List N)) :
              tree.descend follow jump [] ((dir ++ [name] ++ rest).map .name) = .error .noEntry := by
            rw [List.map_append, List.map_append, List.append_assoc,
              @descend_directories _ tree follow jump dir _ [] there, List.nil_append, List.map_singleton,
              List.singleton_append, descend, first]
          exact walked _
      | some entry =>
          have directory : tree.entry (dir ++ [name]) = some .directory := by
            by_cases last : rest = []
            · rw [last, List.append_nil, first] at missing
              cases missing
            · have front : [name] <+: name :: rest := ⟨rest, rfl⟩
              rcases above [name] front (fun same => last (List.cons.inj same).2.symm) with none' | there'
              · cases first.symm.trans none'
              · exact there'
          refine ih directory (fun front under different => ?_) missing follow
          rw [← List.append_cons]
          exact above (name :: front) (List.cons_prefix_cons.mpr ⟨rfl, under⟩)
            fun same => different (List.cons.inj same).2

/-- A walk over a directory goes on from there. -/
theorem travel_append {links : Nat} {dir : List N} (there : tree.entry dir = some .directory)
    (rest : List (Part N)) : ∀ {here : List N} {parts : List (Part N)},
      tree.travel true links here parts = .ok dir →
        ∃ left, tree.travel true links here (parts ++ rest) = tree.travel true left dir rest := by
  have descends {jump : List N → List (Part N) → Except Errno (List N)} {links : Nat}
      (same : tree.travel true links = tree.descend true jump)
      (jumps : ∀ {here : List N} {parts : List (Part N)}, jump here parts = .ok dir →
        ∃ left, jump here (parts ++ rest) = tree.travel true left dir rest)
      {parts : List (Part N)} : ∀ {here : List N}, tree.descend true jump here parts = .ok dir →
        ∃ left, tree.descend true jump here (parts ++ rest) = tree.travel true left dir rest := by
    induction parts with
    | nil =>
        intro here walked
        cases walked
        exact ⟨links, by rw [same]; rfl⟩
    | cons part more ih =>
        intro here walked
        cases part with
        | self => exact ih walked
        | parent => exact ih walked
        | name name =>
            rw [descend] at walked
            rw [List.cons_append, descend]
            split at walked
            · cases walked
            next => exact ih walked
            next inode found =>
              split at walked
              · cases walked
                cases found.symm.trans there
              · cases walked
            next target found =>
              simp only [Bool.not_true, Bool.and_false, Bool.false_eq_true, if_false] at walked ⊢
              rw [← List.append_assoc]
              exact jumps walked
  induction links with
  | zero => exact fun walked => @descends _ 0 rfl (fun walked => by cases walked) _ _ walked
  | succ links ih => exact fun walked => @descends _ (links + 1) rfl ih _ _ walked

/-- A path by way of a directory. -/
theorem walk_append {path dir : List N} {name : N} (walked : tree.walk true path = .ok dir)
    (there : tree.entry dir = some .directory) (child : tree.entry (dir ++ [name]) = some .directory) :
    tree.walk true (path ++ [name]) = .ok (dir ++ [name]) := by
  obtain ⟨left, same⟩ := travel_append there [.name name] walked
  rw [walk, List.map_append, List.map_singleton, same]
  have last (jump : List N → List (Part N) → Except Errno (List N)) :
      tree.descend true jump dir [.name name] = .ok (dir ++ [name]) := by
    rw [descend, child]
    rfl
  cases left with
  | zero => exact last _
  | succ left => exact last _

/-! ## Later trees -/

/-- Directories and links stay, and no link is new. -/
structure Onward (tree later : Tree N) : Prop where
  directories : ∀ path, tree.entry path = some .directory → later.entry path = some .directory
  links : ∀ path target, later.entry path = some (.link target) ↔ tree.entry path = some (.link target)

theorem Onward.refl (tree : Tree N) : tree.Onward tree := ⟨fun _ => id, fun _ _ => Iff.rfl⟩

theorem Onward.trans {later last : Tree N} (onward : tree.Onward later) (onward' : later.Onward last) :
    tree.Onward last :=
  ⟨fun path there => onward'.directories path (onward.directories path there),
    fun path target => (onward'.links path target).trans (onward.links path target)⟩

theorem Settled.onward {later : Tree N} {path : List N} (settled : tree.Settled path)
    (onward : tree.Onward later) : later.Settled path :=
  ⟨onward.directories _ settled.parent,
    fun target found => settled.unlinked target ((onward.links path target).mp found)⟩

/-- A walk to a directory leads there later on. -/
theorem Onward.walk {later : Tree N} (onward : tree.Onward later) {follow : Bool} {path dir : List N}
    (walked : tree.walk follow path = .ok dir) (there : tree.entry dir = some .directory) :
    later.walk follow path = .ok dir := by
  have descends {jump jump' : List N → List (Part N) → Except Errno (List N)}
      (jumps : ∀ {here : List N} {parts : List (Part N)}, jump here parts = .ok dir →
        jump' here parts = .ok dir)
      {parts : List (Part N)} : ∀ {here : List N}, tree.descend follow jump here parts = .ok dir →
        later.descend follow jump' here parts = .ok dir := by
    induction parts with
    | nil => exact id
    | cons part rest ih =>
        intro here walked
        cases part with
        | self => exact ih walked
        | parent => exact ih walked
        | name name =>
            rw [descend] at walked ⊢
            split at walked
            · cases walked
            next found =>
              rw [onward.directories _ found]
              exact ih walked
            next inode found =>
              split at walked
              · cases walked
                cases found.symm.trans there
              · cases walked
            next target found =>
              rw [(onward.links _ target).mpr found]
              split at walked
              · cases walked
                cases found.symm.trans there
              next more => exact (if_neg more).trans (jumps walked)
  have travels (links : Nat) : ∀ {here : List N} {parts : List (Part N)},
      tree.travel follow links here parts = .ok dir → later.travel follow links here parts = .ok dir := by
    induction links with
    | zero => exact descends fun walked => by cases walked
    | succ links ih => exact descends ih
  exact travels 40 walked

/-! ## Changes -/

/-- A free place in a directory. -/
structure Spot (tree : Tree N) where
  dir : List N
  name : N
  parent : tree.entry dir = some .directory
  absent : tree.entry (dir ++ [name]) = none

def Spot.path (spot : tree.Spot) : List N := spot.dir ++ [spot.name]

variable [DecidableEq N]

/-- The free place that a path names. -/
def spot (tree : Tree N) (path : List N) : Except Errno tree.Spot :=
  match path.getLast?, tree.walk true path.dropLast with
  | none, _ => .error .exists
  | some _, .error errno => .error errno
  | some name, .ok dir =>
      if parent : tree.entry dir = some .directory then
        if absent : tree.entry (dir ++ [name]) = none then .ok ⟨dir, name, parent, absent⟩ else .error .exists
      else .error .notDirectory

theorem spot_child {dir : List N} {name : N} (there : tree.entry dir = some .directory) {spot : tree.Spot}
    (found : tree.spot (dir ++ [name]) = .ok spot) : spot.path = dir ++ [name] := by
  rw [Tree.spot, List.getLast?_concat, List.dropLast_concat, walk_directory there] at found
  simp only [there, dite_true] at found
  split at found
  · cases found
    rfl
  · cases found

theorem spot_named {here : List N} {name : N} {spot : tree.Spot}
    (found : tree.spot (here ++ [name]) = .ok spot) :
    tree.walk true here = .ok spot.dir ∧ spot.name = name := by
  rw [Tree.spot, List.getLast?_concat, List.dropLast_concat] at found
  cases walked : tree.walk true here with
  | error errno =>
      rw [walked] at found
      cases found
  | ok dir =>
      rw [walked] at found
      simp only at found
      split at found
      · split at found
        · cases found
          exact ⟨rfl, rfl⟩
        · cases found
      · cases found

theorem spot_absent {dir : List N} {name : N} (there : tree.entry dir = some .directory)
    (absent : tree.entry (dir ++ [name]) = none) :
    tree.spot (dir ++ [name]) = .ok ⟨dir, name, there, absent⟩ := by
  rw [Tree.spot, List.getLast?_concat, List.dropLast_concat, walk_directory there]
  simp only [there, absent, dite_true]

theorem spot_taken {dir : List N} {name : N} (there : tree.entry dir = some .directory)
    (taken : tree.entry (dir ++ [name]) ≠ none) : tree.spot (dir ++ [name]) = .error .exists := by
  rw [Tree.spot, List.getLast?_concat, List.dropLast_concat, walk_directory there]
  simp only [there, taken, dite_true, dite_false]

/-- Put an entry in a free place. -/
def add (tree : Tree N) (spot : tree.Spot) (entry : Entry N) : Tree N where
  entry := Function.update tree.entry spot.path (some entry)
  rooted := by
    rw [Function.update_of_ne]
    · exact tree.rooted
    · exact fun same => List.append_ne_nil_of_right_ne_nil _ (by simp) same.symm
  closed path name there := by
    have apart {path : List N} (directory : tree.entry path = some .directory) : path ≠ spot.path := by
      rintro rfl
      cases directory.symm.trans spot.absent
    by_cases same : path ++ [name] = spot.path
    · obtain ⟨rfl, -⟩ := List.append_inj' same rfl
      rw [Function.update_of_ne (apart spot.parent)]
      exact spot.parent
    · rw [Function.update_of_ne same] at there
      have parent := tree.closed path name there
      rw [Function.update_of_ne (apart parent)]
      exact parent

/-- Take away what is no directory. -/
def remove (tree : Tree N) (path : List N) (plain : tree.entry path ≠ some .directory) : Tree N where
  entry := Function.update tree.entry path none
  rooted := by
    rw [Function.update_of_ne]
    · exact tree.rooted
    · rintro rfl
      exact plain tree.rooted
  closed other name there := by
    by_cases same : other ++ [name] = path
    · rw [same, Function.update_self] at there
      exact absurd rfl there
    · rw [Function.update_of_ne same] at there
      have parent := tree.closed other name there
      rw [Function.update_of_ne]
      · exact parent
      · rintro rfl
        exact plain parent

theorem entry_add (spot : tree.Spot) (entry : Entry N) (path : List N) :
    (tree.add spot entry).entry path = if path = spot.path then some entry else tree.entry path :=
  Function.update_apply ..

theorem entry_remove {path : List N} (plain : tree.entry path ≠ some .directory) (other : List N) :
    (tree.remove path plain).entry other = if other = path then none else tree.entry other :=
  Function.update_apply ..

theorem onward_add (spot : tree.Spot) {entry : Entry N} (plain : entry.isLink = false) :
    tree.Onward (tree.add spot entry) where
  directories path there := by
    rw [entry_add, if_neg]
    · exact there
    · rintro rfl
      cases there.symm.trans spot.absent
  links path target := by
    rw [entry_add]
    split
    next same =>
      subst same
      constructor
      · intro found
        cases found
        cases plain
      · intro found
        cases found.symm.trans spot.absent
    next => exact Iff.rfl

theorem onward_remove {path : List N} (plain : tree.entry path ≠ some .directory)
    (unlinked : ∀ target, tree.entry path ≠ some (.link target)) : tree.Onward (tree.remove path plain) where
  directories other found := by
    rw [entry_remove, if_neg]
    · exact found
    · rintro rfl
      exact plain found
  links other target := by
    rw [entry_remove]
    split
    next same =>
      subst same
      constructor
      · intro found
        cases found
      · exact fun found => absurd found (unlinked target)
    next => exact Iff.rfl

end Tree

/-! ## Disks -/

/-- A tree and the contents of its files. -/
structure Disk (N B : Type) where
  tree : Tree N
  contents : Nat → List B
  /-- Numbers from here on are free. -/
  next : Nat
  used : ∀ (path : List N) (inode : Nat), tree.entry path = some (.file inode) → inode < next

namespace Disk

/-- The root alone. -/
def bare [DecidableEq N] {B : Type} (contents : Nat → List B) (next : Nat) : Disk N B where
  tree := Tree.bare
  contents := contents
  next := next
  used path inode there := by
    have only : (if path = [] then some Entry.directory else none) = some (.file inode) := there
    split at only <;> cases only

section

variable {B : Type} (disk : Disk N B)

def lstat (path : List N) : Except Errno (Entry N) := do
  let found ← disk.tree.walk false path
  match disk.tree.entry found with
  | some entry => .ok entry
  | none => .error .noEntry

def realpath (path : List N) : Except Errno (List N) := disk.tree.walk true path

/-- The contents of the file that a path leads to. -/
def read (path : List N) : Except Errno (List B) := do
  let found ← disk.tree.walk true path
  match disk.tree.entry found with
  | some (.file inode) => .ok (disk.contents inode)
  | some .directory => .error .isDirectory
  | _ => .error .noEntry

/-- The size of what a path leads to, 0 for a directory. -/
def size (path : List N) : Except Errno Nat := do
  let found ← disk.tree.walk true path
  match disk.tree.entry found with
  | some (.file inode) => .ok (disk.contents inode).length
  | some .directory => .ok 0
  | _ => .error .noEntry

/-- Write on at the end of an open file. -/
def append (inode : Nat) (bytes : List B) : Disk N B :=
  { disk with contents := Function.update disk.contents inode (disk.contents inode ++ bytes) }

variable [DecidableEq N]

/-- Put an entry in a free place. -/
def put (spot : disk.tree.Spot) (entry : Entry N) (known : ∀ inode, entry = .file inode → inode < disk.next) :
    Disk N B where
  tree := disk.tree.add spot entry
  contents := disk.contents
  next := disk.next
  used path inode there := by
    rw [Tree.entry_add] at there
    split at there
    · exact known inode (Option.some.inj there)
    · exact disk.used path inode there

def mkdir (path : List N) : Except Errno Unit × Disk N B :=
  match disk.tree.spot path with
  | .error errno => (.error errno, disk)
  | .ok spot => (.ok (), disk.put spot .directory fun _ same => by cases same)

/-- `mkdir` with all directories on the way. -/
def mkdirs (disk : Disk N B) (here : List N) : List N → Except Errno Unit × Disk N B
  | [] => (.ok (), disk)
  | name :: rest =>
      match disk.mkdir (here ++ [name]) with
      | (.ok _, made) => made.mkdirs (here ++ [name]) rest
      | (.error .exists, _) =>
          match disk.tree.walk true (here ++ [name]) with
          | .error errno => (.error errno, disk)
          | .ok found =>
              if disk.tree.entry found = some .directory then disk.mkdirs (here ++ [name]) rest
              else (.error .exists, disk)
      | (.error errno, _) => (.error errno, disk)

/-- A disk with one more file, which has no name yet. -/
def allot : Disk N B where
  tree := disk.tree
  contents := Function.update disk.contents disk.next []
  next := disk.next + 1
  used path inode there := Nat.lt_succ_of_lt (disk.used path inode there)

/-- Open a new file for writing. -/
def create (path : List N) : Except Errno Nat × Disk N B :=
  match disk.tree.spot path with
  | .error errno => (.error errno, disk)
  | .ok spot => (.ok disk.next, disk.allot.put spot (.file disk.next) fun _ same => by
      cases same
      exact Nat.lt_succ_self _)

/-- A second name for what is no directory. -/
def link (source destination : List N) : Except Errno Unit × Disk N B :=
  match disk.tree.walk false source, disk.tree.spot destination with
  | .error errno, _ => (.error errno, disk)
  | .ok _, .error errno => (.error errno, disk)
  | .ok found, .ok spot =>
      match there : disk.tree.entry found with
      | none => (.error .noEntry, disk)
      | some .directory => (.error .isDirectory, disk)
      | some entry => (.ok (), disk.put spot entry fun inode same => disk.used found inode (same ▸ there))

def unlink (path : List N) : Except Errno Unit × Disk N B :=
  match disk.tree.walk false path with
  | .error errno => (.error errno, disk)
  | .ok found =>
      if plain : disk.tree.entry found = some .directory then (.error .isDirectory, disk)
      else (.ok (), { disk with
        tree := disk.tree.remove found plain
        used := fun path inode there => by
          rw [Tree.entry_remove] at there
          split at there
          · cases there
          · exact disk.used path inode there })

end

/-! ## What calls change -/

section

variable {B : Type}

/-- The later disk differs at these places at most, and the files that there were are as they were. -/
structure Differs (places : List N → Prop) (disk later : Disk N B) : Prop where
  onward : disk.tree.Onward later.tree
  entries : ∀ path, later.tree.entry path = disk.tree.entry path ∨ places path
  contents : ∀ inode < disk.next, later.contents inode = disk.contents inode
  next : disk.next ≤ later.next

theorem Differs.refl (places : List N → Prop) (disk : Disk N B) : Differs places disk disk :=
  ⟨.refl _, fun _ => .inl rfl, fun _ _ => rfl, Nat.le_refl _⟩

theorem Differs.mono {places places' : List N → Prop} {disk later : Disk N B}
    (differs : Differs places disk later) (more : ∀ path, places path → places' path) :
    Differs places' disk later :=
  ⟨differs.onward, fun path => (differs.entries path).imp_right (more path), differs.contents, differs.next⟩

variable [DecidableEq N] {disk : Disk N B}

theorem differs_put (spot : disk.tree.Spot) {entry : Entry N}
    (known : ∀ inode, entry = .file inode → inode < disk.next) (plain : entry.isLink = false) :
    Differs (· = spot.path) disk (disk.put spot entry known) where
  onward := Tree.onward_add spot plain
  entries path := by
    change (disk.tree.add spot entry).entry path = _ ∨ _
    rw [Tree.entry_add]
    split
    next same => exact .inr same
    next => exact .inl rfl
  contents _ _ := rfl
  next := Nat.le_refl _

/-- A call that makes a new name in a directory differs there at most. -/
theorem mkdir_differs {dir : List N} {name : N} (there : disk.tree.entry dir = some .directory) :
    Differs (· = dir ++ [name]) disk (disk.mkdir (dir ++ [name])).2 := by
  rw [mkdir]
  split
  · exact .refl _ disk
  next spot found =>
    rw [← Tree.spot_child there found]
    exact differs_put spot (fun _ same => by cases same) rfl

theorem create_differs {dir : List N} {name : N} (there : disk.tree.entry dir = some .directory) :
    Differs (· = dir ++ [name]) disk (disk.create (dir ++ [name])).2 := by
  rw [create]
  split
  · exact .refl _ disk
  next spot found =>
    have put := @differs_put _ _ _ disk.allot spot (.file disk.next) (fun _ same => by
      cases same
      exact Nat.lt_succ_self _) rfl
    exact {
      onward := put.onward
      entries := Tree.spot_child there found ▸ put.entries
      contents := fun inode old => Function.update_of_ne (Nat.ne_of_lt old) _ _
      next := Nat.le_succ _ }

theorem create_ok {path : List N} {inode : Nat} (created : (disk.create path).1 = .ok inode) :
    inode = disk.next := by
  rw [create] at created
  split at created
  · cases created
  · exact (Except.ok.inj created).symm

theorem link_differs {source dir : List N} {name : N} (settled : disk.tree.Settled source)
    (there : disk.tree.entry dir = some .directory) :
    Differs (· = dir ++ [name]) disk (disk.link source (dir ++ [name])).2 := by
  rw [link, Tree.walk_settled settled]
  split
  · exact .refl _ disk
  · exact .refl _ disk
  next found spot walked placed =>
    split at walked
    · cases walked
      split
      · exact .refl _ disk
      · exact .refl _ disk
      next entry plain known =>
        rw [← Tree.spot_child there placed]
        refine differs_put spot (fun inode same => disk.used source inode (same ▸ known)) ?_
        cases entry with
        | directory => rfl
        | file inode => rfl
        | link target => exact absurd known (settled.unlinked target)
    · cases walked

theorem unlink_differs {path : List N} (settled : disk.tree.Settled path) :
    Differs (fun other => other = path ∧ disk.tree.entry path ≠ some .directory) disk
      (disk.unlink path).2 := by
  rw [unlink, Tree.walk_settled settled]
  split
  · exact .refl _ disk
  next found walked =>
    split at walked
    · cases walked
      split
      · exact .refl _ disk
      next plain => exact {
        onward := Tree.onward_remove plain settled.unlinked
        entries := fun other => by
          change (disk.tree.remove path plain).entry other = _ ∨ _
          rw [Tree.entry_remove]
          split
          next same => exact .inr ⟨same, plain⟩
          next => exact .inl rfl
        contents := fun _ _ => rfl
        next := Nat.le_refl _ }
    · cases walked

/-- A directory on the way along the names. -/
def OnTheWay (disk : Disk N B) (here names path : List N) : Prop :=
  disk.tree.entry path = some .directory ∧
    ∃ front, front <+: names ∧ disk.tree.walk true (here ++ front) = .ok path

omit [DecidableEq N] in
theorem OnTheWay.onward {here names path : List N} {later : Disk N B}
    (onTheWay : disk.OnTheWay here names path) (onward : disk.tree.Onward later.tree) :
    later.OnTheWay here names path := by
  obtain ⟨there, front, under, walked⟩ := onTheWay
  exact ⟨onward.directories path there, front, under, onward.walk walked there⟩

omit [DecidableEq N] in
theorem OnTheWay.before {here names path : List N} {name : N}
    (onTheWay : disk.OnTheWay (here ++ [name]) names path) : disk.OnTheWay here (name :: names) path := by
  obtain ⟨there, front, under, walked⟩ := onTheWay
  exact ⟨there, name :: front, List.cons_prefix_cons.mpr ⟨rfl, under⟩, by rwa [List.append_cons]⟩

/-- A new directory is where its name leads. -/
theorem walk_put {here : List N} {name : N} {spot : disk.tree.Spot}
    (placed : disk.tree.spot (here ++ [name]) = .ok spot) :
    (disk.put spot .directory fun _ same => by cases same).tree.entry spot.path = some .directory ∧
      (disk.put spot .directory fun _ same => by cases same).tree.walk true (here ++ [name]) =
        .ok spot.path := by
  obtain ⟨walked, rfl⟩ := Tree.spot_named placed
  have onward := (differs_put spot (fun _ same => by cases same) rfl :
    Differs _ disk (disk.put spot .directory fun _ same => by cases same)).onward
  have child : (disk.put spot .directory fun _ same => by cases same).tree.entry spot.path =
      some .directory := by
    change (disk.tree.add spot _).entry _ = _
    rw [Tree.entry_add, if_pos rfl]
  exact ⟨child, Tree.walk_append (onward.walk walked spot.parent) (onward.directories _ spot.parent) child⟩

/-- `mkdirs` makes directories on the way, where there was nothing. -/
theorem mkdirs_differs {names : List N} : ∀ {disk : Disk N B} {here : List N},
    Differs (fun path => disk.tree.entry path = none ∧ (disk.mkdirs here names).2.OnTheWay here names path)
      disk (disk.mkdirs here names).2 := by
  induction names with
  | nil => exact fun {disk _} => .refl _ disk
  | cons name rest ih =>
      intro disk here
      rw [mkdirs, mkdir]
      cases placed : disk.tree.spot (here ++ [name]) with
      | error errno =>
          cases errno with
          | «exists» =>
              simp only
              split
              · exact .refl _ disk
              · split
                · exact (@ih disk (here ++ [name])).mono fun path place => ⟨place.1, place.2.before⟩
                · exact .refl _ disk
          | noEntry => exact .refl _ disk
          | notDirectory => exact .refl _ disk
          | isDirectory => exact .refl _ disk
          | tooManyLinks => exact .refl _ disk
      | ok spot =>
          simp only
          have made := @differs_put _ _ _ disk spot .directory (fun _ same => by cases same) rfl
          have more := @ih (disk.put spot .directory fun _ same => by cases same) (here ++ [name])
          obtain ⟨child, walked⟩ := walk_put placed
          have first : (disk.put spot .directory fun _ same => by cases same).OnTheWay here (name :: rest)
              spot.path := ⟨child, [name], List.cons_prefix_cons.mpr ⟨rfl, List.nil_prefix⟩, walked⟩
          refine ⟨made.onward.trans more.onward, fun path => ?_, fun inode old => ?_,
            Nat.le_trans made.next more.next⟩
          · by_cases new : path = spot.path
            · exact .inr (new ▸ ⟨spot.absent, first.onward more.onward⟩)
            · have before := (made.entries path).resolve_right new
              rcases more.entries path with same | ⟨absent, onTheWay⟩
              · exact .inl (same.trans before)
              · exact .inr ⟨before ▸ absent, onTheWay.before⟩
          · exact (more.contents inode (Nat.lt_of_lt_of_le old made.next)).trans (made.contents inode old)

/-- What `mkdirs` made is a directory. -/
theorem mkdirs_ok {names : List N} : ∀ {disk later : Disk N B} {here dir : List N},
    disk.tree.walk true here = .ok dir → disk.tree.entry dir = some .directory →
      disk.mkdirs here names = (.ok (), later) →
        ∃ made, later.tree.walk true (here ++ names) = .ok made ∧
          later.tree.entry made = some .directory := by
  induction names with
  | nil =>
      intro disk later here dir walked there made
      cases made
      exact ⟨dir, (List.append_nil here).symm ▸ walked, there⟩
  | cons name rest ih =>
      intro disk later here dir walked there made
      rw [List.append_cons]
      rw [mkdirs, mkdir] at made
      cases placed : disk.tree.spot (here ++ [name]) with
      | error errno =>
          rw [placed] at made
          cases errno with
          | «exists» =>
              simp only at made
              split at made
              · cases made
              next found walked' =>
                split at made
                next there' => exact ih walked' there' made
                next => cases made
          | noEntry => cases made
          | notDirectory => cases made
          | isDirectory => cases made
          | tooManyLinks => cases made
      | ok spot =>
          rw [placed] at made
          obtain ⟨child, walked'⟩ := walk_put placed
          exact ih walked' child made

omit [DecidableEq N] in
theorem lstat_of_walk {path found : List N} {entry : Entry N} (walked : disk.tree.walk false path = .ok found)
    (there : disk.tree.entry found = some entry) : disk.lstat path = .ok entry := by
  rw [lstat, walked]
  change (match disk.tree.entry found with
    | some entry => Except.ok entry
    | none => Except.error Errno.noEntry) = _
  rw [there]

omit [DecidableEq N] in
theorem of_lstat {dir : List N} {name : N} {entry : Entry N} (there : disk.tree.entry dir = some .directory)
    (looked : disk.lstat (dir ++ [name]) = .ok entry) : disk.tree.entry (dir ++ [name]) = some entry := by
  have walked := @Tree.walk_child _ disk.tree false dir name there fun follows => by cases follows
  cases found : disk.tree.entry (dir ++ [name]) with
  | none =>
      rw [lstat, walked, found] at looked
      cases looked
  | some entry' =>
      rw [found] at walked
      rw [lstat_of_walk walked found] at looked
      exact congrArg some (Except.ok.inj looked)

omit [DecidableEq N] in
theorem read_of_walk {path found : List N} {inode : Nat} (walked : disk.tree.walk true path = .ok found)
    (there : disk.tree.entry found = some (.file inode)) : disk.read path = .ok (disk.contents inode) := by
  rw [read, walked]
  change (match disk.tree.entry found with
    | some (.file inode) => Except.ok (disk.contents inode)
    | some .directory => Except.error Errno.isDirectory
    | _ => Except.error Errno.noEntry) = _
  rw [there]

omit [DecidableEq N] in
theorem size_of_walk {path found : List N} {inode : Nat} (walked : disk.tree.walk true path = .ok found)
    (there : disk.tree.entry found = some (.file inode)) :
    disk.size path = .ok (disk.contents inode).length := by
  rw [size, walked]
  change (match disk.tree.entry found with
    | some (.file inode) => Except.ok (disk.contents inode).length
    | some .directory => Except.ok 0
    | _ => Except.error Errno.noEntry) = _
  rw [there]

omit [DecidableEq N] in
/-- What is read at a settled path is what the file there contains. -/
theorem of_read {path : List N} {bytes : List B} (settled : disk.tree.Settled path)
    (read : disk.read path = .ok bytes) :
    ∃ inode, disk.tree.entry path = some (.file inode) ∧ bytes = disk.contents inode := by
  have walked := Tree.walk_settled settled true
  cases there : disk.tree.entry path with
  | none =>
      rw [Disk.read, walked, there] at read
      cases read
  | some entry =>
      rw [there] at walked
      rw [Disk.read, walked] at read
      change (match disk.tree.entry path with
        | some (.file inode) => Except.ok (disk.contents inode)
        | some .directory => Except.error Errno.isDirectory
        | _ => Except.error Errno.noEntry) = Except.ok bytes at read
      rw [there] at read
      cases entry with
      | directory => cases read
      | file inode => exact ⟨inode, rfl, (Except.ok.inj read).symm⟩
      | link target => cases read

/-! ## Calls that do what they are for -/

theorem mkdir_free {dir : List N} {name : N} (there : disk.tree.entry dir = some .directory)
    (absent : disk.tree.entry (dir ++ [name]) = none) :
    ∃ later, disk.mkdir (dir ++ [name]) = (.ok (), later) ∧
      (∀ path, later.tree.entry path =
        if path = dir ++ [name] then some .directory else disk.tree.entry path) ∧
        later.contents = disk.contents := by
  rw [mkdir, Tree.spot_absent there absent]
  exact ⟨_, rfl, Tree.entry_add ⟨dir, name, there, absent⟩ .directory, rfl⟩

theorem create_free {dir : List N} {name : N} (there : disk.tree.entry dir = some .directory)
    (absent : disk.tree.entry (dir ++ [name]) = none) :
    ∃ later, disk.create (dir ++ [name]) = (.ok disk.next, later) ∧
      (∀ path, later.tree.entry path =
        if path = dir ++ [name] then some (.file disk.next) else disk.tree.entry path) ∧
          later.contents = Function.update disk.contents disk.next [] := by
  rw [create, Tree.spot_absent there absent]
  exact ⟨_, rfl, Tree.entry_add ⟨dir, name, there, absent⟩ (.file disk.next), rfl⟩

theorem create_taken {dir : List N} {name : N} (there : disk.tree.entry dir = some .directory)
    (taken : disk.tree.entry (dir ++ [name]) ≠ none) :
    disk.create (dir ++ [name]) = (.error .exists, disk) := by
  rw [create, Tree.spot_taken there taken]

theorem link_free {source dir : List N} {name : N} {inode : Nat}
    (file : disk.tree.entry source = some (.file inode)) (there : disk.tree.entry dir = some .directory)
    (absent : disk.tree.entry (dir ++ [name]) = none) :
    ∃ later, disk.link source (dir ++ [name]) = (.ok (), later) ∧
      (∀ path, later.tree.entry path =
        if path = dir ++ [name] then some (.file inode) else disk.tree.entry path) ∧
          later.contents = disk.contents := by
  rw [link, Tree.walk_entry file rfl, Tree.spot_absent there absent]
  simp only
  split
  next none' => cases none'.symm.trans file
  next directory => cases directory.symm.trans file
  next entry _ found =>
    cases found.symm.trans file
    exact ⟨_, rfl, Tree.entry_add ⟨dir, name, there, absent⟩ (.file inode), rfl⟩

theorem link_taken {source dir : List N} {name : N} {inode : Nat}
    (file : disk.tree.entry source = some (.file inode)) (there : disk.tree.entry dir = some .directory)
    (taken : disk.tree.entry (dir ++ [name]) ≠ none) :
    disk.link source (dir ++ [name]) = (.error .exists, disk) := by
  rw [link, Tree.walk_entry file rfl, Tree.spot_taken there taken]

theorem unlink_file {path : List N} {inode : Nat} (file : disk.tree.entry path = some (.file inode)) :
    ∃ later, disk.unlink path = (.ok (), later) ∧
      (∀ other, later.tree.entry other = if other = path then none else disk.tree.entry other) ∧
        later.contents = disk.contents := by
  have plain : disk.tree.entry path ≠ some .directory := by
    rw [file]
    exact fun same => by cases same
  rw [unlink, Tree.walk_entry file rfl]
  simp only [plain, dite_false]
  exact ⟨_, rfl, Tree.entry_remove plain, rfl⟩

end

end Disk

end SdcoreNest.Theory.FileTree
