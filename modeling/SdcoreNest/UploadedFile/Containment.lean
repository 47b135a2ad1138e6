/-
# UploadedFile.Containment -- the local driver stays below its root

An invariant of any number of operations that run side by side, with whatever keys and over whatever
links the disk had.  No call makes a link, and directories stay; so what a worker has checked stays so
until it acts on it.

* `Sound` -- how the disk may differ from the one there was at first;
* `Contained` -- that, and that what workers know is so;
* `disk_contained` -- what is changed and what is read.
-/
import SdcoreNest.UploadedFile.LocalDisk

namespace SdcoreNest.UploadedFile.LocalDisk

open SdcoreNest.Theory SdcoreNest.Theory.JsString SdcoreNest.Theory.FileTree SdcoreNest.Theory.Machine

set_option autoImplicit false

abbrev LocalFiles := Disk JsString UInt8

/-- The configured root leads to the directory. -/
structure Rooted (configuredRoot : Path) (disk : LocalFiles) (root : Path) : Prop where
  real : disk.realpath configuredRoot = .ok root
  directory : disk.tree.entry root = some .directory

/-- Strictly below. -/
def Inside (root path : Path) : Prop := ∃ names, names ≠ [] ∧ path = root ++ names

/-- Files that there were are as they were; at a path there is what there was, or a directory on the way to
the root where there was nothing, or it lies in the root. -/
structure Sound (configuredRoot : Path) (first disk : LocalFiles) : Prop where
  onward : first.tree.Onward disk.tree
  contents : ∀ inode < first.next, disk.contents inode = first.contents inode
  next : first.next ≤ disk.next
  entries : ∀ path, disk.tree.entry path = first.tree.entry path ∨
    (first.tree.entry path = none ∧ disk.OnTheWay [] configuredRoot path) ∨
      ∃ root, Rooted configuredRoot disk root ∧ Inside root path

variable {configuredRoot : Path} {first disk later : LocalFiles}

theorem Rooted.onward {root : Path} (rooted : Rooted configuredRoot disk root)
    (onward : disk.tree.Onward later.tree) : Rooted configuredRoot later root :=
  ⟨onward.walk rooted.real rooted.directory, onward.directories root rooted.directory⟩

theorem inside_of_prefix {root path : Path} (front : root <+: path) (different : path ≠ root) :
    Inside root path := by
  obtain ⟨names, rfl⟩ := front
  exact ⟨names, fun same => different (by rw [same, List.append_nil]), rfl⟩

theorem inside_child {root dir : Path} (front : root <+: dir) (name : JsString) :
    Inside root (dir ++ [name]) := by
  obtain ⟨names, rfl⟩ := front
  exact ⟨names ++ [name], List.append_ne_nil_of_right_ne_nil _ (by simp), List.append_assoc ..⟩

theorem Sound.refl (configuredRoot : Path) (disk : LocalFiles) : Sound configuredRoot disk disk :=
  ⟨.refl _, fun _ _ => rfl, Nat.le_refl _, fun _ => .inl rfl⟩

/-- A change at places where a directory to the root is new, or in the root. -/
theorem Sound.differs {places : Path → Prop} (sound : Sound configuredRoot first disk)
    (differs : disk.Differs places later)
    (within : ∀ path, places path →
      (disk.tree.entry path = none ∧ later.OnTheWay [] configuredRoot path) ∨
        ∃ root, Rooted configuredRoot disk root ∧ Inside root path) : Sound configuredRoot first later where
  onward := sound.onward.trans differs.onward
  contents inode old :=
    (differs.contents inode (Nat.lt_of_lt_of_le old sound.next)).trans (sound.contents inode old)
  next := Nat.le_trans sound.next differs.next
  entries path := by
    have placed : places path → (first.tree.entry path = none ∧ later.OnTheWay [] configuredRoot path) ∨
        ∃ root, Rooted configuredRoot later root ∧ Inside root path := by
      intro place
      rcases within path place with ⟨absent, onTheWay⟩ | ⟨root, rooted, inside⟩
      · rcases sound.entries path with same | ⟨-, before⟩ | ⟨root, rooted, inside⟩
        · exact .inl ⟨same ▸ absent, onTheWay⟩
        · cases absent.symm.trans before.1
        · exact .inr ⟨root, rooted.onward differs.onward, inside⟩
      · exact .inr ⟨root, rooted.onward differs.onward, inside⟩
    rcases differs.entries path with same | place
    · rcases sound.entries path with before | ⟨absent, onTheWay⟩ | ⟨root, rooted, inside⟩
      · exact .inl (same.trans before)
      · exact .inr (.inl ⟨absent, onTheWay.onward differs.onward⟩)
      · exact .inr (.inr ⟨root, rooted.onward differs.onward, inside⟩)
    · exact .inr (placed place)

/-- A write to a file that is new. -/
theorem Sound.append (sound : Sound configuredRoot first disk) {inode : Nat} (new : first.next ≤ inode)
    (bytes : Bytes) : Sound configuredRoot first (disk.append inode bytes) where
  onward := sound.onward
  contents other old := by
    have apart : other ≠ inode := Nat.ne_of_lt (Nat.lt_of_lt_of_le old new)
    exact (Function.update_of_ne apart _ _).trans (sound.contents other old)
  next := sound.next
  entries path := by
    rcases sound.entries path with same | made | ⟨root, rooted, inside⟩
    · exact .inl same
    · exact .inr (.inl made)
    · exact .inr (.inr ⟨root, ⟨rooted.real, rooted.directory⟩, inside⟩)

/-- What `canonicalRoot` came to. -/
theorem prepareRoot_cases (configuredRoot : Path) (disk : LocalFiles) :
    disk.Differs (fun path => disk.tree.entry path = none ∧
        (prepareRoot configuredRoot disk).2.OnTheWay [] configuredRoot path)
      (prepareRoot configuredRoot disk).2 ∧
      ∀ root, (prepareRoot configuredRoot disk).1 = .ok root →
        Rooted configuredRoot (prepareRoot configuredRoot disk).2 root := by
  have differs := @Disk.mkdirs_differs _ _ _ configuredRoot disk []
  unfold prepareRoot
  cases made : disk.mkdirs [] configuredRoot with
  | mk result later =>
      rw [made] at differs
      cases result with
      | error errno => exact ⟨differs, fun root same => by cases same⟩
      | ok _ =>
          refine ⟨differs, fun root same => ?_⟩
          obtain ⟨made', walked, there⟩ :=
            Disk.mkdirs_ok (Tree.walk_directory disk.tree.rooted true) disk.tree.rooted made
          cases walked.symm.trans same
          exact ⟨walked, there⟩

/-! ## The invariant -/

/-- What workers know is so. -/
structure Contained (configuredRoot : Path) (first : LocalFiles) (core : Core (machine configuredRoot)) :
    Prop where
  sound : Sound configuredRoot first core.world.disk
  roots : ∀ process root, core.world.roots process = some (.ok root) →
    Rooted configuredRoot core.world.disk root
  known : ∀ worker root, answered .canonicalRoot root ∈ core.pastOf worker →
    Rooted configuredRoot core.world.disk root
  checked : ∀ worker dir, Checked (core.pastOf worker) dir → core.world.disk.tree.entry dir = some .directory
  resolved : ∀ worker lexical path, answered (.realpath lexical) path ∈ core.pastOf worker →
    core.world.disk.tree.Settled path
  opened : ∀ worker path inode, answered (.openNew path) inode ∈ core.pastOf worker → first.next ≤ inode
  read : ∀ event ∈ core.history, ∀ worker path bytes,
    event.act = .issue .answer worker (.createReadStream path) →
    event.before.disk.read path = .ok bytes → ∃ root inode, Rooted configuredRoot event.before.disk root ∧
      Inside root path ∧ event.before.disk.tree.entry path = some (.file inode) ∧
        bytes = event.before.disk.contents inode

section

variable {core core' : Core (machine configuredRoot)}

/-- A directory that a worker has checked lies at a root or below. -/
theorem Contained.below (contained : Contained configuredRoot first core) {worker : Worker} {path : Path}
    (below : Below (core.pastOf worker) path) : ∃ dir name, path = dir ++ [name] ∧
      core.world.disk.tree.entry dir = some .directory ∧
        ∃ root, Rooted configuredRoot core.world.disk root ∧ Inside root path := by
  obtain ⟨dir, name, rfl, checked⟩ := below
  obtain ⟨root, known, front⟩ := checked.root_of
  exact ⟨dir, name, rfl, contained.checked worker dir checked, root, contained.known worker root known,
    inside_child front name⟩

/-- A canonical path lies at a root or below. -/
theorem Contained.found (contained : Contained configuredRoot first core) {worker : Worker} {path : Path}
    (found : Found (core.pastOf worker) path) : core.world.disk.tree.Settled path ∧
      ∃ root, Rooted configuredRoot core.world.disk root ∧
        (core.world.disk.tree.entry path ≠ some .directory → Inside root path) := by
  obtain ⟨root, lexical, known, resolved, front⟩ := found
  have rooted := contained.known worker root known
  refine ⟨contained.resolved worker lexical path resolved, root, rooted, fun plain => ?_⟩
  exact inside_of_prefix front fun same => plain (same ▸ rooted.directory)

/-- What an allowed call does to the disk. -/
theorem Contained.exec (contained : Contained configuredRoot first core) {worker : Worker} {call : Call}
    (allowed : allows (core.pastOf worker) call) (actor : Worker) :
    Sound configuredRoot first (exec configuredRoot core.world actor call).2.disk ∧
      core.world.disk.tree.Onward (exec configuredRoot core.world actor call).2.disk.tree ∧
        ∀ process root, (exec configuredRoot core.world actor call).2.roots process = some (.ok root) →
          Rooted configuredRoot (exec configuredRoot core.world actor call).2.disk root := by
  have still {places : Path → Prop} {disk : LocalFiles} (differs : core.world.disk.Differs places disk)
      (within : ∀ path, places path → (core.world.disk.tree.entry path = none ∧
        disk.OnTheWay [] configuredRoot path) ∨
          ∃ root, Rooted configuredRoot core.world.disk root ∧ Inside root path) :
      Sound configuredRoot first disk ∧ core.world.disk.tree.Onward disk.tree ∧
        ∀ process root, core.world.roots process = some (.ok root) → Rooted configuredRoot disk root :=
    ⟨contained.sound.differs differs within, differs.onward,
      fun process root same => (contained.roots process root same).onward differs.onward⟩
  have same : Sound configuredRoot first core.world.disk ∧ core.world.disk.tree.Onward core.world.disk.tree ∧
      ∀ process root, core.world.roots process = some (.ok root) →
        Rooted configuredRoot core.world.disk root :=
    ⟨contained.sound, .refl _, contained.roots⟩
  cases call with
  | canonicalRoot =>
      obtain ⟨differs, real⟩ := prepareRoot_cases configuredRoot core.world.disk
      have made := still differs fun path => .inl
      unfold LocalDisk.exec
      simp only
      split
      · exact same
      · refine ⟨made.1, made.2.1, fun process root memo => ?_⟩
        simp only [Function.update_apply] at memo
        split at memo
        · exact real root (Option.some.inj memo)
        · exact made.2.2 process root memo
  | lstat path => exact same
  | realpath path => exact same
  | stat path => exact same
  | createReadStream path => exact same
  | mkdir path =>
      obtain ⟨dir, name, rfl, there, root, rooted, inside⟩ := contained.below allowed
      exact still (Disk.mkdir_differs there) fun path place => .inr ⟨root, rooted, place ▸ inside⟩
  | openNew path =>
      obtain ⟨dir, name, rfl, there, root, rooted, inside⟩ := contained.below allowed
      exact still (Disk.create_differs there) fun path place => .inr ⟨root, rooted, place ▸ inside⟩
  | write inode bytes =>
      obtain ⟨path, opened⟩ := allowed
      exact ⟨contained.sound.append (contained.opened worker path inode opened) bytes, .refl _,
        fun process root memo => (contained.roots process root memo).onward (.refl _)⟩
  | link source destination =>
      obtain ⟨settled, -⟩ := contained.found allowed.1
      obtain ⟨dir, name, rfl, there, root, rooted, inside⟩ := contained.below allowed.2
      exact still (Disk.link_differs settled there) fun path place => .inr ⟨root, rooted, place ▸ inside⟩
  | unlink path =>
      obtain ⟨settled, root, rooted, inside⟩ := contained.found allowed
      exact still (Disk.unlink_differs settled) fun other place =>
        .inr ⟨root, rooted, place.1 ▸ inside place.2⟩

theorem allows_later {past later : Past} {call : Call} (allowed : allows past call)
    (suffix : past <:+ later) : allows later call := by
  cases call with
  | mkdir path => exact Below.later allowed suffix
  | openNew path => exact Below.later allowed suffix
  | link source destination => exact ⟨allowed.1.later suffix, allowed.2.later suffix⟩
  | stat path => exact Found.later allowed suffix
  | createReadStream path => exact Found.later allowed suffix
  | unlink path => exact Found.later allowed suffix
  | write inode bytes =>
      obtain ⟨path, opened⟩ := allowed
      exact ⟨path, suffix.subset opened⟩
  | canonicalRoot => exact trivial
  | lstat path => exact trivial
  | realpath path => exact trivial

theorem residue_eq {call issued : Call} (residual : call ∈ residue issued) : call = issued := by
  cases issued <;> first | exact List.mem_singleton.mp residual | cases residual

/-- What one act does to the disk. -/
theorem Contained.act {ok : Core (machine configuredRoot) → Act (machine configuredRoot) → Prop}
    {act : Act (machine configuredRoot)} (contained : Contained configuredRoot first core)
    (due : core.Due conduct) (admitted : Core.Admits conduct ok core act core') :
    Sound configuredRoot first core'.world.disk ∧ core.world.disk.tree.Onward core'.world.disk.tree ∧
      ∀ process root, core'.world.roots process = some (.ok root) →
        Rooted configuredRoot core'.world.disk root := by
  cases performed : act.performed with
  | none =>
      rcases admitted.world_of_idle performed with same | ⟨m, -, -⟩
      · rw [same]
        exact ⟨contained.sound, .refl _, contained.roots⟩
      · cases m
  | some actor =>
      obtain ⟨worker, call⟩ := actor
      rw [admitted.world_of_performed performed]
      obtain ⟨past, issued, suffix, allowed, same⟩ := admitted.allowed_of_performed due performed
      obtain rfl : call = issued := same.elim id residue_eq
      exact contained.exec (allows_later allowed suffix) worker

/-- What was answered is remembered. -/
theorem exec_root {world : World} {worker : Worker} {root : Path}
    (answer : (exec configuredRoot world worker .canonicalRoot).1 = .ok root) :
    (exec configuredRoot world worker .canonicalRoot).2.roots worker.process = some (.ok root) := by
  unfold LocalDisk.exec at answer ⊢
  cases memo : world.roots worker.process with
  | some known =>
      simp only [memo] at answer ⊢
      rw [answer]
  | none =>
      simp only [memo] at answer ⊢
      rw [Function.update_self, answer]

/-- What a checked directory rests on. -/
theorem Checked.newest {step : Theory.Step sig} {past : Past} {dir : Path}
    (checked : Checked (step :: past) dir) :
    Checked past dir ∨ step = answered .canonicalRoot dir ∨
      ∃ parent name, dir = parent ++ [name] ∧ Checked past parent ∧
        step = answered (.lstat dir) .directory := by
  cases checked with
  | root => exact .inr (.inl rfl)
  | deeper checked => exact .inr (.inr ⟨_, _, rfl, checked, rfl⟩)
  | older checked => exact .inl checked

/-- **The step lemma.** -/
theorem Contained.admits {ok : Core (machine configuredRoot) → Act (machine configuredRoot) → Prop}
    {act : Act (machine configuredRoot)} (contained : Contained configuredRoot first core)
    (due : core.Due conduct) (admitted : Core.Admits conduct ok core act core') :
    Contained configuredRoot first core' := by
  obtain ⟨sound, onward, roots⟩ := contained.act due admitted
  have known : ∀ worker root, answered .canonicalRoot root ∈ core'.pastOf worker →
      Rooted configuredRoot core'.world.disk root := by
    intro worker root told
    rcases admitted.answered told with before | ⟨-, answer, -, after⟩
    · exact (contained.known worker root before).onward onward
    · exact roots worker.process root (after ▸ exec_root answer.symm)
  refine ⟨sound, roots, known, fun worker dir checked => ?_, fun worker lexical path told => ?_,
    fun worker path inode told => ?_, fun event member worker path bytes acted read => ?_⟩
  · rcases admitted.pastOf_cases worker with same | ⟨mode, call, -, grown, -⟩
    · exact onward.directories dir (contained.checked worker dir (same ▸ checked))
    · rw [grown] at checked
      rcases checked.newest with before | root | ⟨parent, name, rfl, before, looked⟩
      · exact onward.directories dir (contained.checked worker dir before)
      · exact (known worker dir (grown ▸ root ▸ List.mem_cons_self)).directory
      · obtain ⟨-, -, answer⟩ := answered_of_step looked.symm
        exact onward.directories _ (Disk.of_lstat (contained.checked worker parent before) answer.symm)
  · rcases admitted.answered told with before | ⟨-, answer, -, after⟩
    · exact (contained.resolved worker lexical path before).onward onward
    · exact (Tree.settled_of_walk answer.symm).onward onward
  · rcases admitted.answered told with before | ⟨-, answer, -, after⟩
    · exact contained.opened worker path inode before
    · exact Disk.create_ok answer.symm ▸ contained.sound.next
  · rw [admitted.history] at member
    rcases List.mem_cons.mp member with rfl | before
    · subst acted
      cases admitted with
      | issue allowed alive enabled met =>
          obtain ⟨settled, root, rooted, inside⟩ := contained.found allowed
          obtain ⟨inode, there, same⟩ := Disk.of_read settled read
          exact ⟨root, inode, rooted, inside (by rw [there]; exact fun same => by cases same), there, same⟩
    · exact contained.read event before worker path bytes acted read

theorem contained_keeps : Keeps conduct (fun _ _ => True) fun core : Core (machine configuredRoot) =>
    core.Due conduct ∧ Contained configuredRoot first core where
  admits held admitted := ⟨held.1.admits admitted, held.2.admits held.1 admitted⟩
  credible _ _ _ := trivial

end

/-- Fresh processes over a disk. -/
def World.fresh (disk : LocalFiles) : World := ⟨disk, fun _ => none⟩

/-- **The local driver stays below its root.**  Whatever keys it is given, however its operations
interleave, fail or stop, and wherever links lead: no file that there was is written to, and where a path
is not as it was, it lies in the root, or was nothing and is a directory on the way to the root; and what
is read is the content of a file that lies in the root itself. -/
theorem disk_contained {configuredRoot : Path} {first : LocalFiles}
    {config : Machine.Config (machine configuredRoot) (Except Failure Reply) Operation}
    (reached : Reach launch (fun _ _ => True) (.fresh first : World) config) :
    (∀ inode < first.next, config.core.world.disk.contents inode = first.contents inode) ∧
    first.tree.Onward config.core.world.disk.tree ∧
    (∀ path, config.core.world.disk.tree.entry path = first.tree.entry path ∨
      (first.tree.entry path = none ∧ config.core.world.disk.OnTheWay [] configuredRoot path) ∨
        ∃ root, Rooted configuredRoot config.core.world.disk root ∧ Inside root path) ∧
    ∀ event ∈ config.core.history, ∀ worker path bytes,
      event.act = .issue .answer worker (.createReadStream path) → event.before.disk.read path = .ok bytes →
        ∃ root inode, Rooted configuredRoot event.before.disk root ∧ Inside root path ∧
          event.before.disk.tree.entry path = some (.file inode) ∧
            bytes = event.before.disk.contents inode := by
  have start : Contained configuredRoot first (⟨.fresh first, [], []⟩ : Core (machine configuredRoot)) :=
    ⟨.refl _ first, fun _ _ memo => (by cases memo), fun _ _ told => (by cases told),
      fun _ _ checked => (by cases checked), fun _ _ _ told => (by cases told),
      fun _ _ _ told => (by cases told), fun _ member => by cases member⟩
  have held := (Reach.keeps contained_keeps obeys_launch ⟨fun _ _ member => (by cases member), start⟩
    reached).inv.2
  exact ⟨held.sound.contents, held.sound.onward, held.sound.entries, held.read⟩

/-- A root with a link that leads out of it, to a file with a key. -/
def trapped : LocalFiles :=
  let bare : LocalFiles := .bare (fun _ => [1, 2, 3]) 1
  let srv := bare.put ⟨[], js "srv", rfl, rfl⟩ .directory fun _ same => by cases same
  let etc := srv.put ⟨[], js "etc", rfl, rfl⟩ .directory fun _ same => by cases same
  let key := etc.put ⟨[js "etc"], js "key", rfl, rfl⟩ (.file 0) fun _ same => by cases same; exact Nat.one_pos
  key.put ⟨[js "srv"], js "out", rfl, rfl⟩ (.link ⟨true, [.name (js "etc")]⟩) fun _ same => by cases same

/-- One operation reads through the link, another writes. -/
def trappedRun : List (Label (machine [js "srv"]) Operation) :=
  [.spawn 0 (.download (js "out/key")), .spawn 1 (.putObject (js "out/key") ⟨[[9]], false⟩),
    .issue .answer 0, .issue .answer 1, .issue .answer 0, .issue .answer 1, .issue .answer 0]

/-- How the two ended. -/
def trappedEnds (config : Machine.Config (machine [js "srv"]) (Except Failure Reply) Operation) :
    List (Option (Except Failure Reply)) :=
  [0, 1].map fun number =>
    match config.threads number with
    | some ⟨_, _, .done result⟩ => some result
    | _ => none

theorem trapped_key_stays : ∃ config : Machine.Config (machine [js "srv"]) (Except Failure Reply) Operation,
    trappedEnds config = [some (.error (.path "Resolved path is outside the local storage root")),
      some (.error (.path "Resolved path escapes the canonical local storage root"))] ∧
    (∀ inode < 1, config.core.world.disk.contents inode = [1, 2, 3]) ∧
    trapped.tree.Onward config.core.world.disk.tree := by
  have ran : (Machine.Config.follow launch (fun _ _ => true) (.start (.fresh trapped : World)) trappedRun).map
      trappedEnds = some [some (.error (.path "Resolved path is outside the local storage root")),
        some (.error (.path "Resolved path escapes the canonical local storage root"))] := by decide +kernel
  obtain ⟨config, followed, ends⟩ := Option.map_eq_some_iff.mp ran
  have reached : Reach launch (fun _ _ => True) (.fresh trapped : World) config :=
    reach_follow launch (fun _ _ _ => trivial) .start followed
  obtain ⟨contents, onward, -⟩ := disk_contained reached
  exact ⟨config, ends, contents, onward⟩

end SdcoreNest.UploadedFile.LocalDisk
