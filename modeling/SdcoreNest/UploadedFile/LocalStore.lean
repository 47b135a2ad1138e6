/-
# UploadedFile.LocalStore -- the local driver as a map from keys to bytes

`Store.perform` says what the service expects of a driver: an object is written once, at a key that has
none, and found, moved and deleted by its key.  On a disk whose root has no links the local driver does
exactly that, for keys with as many segments each -- so that no key lies below another -- whose segments
are names that the file system keeps: `exec` knows of no name that is too long or written otherwise.

* `Shelved` -- how a store lies on a disk;
* `runs_putObject` and the others -- one operation;
* `driver_is_store` -- any number of them, one after the other.
-/
import SdcoreNest.UploadedFile.LocalDisk

namespace SdcoreNest.UploadedFile.LocalDisk

open SdcoreNest.Theory SdcoreNest.Theory.JsString SdcoreNest.Theory.FileTree SdcoreNest.Theory.Machine
  FileNames Program

set_option autoImplicit false

/-! ## The store -/

/-- The bytes at the segments of keys. -/
abbrev Store := List JsString → Option Bytes

namespace Store

def remove (store : Store) (parts : List JsString) : Store := Function.update store parts none

def put (store : Store) (parts : List JsString) (bytes : Bytes) : Store :=
  Function.update store parts (some bytes)

/-- What an operation returns and leaves. -/
def perform (store : Store) : Operation → Except Failure Reply × Store
  | .putObject key source =>
      match segments key with
      | .error message => (.error (.path message), store)
      | .ok parts =>
          match store parts with
          | some _ => (.error (.code .exists), store)
          | none =>
              (if source.fails then .error .other else .ok .nothing, store.put parts source.chunks.flatten)
  | .headObject key =>
      match segments key with
      | .error message => (.error (.path message), store)
      | .ok parts => (.ok (.head ((store parts).map List.length)), store)
  | .promoteObject sourceKey destinationKey =>
      match segments sourceKey with
      | .error message => (.error (.path message), store)
      | .ok source =>
          match store source with
          | none => (.error (.code .noEntry), store)
          | some bytes =>
              match segments destinationKey with
              | .error message => (.error (.path message), store)
              | .ok destination =>
                  match store destination with
                  | some _ => (.error (.code .exists), store)
                  | none => (.ok .nothing, (store.put destination bytes).remove source)
  | .download key =>
      match segments key with
      | .error message => (.error (.path message), store)
      | .ok parts =>
          match store parts with
          | none => (.error (.code .noEntry), store)
          | some bytes => (.ok (.body bytes), store)
  | .delete key =>
      match segments key with
      | .error message => (.error (.path message), store)
      | .ok parts => (.ok .nothing, store.remove parts)

end Store

/-! ## Runs -/

section

variable (configuredRoot : Path) (worker : Worker)

/-- Every call is answered. -/
def handle (world : World) (call : Call) : Option (Except Errno call.Result) × World :=
  (some (exec configuredRoot world worker call).1, (exec configuredRoot world worker call).2)

def runs {α : Type} (world : World) (p : M α) : Except Failure α × World :=
  run (handle configuredRoot worker) p.run world

variable {configuredRoot worker} {world later : World}

theorem runs_bind {α β : Type} (p : M α) (f : α → M β) : runs configuredRoot worker world (p >>= f) =
    andThen (runs configuredRoot worker world p) fun value world =>
      runs configuredRoot worker world (f value) :=
  run_seq p f world

theorem runs_tryCatch {α : Type} (p : M α) (handler : Failure → M α) :
    runs configuredRoot worker world (tryCatch p handler) =
      orHandle (runs configuredRoot worker world p) fun error world =>
        runs configuredRoot worker world (handler error) :=
  run_tryCatch p handler world

theorem runs_pure {α : Type} (value : α) :
    runs configuredRoot worker world (pure value) = (.ok value, world) := rfl

/-- What an answered call comes to. -/
theorem runs_ask (call : Call) : runs configuredRoot worker world (ask call) =
    match exec configuredRoot world worker call with
    | (.ok result, later) => (.ok result, later)
    | (.error errno, later) => (.error (.code errno), later) := by
  rw [ask, runs_bind]
  have performed : runs configuredRoot worker world (@Program.perform sig Failure .other call) =
      (.ok (exec configuredRoot world worker call).1, (exec configuredRoot world worker call).2) := rfl
  rw [performed]
  rcases exec configuredRoot world worker call with ⟨errno | result, later⟩ <;> rfl

end

/-! ## How a store lies on a disk -/

/-- The objects of a store are files at their segments below the root, each of its own; above them there
are directories at most. -/
structure Shelved (root : Path) (depth : Nat) (process : Nat) (store : Store) (world : World) : Prop where
  memo : world.roots process = some (.ok root)
  directory : world.disk.tree.entry root = some .directory
  above : ∀ parts, parts.length < depth →
    world.disk.tree.entry (root ++ parts) = none ∨ world.disk.tree.entry (root ++ parts) = some .directory
  kept : ∀ parts, parts.length = depth →
    (world.disk.tree.entry (root ++ parts) = none ∧ store parts = none) ∨
      ∃ inode, world.disk.tree.entry (root ++ parts) = some (.file inode) ∧
        store parts = some (world.disk.contents inode)
  apart : ∀ parts other inode, parts.length = depth → other.length = depth →
    world.disk.tree.entry (root ++ parts) = some (.file inode) →
      world.disk.tree.entry (root ++ other) = some (.file inode) → parts = other

section

variable {configuredRoot root : Path} {worker : Worker} {depth : Nat} {store : Store} {world : World}
  {parts : List JsString}

/-- A directory, or nothing, above a key. -/
theorem Shelved.front (shelved : Shelved root depth worker.process store world) (deep : parts.length = depth)
    {front : List JsString} (under : front <+: parts) (different : front ≠ parts) :
    world.disk.tree.entry (root ++ front) = none ∨ world.disk.tree.entry (root ++ front) = some .directory :=
  shelved.above front
    (deep ▸ Nat.lt_of_le_of_ne under.length_le fun same => different (under.eq_of_length same))

/-! ## The calls of `SafeLocalPathResolver` -/

theorem contained_tight (some' : parts ≠ []) (tight : ∀ part ∈ parts, isLoose part = false) :
    (relative root (root ++ parts)).head? ≠ some (js "..") := by
  obtain ⟨part, rest, rfl⟩ := List.exists_cons_of_ne_nil some'
  rw [relative_append, List.head?_cons]
  intro same
  have first := tight part List.mem_cons_self
  rw [Option.some.inj same] at first
  revert first
  decide

theorem runs_assertContained {target : Path} (inside : (relative root target).head? ≠ some (js "..")) :
    runs configuredRoot worker world (assertContained root target) = (.ok (), world) := by
  rw [assertContained, if_neg inside]
  rfl

theorem runs_canonicalRoot (memo : world.roots worker.process = some (.ok root)) :
    runs configuredRoot worker world (ask .canonicalRoot) = (.ok root, world) := by
  rw [runs_ask]
  simp only [exec, memo]

/-- `resolveExisting` finds the objects that there are. -/
theorem runs_resolveExisting (shelved : Shelved root depth worker.process store world) {key : JsString}
    (deep : ∀ parts, segments key = .ok parts → parts.length = depth) :
    (∃ message, segments key = .error message ∧
      runs configuredRoot worker world (resolveExisting key) = (.error (.path message), world)) ∨
    (∃ parts, segments key = .ok parts ∧ store parts = none ∧
      runs configuredRoot worker world (resolveExisting key) = (.error (.code .noEntry), world)) ∨
    ∃ parts inode, segments key = .ok parts ∧ store parts = some (world.disk.contents inode) ∧
      world.disk.tree.entry (root ++ parts) = some (.file inode) ∧
        runs configuredRoot worker world (resolveExisting key) = (.ok (root ++ parts), world) := by
  rw [resolveExisting, runs_bind, runs_canonicalRoot shelved.memo, andThen_ok, runs_bind, keySegments]
  cases split : segments key with
  | error message => exact .inl ⟨message, rfl, rfl⟩
  | ok parts =>
      obtain ⟨some', tight⟩ := tight_of_segments split
      simp only [runs_pure, andThen_ok]
      rw [runs_bind, resolveFrom_tight tight, runs_assertContained (contained_tight some' tight), andThen_ok,
        runs_bind, runs_ask, exec]
      rcases shelved.kept parts (deep parts split) with ⟨none', absent⟩ | ⟨inode, found, there⟩
      · refine .inr (.inl ⟨parts, rfl, absent, ?_⟩)
        have missing :=
          Tree.walk_missing shelved.directory (fun _ => shelved.front (deep parts split)) none' false
        rw [Disk.lstat, missing]
        rfl
      · refine .inr (.inr ⟨parts, inode, rfl, there, found, ?_⟩)
        rw [Disk.lstat_of_walk (Tree.walk_entry found rfl false) found]
        simp only [andThen_ok]
        rw [runs_bind, runs_ask, exec, Disk.realpath, Tree.walk_entry found rfl]
        simp only [andThen_ok]
        rw [runs_bind, runs_assertContained (contained_tight some' tight)]
        rfl

/-- A directory more above the keys. -/
theorem Shelved.mkdir (shelved : Shelved root depth worker.process store world) {front : List JsString}
    {part : JsString} (shallow : (front ++ [part]).length < depth)
    (parent : world.disk.tree.entry (root ++ front) = some .directory)
    (absent : world.disk.tree.entry (root ++ front ++ [part]) = none) : ∃ disk,
      world.disk.mkdir (root ++ front ++ [part]) = (.ok (), disk) ∧
        Shelved root depth worker.process store { world with disk } ∧
          disk.tree.entry (root ++ front ++ [part]) = some .directory := by
  obtain ⟨disk, made, entries, contents⟩ := Disk.mkdir_free parent absent
  have elsewhere {parts : List JsString} (deep : parts.length = depth) :
      disk.tree.entry (root ++ parts) = world.disk.tree.entry (root ++ parts) := by
    refine (entries _).trans (if_neg fun same => ?_)
    rw [List.append_assoc] at same
    rw [List.append_cancel_left same] at deep
    exact Nat.ne_of_lt shallow deep
  have stays {path : Path} (there : world.disk.tree.entry path = some .directory) :
      disk.tree.entry path = some .directory := by
    rw [entries]
    split
    · rfl
    · exact there
  refine ⟨disk, made, ⟨shelved.memo, stays shelved.directory, fun parts short => ?_, fun parts deep => ?_,
    fun parts other inode deep deep' there there' => ?_⟩, (entries _).trans (if_pos rfl)⟩
  · rcases shelved.above parts short with none' | there
    · rw [entries]
      split
      · exact .inr rfl
      · exact .inl none'
    · exact .inr (stays there)
  · rw [elsewhere deep, contents]
    exact shelved.kept parts deep
  · exact shelved.apart parts other inode deep deep' ((elsewhere deep).symm.trans there)
      ((elsewhere deep').symm.trans there')

/-- The directories above a key are there, or are made. -/
theorem runs_ensureSafeParent {rest : List JsString} : ∀ {front : List JsString} {world : World},
    Shelved root depth worker.process store world → (front ++ rest).length < depth →
      (∀ part ∈ front ++ rest, isLoose part = false) →
        world.disk.tree.entry (root ++ front) = some .directory → ∃ later,
          runs configuredRoot worker world (ensureSafeParent root (root ++ front) rest) = (.ok (), later) ∧
          Shelved root depth worker.process store later ∧
            later.disk.tree.entry (root ++ (front ++ rest)) = some .directory := by
  induction rest with
  | nil => exact fun {front world} shelved _ _ there => ⟨world, rfl, shelved, by rwa [List.append_nil]⟩
  | cons part rest ih =>
      intro front world shelved shallow tight there
      rw [List.append_cons] at shallow tight
      have short : (front ++ [part]).length < depth := by
        rw [List.length_append] at shallow
        exact Nat.lt_of_le_of_lt (Nat.le_add_right _ _) shallow
      -- the name is a directory's, or is made one
      have made : ∃ later, runs configuredRoot worker world
          (tryCatch (do assertDirectory (← ask (.lstat (root ++ front ++ [part])))) fun error =>
            if error = .code .noEntry then makeDirectory (root ++ front ++ [part]) else throw error) =
              (.ok (), later) ∧ Shelved root depth worker.process store later ∧
                later.disk.tree.entry (root ++ front ++ [part]) = some .directory := by
        rw [runs_tryCatch, runs_bind, runs_ask, exec]
        rcases shelved.above (front ++ [part]) short with absent | directory
        · rw [← List.append_assoc] at absent
          have missing : world.disk.lstat (root ++ front ++ [part]) = .error .noEntry := by
            have walked := @Tree.walk_child _ world.disk.tree false _ part there
              fun follows => by cases follows
            rw [absent] at walked
            rw [Disk.lstat, walked]
            rfl
          obtain ⟨disk, makes, shelved', there'⟩ := shelved.mkdir short there absent
          refine ⟨{ world with disk }, ?_, shelved', there'⟩
          rw [missing]
          simp only [andThen_error, orHandle_error, if_true]
          rw [makeDirectory, runs_bind, runs_tryCatch, runs_ask, exec, World.onDisk, makes]
          simp only [orHandle_ok, andThen_ok]
          rw [runs_bind, runs_ask, exec, Disk.lstat_of_walk (Tree.walk_entry there' rfl false) there']
          rfl
        · rw [← List.append_assoc] at directory
          refine ⟨world, ?_, shelved, directory⟩
          rw [Disk.lstat_of_walk (Tree.walk_entry directory rfl false) directory]
          rfl
      obtain ⟨later, ran, shelved', there'⟩ := made
      rw [List.append_assoc] at there'
      obtain ⟨last, ran', shelved'', there''⟩ := ih shelved' shallow tight there'
      refine ⟨last, ?_, shelved'', by rwa [List.append_cons]⟩
      have inside : (relative root (root ++ (front ++ [part]))).head? ≠ some (js "..") :=
        contained_tight (by simp) fun other listed => tight other (List.mem_append_left _ listed)
      rw [ensureSafeParent, runs_bind, ran, andThen_ok, runs_bind, runs_ask, exec, Disk.realpath,
        List.append_assoc root front [part], Tree.walk_entry there' rfl true]
      simp only [andThen_ok]
      rw [runs_bind, runs_assertContained inside, andThen_ok]
      exact ran'

/-- `resolveForWrite` finds the place of a key, in a directory. -/
theorem runs_resolveForWrite (shelved : Shelved root depth worker.process store world) {key : JsString}
    (deep : ∀ parts, segments key = .ok parts → parts.length = depth) :
    (∃ message, segments key = .error message ∧
      runs configuredRoot worker world (resolveForWrite key) = (.error (.path message), world)) ∨
    ∃ front last later, segments key = .ok (front ++ [last]) ∧
      runs configuredRoot worker world (resolveForWrite key) = (.ok (root ++ front ++ [last]), later) ∧
        Shelved root depth worker.process store later ∧
          later.disk.tree.entry (root ++ front) = some .directory := by
  rw [resolveForWrite, runs_bind, runs_canonicalRoot shelved.memo, andThen_ok, runs_bind, keySegments]
  cases split : segments key with
  | error message => exact .inl ⟨message, rfl, rfl⟩
  | ok parts =>
      obtain ⟨some', tight⟩ := tight_of_segments split
      obtain ⟨front, last, rfl⟩ := (List.eq_nil_or_concat' parts).resolve_left some'
      have shallow : ([] ++ front).length < depth := by
        have deep := deep _ split
        rw [List.length_append] at deep
        exact deep ▸ Nat.lt_succ_self _
      obtain ⟨later, ran, shelved', there⟩ := @runs_ensureSafeParent configuredRoot root worker depth store
        front [] world shelved shallow (fun part listed => tight part (List.mem_append_left _ listed))
        (by rw [List.append_nil]; exact shelved.directory)
      rw [List.append_nil, List.nil_append] at *
      refine .inr ⟨front, last, later, rfl, ?_, shelved', there⟩
      simp only [runs_pure, andThen_ok]
      rw [runs_bind, resolveFrom_tight tight, runs_assertContained (contained_tight some' tight), andThen_ok,
        List.dropLast_concat, runs_bind, ran, List.append_assoc]
      rfl

/-! ## Objects -/

section

variable {entry : Option (Entry JsString)} {disk : Disk JsString UInt8}

theorem root_apart (filled : parts ≠ []) : root ≠ root ++ parts :=
  fun same => filled (List.append_cancel_left (same.symm.trans (List.append_nil root).symm))

/-- Away from the key there is what there was. -/
theorem elsewhere (entries : ∀ path, disk.tree.entry path =
      if path = root ++ parts then entry else world.disk.tree.entry path)
    {other : List JsString} (different : other ≠ parts) :
    disk.tree.entry (root ++ other) = world.disk.tree.entry (root ++ other) :=
  (entries _).trans (if_neg fun same => different (List.append_cancel_left same))

/-- A disk on which a key has a file that no other key has. -/
theorem Shelved.put (shelved : Shelved root depth worker.process store world) {inode : Nat}
    (filled : parts ≠ []) (deep : parts.length = depth)
    (entries : ∀ path, disk.tree.entry path =
      if path = root ++ parts then some (.file inode) else world.disk.tree.entry path)
    (contents : ∀ others other, others.length = depth → others ≠ parts →
      world.disk.tree.entry (root ++ others) = some (.file other) →
        other ≠ inode ∧ disk.contents other = world.disk.contents other) :
    Shelved root depth worker.process (store.put parts (disk.contents inode)) { world with disk } := by
  have here : disk.tree.entry (root ++ parts) = some (.file inode) := (entries _).trans (if_pos rfl)
  refine ⟨shelved.memo, ?_, fun other short => ?_, fun other deep' => ?_,
    fun first second inode' deep₁ deep₂ there there' => ?_⟩
  · exact (entries root).trans ((if_neg (root_apart filled)).trans shelved.directory)
  · have different : other ≠ parts := fun same => Nat.ne_of_lt short (same ▸ deep)
    exact elsewhere entries different ▸ shelved.above other short
  · by_cases same : other = parts
    · subst same
      exact .inr ⟨inode, here, Function.update_self ..⟩
    · rw [Store.put, Function.update_of_ne same, elsewhere entries same]
      rcases shelved.kept other deep' with absent | ⟨inode', there, some'⟩
      · exact .inl absent
      · exact .inr ⟨inode', there, (contents _ inode' deep' same there).2 ▸ some'⟩
  · by_cases same : first = parts
    · subst same
      cases here.symm.trans there
      by_contra different
      rw [elsewhere entries (Ne.symm different)] at there'
      exact (contents _ _ deep₂ (Ne.symm different) there').1 rfl
    · by_cases same' : second = parts
      · subst same'
        cases here.symm.trans there'
        rw [elsewhere entries same] at there
        exact absurd rfl (contents _ _ deep₁ same there).1
      · rw [elsewhere entries same] at there
        rw [elsewhere entries same'] at there'
        exact shelved.apart first second inode' deep₁ deep₂ there there'

/-- A disk on which a key has nothing. -/
theorem Shelved.remove (shelved : Shelved root depth worker.process store world) (filled : parts ≠ [])
    (deep : parts.length = depth)
    (entries : ∀ path, disk.tree.entry path =
      if path = root ++ parts then none else world.disk.tree.entry path)
    (contents : disk.contents = world.disk.contents) :
    Shelved root depth worker.process (store.remove parts) { world with disk } := by
  have here : disk.tree.entry (root ++ parts) = none := (entries _).trans (if_pos rfl)
  refine ⟨shelved.memo, ?_, fun other short => ?_, fun other deep' => ?_,
    fun first second inode' deep₁ deep₂ there there' => ?_⟩
  · exact (entries root).trans ((if_neg (root_apart filled)).trans shelved.directory)
  · have different : other ≠ parts := fun same => Nat.ne_of_lt short (same ▸ deep)
    exact elsewhere entries different ▸ shelved.above other short
  · by_cases same : other = parts
    · subst same
      exact .inl ⟨here, Function.update_self ..⟩
    · rw [Store.remove, Function.update_of_ne same, elsewhere entries same, contents]
      exact shelved.kept other deep'
  · have kept {other : List JsString} (there : disk.tree.entry (root ++ other) = some (.file inode')) :
        world.disk.tree.entry (root ++ other) = some (.file inode') := by
      rw [← elsewhere entries]
      · exact there
      · rintro rfl
        cases here.symm.trans there
    exact shelved.apart first second inode' deep₁ deep₂ (kept there) (kept there')

/-- A hard link to a free name, and then the old name gone, move a key. -/
theorem Shelved.move (shelved : Shelved root depth worker.process store world) {inode : Nat}
    {destination : List JsString} (filled : parts ≠ []) (filled' : destination ≠ [])
    (deep : parts.length = depth) (deep' : destination.length = depth) (apart : parts ≠ destination)
    (file : world.disk.tree.entry (root ++ parts) = some (.file inode)) {linked : Disk JsString UInt8}
    (entries : ∀ path, linked.tree.entry path =
      if path = root ++ destination then some (.file inode) else world.disk.tree.entry path)
    (contents : linked.contents = world.disk.contents)
    (entries' : ∀ path, disk.tree.entry path =
      if path = root ++ parts then none else linked.tree.entry path)
    (contents' : disk.contents = linked.contents) :
    Shelved root depth worker.process ((store.put destination (disk.contents inode)).remove parts)
      { world with disk } := by
  -- as if the old name had gone first
  obtain ⟨gone, -, entries₀, contents₀⟩ := Disk.unlink_file file
  have removed := shelved.remove filled deep entries₀ contents₀
  have put := @Shelved.put root worker depth _ { world with disk := gone } _ disk removed inode filled' deep'
    (fun path => ?_) fun others other deep₂ different found => ?_
  · rw [show (store.put destination (disk.contents inode)).remove parts =
      (store.remove parts).put destination (disk.contents inode) from Function.update_comm apart.symm _ _ store]
    exact put
  · rw [entries', entries, entries₀]
    by_cases source : path = root ++ parts
    · rw [if_pos source, if_neg, if_pos source]
      exact fun same => apart (List.append_cancel_left (source.symm.trans same))
    · rw [if_neg source, if_neg source]
  · have old : others ≠ parts ∧ world.disk.tree.entry (root ++ others) = some (.file other) := by
      rw [entries₀] at found
      split at found
      · cases found
      next source => exact ⟨fun same => source (same ▸ rfl), found⟩
    refine ⟨?_, by rw [contents', contents, contents₀]⟩
    rintro rfl
    exact old.1 (shelved.apart others parts other deep₂ deep old.2 file)

end

theorem runs_writeChunks {inode : Nat} {chunks : List Bytes} : ∀ {world : World}, ∃ disk,
    runs configuredRoot worker world (writeChunks inode chunks) = (.ok (), { world with disk }) ∧
      disk.tree = world.disk.tree ∧
      disk.contents =
        Function.update world.disk.contents inode (world.disk.contents inode ++ chunks.flatten) := by
  induction chunks with
  | nil =>
      intro world
      exact ⟨world.disk, rfl, rfl, by rw [List.flatten_nil, List.append_nil, Function.update_eq_self]⟩
  | cons chunk rest ih =>
      intro world
      obtain ⟨disk, ran, tree, contents⟩ := @ih { world with disk := world.disk.append inode chunk }
      refine ⟨disk, ?_, tree, ?_⟩
      · rw [writeChunks, runs_bind, runs_ask, exec]
        exact ran
      · rw [contents]
        simp only [Disk.append, Function.update_idem, Function.update_self, List.append_assoc,
          List.flatten_cons]

/-- One operation does on the disk what it does to the store. -/
def Performs (configuredRoot root : Path) (depth : Nat) (worker : Worker) (store : Store) (world : World)
    (operation : Operation) : Prop :=
  ∃ later,
    run (handle configuredRoot worker) (launch operation) world = ((store.perform operation).1, later) ∧
    Shelved root depth worker.process (store.perform operation).2 later

/-- What is left to do after the operation itself. -/
theorem performs_of_runs {α : Type} {p : M α} {operation : Operation} (reply : α → Reply)
    (same : launch operation = (do return reply (← p) : M Reply).run) {result : Except Failure α}
    {later : World} (ran : runs configuredRoot worker world p = (result, later)) {store' : Store}
    (performed : store.perform operation = (result.map reply, store'))
    (shelved : Shelved root depth worker.process store' later) :
    Performs configuredRoot root depth worker store world operation := by
  have all : run (handle configuredRoot worker) (launch operation) world = (result.map reply, later) := by
    rw [same]
    change runs configuredRoot worker world (p >>= fun value => pure (reply value)) = _
    rw [runs_bind, ran]
    cases result <;> rfl
  refine ⟨later, ?_, ?_⟩
  · rw [all, performed]
  · rw [performed]
    exact shelved

theorem performs_putObject (shelved : Shelved root depth worker.process store world) {key : JsString}
    (deep : ∀ parts, segments key = .ok parts → parts.length = depth) (source : Source) :
    Performs configuredRoot root depth worker store world (.putObject key source) := by
  rcases @runs_resolveForWrite configuredRoot root worker depth store world shelved key deep with
    ⟨message, split, ran⟩ | ⟨front, last, later, split, ran, shelved', there⟩
  · have failed : runs configuredRoot worker world (putObject key source) =
        (.error (.path message), world) := by
      rw [putObject, runs_bind, ran]
      rfl
    exact performs_of_runs (fun _ => .nothing) rfl failed (by rw [Store.perform, split]; rfl) shelved
  have deep := deep _ split
  rcases shelved'.kept _ deep with ⟨absent, free⟩ | ⟨inode, taken, some'⟩
  · rw [← List.append_assoc] at absent
    obtain ⟨disk, created, entries, contents⟩ := Disk.create_free there absent
    obtain ⟨disk', wrote, tree, contents'⟩ :=
      @runs_writeChunks configuredRoot worker later.disk.next source.chunks { later with disk }
    have ran' : runs configuredRoot worker world (putObject key source) =
        (if source.fails then .error .other else .ok (), { later with disk := disk' }) := by
      rw [putObject, runs_bind, ran, andThen_ok, runs_bind, runs_ask, exec, World.onDisk, created]
      simp only [andThen_ok]
      rw [runs_bind, wrote, andThen_ok]
      split <;> rfl
    have written : disk'.contents later.disk.next = source.chunks.flatten := by
      rw [contents', Function.update_self]
      change disk.contents _ ++ _ = _
      rw [contents, Function.update_self, List.nil_append]
    refine performs_of_runs (fun _ => .nothing) rfl ran' ?_
      (written ▸ shelved'.put (by simp) deep (fun path => ?_) fun _ other _ _ found => ?_)
    · rw [Store.perform, split]
      simp only [free]
      split <;> rfl
    · rw [tree, ← List.append_assoc]
      exact entries path
    · have old := later.disk.used _ other found
      refine ⟨Nat.ne_of_lt old, ?_⟩
      rw [contents', Function.update_of_ne (Nat.ne_of_lt old)]
      change disk.contents other = _
      rw [contents, Function.update_of_ne (Nat.ne_of_lt old)]
  · rw [← List.append_assoc] at taken
    have refused : runs configuredRoot worker world (putObject key source) =
        (.error (.code .exists), later) := by
      rw [putObject, runs_bind, ran, andThen_ok, runs_bind, runs_ask, exec, World.onDisk,
        Disk.create_taken there (by rw [taken]; exact fun same => by cases same)]
      rfl
    refine performs_of_runs (fun _ => .nothing) rfl refused ?_ shelved'
    rw [Store.perform, split]
    simp only [some']
    rfl

theorem performs_headObject (shelved : Shelved root depth worker.process store world) {key : JsString}
    (deep : ∀ parts, segments key = .ok parts → parts.length = depth) :
    Performs configuredRoot root depth worker store world (.headObject key) := by
  rcases @runs_resolveExisting configuredRoot root worker depth store world shelved key deep with
    ⟨message, split, ran⟩ | ⟨parts, split, absent, ran⟩ | ⟨parts, inode, split, there, found, ran⟩
  · have failed : runs configuredRoot worker world (headObject key) = (.error (.path message), world) := by
      rw [headObject, runs_tryCatch, runs_bind, ran]
      rfl
    exact performs_of_runs .head rfl failed (by rw [Store.perform, split]; rfl) shelved
  · have missed : runs configuredRoot worker world (headObject key) = (.ok none, world) := by
      rw [headObject, runs_tryCatch, runs_bind, ran]
      rfl
    exact performs_of_runs .head rfl missed (by rw [Store.perform, split]; simp only [absent]; rfl) shelved
  · have sized : runs configuredRoot worker world (headObject key) =
        (.ok (some (world.disk.contents inode).length), world) := by
      rw [headObject, runs_tryCatch, runs_bind, ran, andThen_ok, runs_bind, runs_ask, exec,
        Disk.size_of_walk (Tree.walk_entry found rfl true) found]
      rfl
    exact performs_of_runs .head rfl sized (by rw [Store.perform, split]; simp only [there]; rfl) shelved

theorem performs_download (shelved : Shelved root depth worker.process store world) {key : JsString}
    (deep : ∀ parts, segments key = .ok parts → parts.length = depth) :
    Performs configuredRoot root depth worker store world (.download key) := by
  rcases @runs_resolveExisting configuredRoot root worker depth store world shelved key deep with
    ⟨message, split, ran⟩ | ⟨parts, split, absent, ran⟩ | ⟨parts, inode, split, there, found, ran⟩
  · have failed : runs configuredRoot worker world (download key) = (.error (.path message), world) := by
      rw [download, runs_bind, ran]
      rfl
    exact performs_of_runs .body rfl failed (by rw [Store.perform, split]; rfl) shelved
  · have missed : runs configuredRoot worker world (download key) = (.error (.code .noEntry), world) := by
      rw [download, runs_bind, ran]
      rfl
    exact performs_of_runs .body rfl missed (by rw [Store.perform, split]; simp only [absent]; rfl) shelved
  · have read : runs configuredRoot worker world (download key) =
        (.ok (world.disk.contents inode), world) := by
      rw [download, runs_bind, ran, andThen_ok, runs_ask, exec,
        Disk.read_of_walk (Tree.walk_entry found rfl true) found]
    exact performs_of_runs .body rfl read (by rw [Store.perform, split]; simp only [there]; rfl) shelved

theorem performs_delete (shelved : Shelved root depth worker.process store world) {key : JsString}
    (deep : ∀ parts, segments key = .ok parts → parts.length = depth) :
    Performs configuredRoot root depth worker store world (.delete key) := by
  rcases @runs_resolveExisting configuredRoot root worker depth store world shelved key deep with
    ⟨message, split, ran⟩ | ⟨parts, split, absent, ran⟩ | ⟨parts, inode, split, there, found, ran⟩
  · have failed : runs configuredRoot worker world (deleteKey key) = (.error (.path message), world) := by
      rw [deleteKey, runs_tryCatch, runs_bind, ran]
      rfl
    exact performs_of_runs (fun _ => .nothing) rfl failed (by rw [Store.perform, split]; rfl) shelved
  · have missed : runs configuredRoot worker world (deleteKey key) = (.ok (), world) := by
      rw [deleteKey, runs_tryCatch, runs_bind, ran]
      rfl
    have nothing : store.remove parts = store := by
      rw [Store.remove, ← absent, Function.update_eq_self]
    refine performs_of_runs (fun _ => .nothing) rfl missed ?_ shelved
    rw [Store.perform, split]
    simp only [nothing]
    rfl
  · obtain ⟨disk, unlinked, entries, contents⟩ := Disk.unlink_file found
    have removed : runs configuredRoot worker world (deleteKey key) = (.ok (), { world with disk }) := by
      rw [deleteKey, runs_tryCatch, runs_bind, ran, andThen_ok, runs_bind, runs_ask, exec, World.onDisk,
        unlinked]
      rfl
    exact performs_of_runs (fun _ => .nothing) rfl removed (by rw [Store.perform, split]; rfl)
      (shelved.remove (tight_of_segments split).1 (deep parts split) entries contents)

theorem performs_promoteObject (shelved : Shelved root depth worker.process store world)
    {sourceKey destinationKey : JsString}
    (deep : ∀ parts, segments sourceKey = .ok parts → parts.length = depth)
    (deep' : ∀ parts, segments destinationKey = .ok parts → parts.length = depth) :
    Performs configuredRoot root depth worker store world (.promoteObject sourceKey destinationKey) := by
  rcases @runs_resolveExisting configuredRoot root worker depth store world shelved sourceKey deep with
    ⟨message, split, ran⟩ | ⟨parts, split, absent, ran⟩ | ⟨parts, inode, split, there, found, ran⟩
  · have failed : runs configuredRoot worker world (promoteObject sourceKey destinationKey) =
        (.error (.path message), world) := by
      rw [promoteObject, runs_bind, ran]
      rfl
    exact performs_of_runs (fun _ => .nothing) rfl failed (by rw [Store.perform, split]; rfl) shelved
  · have missed : runs configuredRoot worker world (promoteObject sourceKey destinationKey) =
        (.error (.code .noEntry), world) := by
      rw [promoteObject, runs_bind, ran]
      rfl
    refine performs_of_runs (fun _ => .nothing) rfl missed ?_ shelved
    rw [Store.perform, split]
    simp only [absent]
    rfl
  rcases @runs_resolveForWrite configuredRoot root worker depth store world shelved destinationKey deep' with
    ⟨message, split', ran'⟩ | ⟨front, last, later, split', ran', shelved', parent⟩
  · have failed : runs configuredRoot worker world (promoteObject sourceKey destinationKey) =
        (.error (.path message), world) := by
      rw [promoteObject, runs_bind, ran, andThen_ok, runs_bind, ran']
      rfl
    refine performs_of_runs (fun _ => .nothing) rfl failed ?_ shelved
    rw [Store.perform, split]
    simp only [there, split']
    rfl
  have placed := deep' _ split'
  rcases shelved'.kept parts (deep parts split) with ⟨-, absent⟩ | ⟨inode', file, there'⟩
  · cases absent.symm.trans there
  rcases shelved'.kept _ placed with ⟨absent, free⟩ | ⟨other, taken, some'⟩
  · rw [← List.append_assoc] at absent
    obtain ⟨disk, linked, entries, contents⟩ := Disk.link_free file parent absent
    have apart : parts ≠ front ++ [last] := by
      rintro rfl
      cases free.symm.trans there
    have still : disk.tree.entry (root ++ parts) = some (.file inode') := by
      rw [entries, List.append_assoc, if_neg fun same => apart (List.append_cancel_left same)]
      exact file
    obtain ⟨disk', unlinked, entries', contents'⟩ := Disk.unlink_file still
    have moved : runs configuredRoot worker world (promoteObject sourceKey destinationKey) =
        (.ok (), { later with disk := disk' }) := by
      rw [promoteObject, runs_bind, ran, andThen_ok, runs_bind, ran', andThen_ok, runs_bind, runs_ask, exec,
        World.onDisk, linked]
      simp only [andThen_ok]
      rw [runs_bind, runs_ask, exec, World.onDisk, unlinked]
      rfl
    refine performs_of_runs (fun _ => .nothing) rfl moved ?_ (shelved'.move (tight_of_segments split).1
      (tight_of_segments split').1 (deep parts split) placed apart file
      (fun path => List.append_assoc root front [last] ▸ entries path) contents entries' contents')
    rw [Store.perform, split]
    simp only [there, split', free]
    have same : world.disk.contents inode = disk'.contents inode' := by
      rw [contents', contents]
      exact Option.some.inj (there.symm.trans there')
    rw [same]
    rfl
  · rw [← List.append_assoc] at taken
    have refused : runs configuredRoot worker world (promoteObject sourceKey destinationKey) =
        (.error (.code .exists), later) := by
      rw [promoteObject, runs_bind, ran, andThen_ok, runs_bind, ran', andThen_ok, runs_bind, runs_ask, exec,
        World.onDisk, Disk.link_taken file parent (by rw [taken]; exact fun same => by cases same)]
      rfl
    refine performs_of_runs (fun _ => .nothing) rfl refused ?_ shelved'
    rw [Store.perform, split]
    simp only [there, split', some']
    rfl

/-! ## Any number of operations -/

def Operation.keys : Operation → List JsString
  | .putObject key _ | .headObject key | .download key | .delete key => [key]
  | .promoteObject sourceKey destinationKey => [sourceKey, destinationKey]

/-- A name that a file system keeps as it is: no surrogate stands alone in it, where UTF-8 would put
U+FFFD, and it has at most 255 bytes. -/
def Storable (name : JsString) : Prop := toWellFormed name = name ∧ (utf8Bytes name).length ≤ 255

instance (name : JsString) : Decidable (Storable name) := inferInstanceAs (Decidable (_ ∧ _))

/-- The keys have so many segments, if they are taken at all, each a name that can be stored. -/
def Operation.Deep (depth : Nat) (operation : Operation) : Prop :=
  ∀ key ∈ operation.keys, ∀ parts, segments key = .ok parts →
    parts.length = depth ∧ ∀ part ∈ parts, Storable part

/-- **The step lemma.** -/
theorem Shelved.performs (shelved : Shelved root depth worker.process store world) {operation : Operation}
    (deep : operation.Deep depth) : Performs configuredRoot root depth worker store world operation := by
  have long : ∀ key ∈ operation.keys, ∀ parts, segments key = .ok parts → parts.length = depth :=
    fun key listed parts split => (deep key listed parts split).1
  cases operation with
  | putObject key source => exact performs_putObject shelved (long key List.mem_cons_self) source
  | headObject key => exact performs_headObject shelved (long key List.mem_cons_self)
  | promoteObject sourceKey destinationKey =>
      exact performs_promoteObject shelved (long sourceKey List.mem_cons_self)
        (long destinationKey (.tail _ List.mem_cons_self))
  | download key => exact performs_download shelved (long key List.mem_cons_self)
  | delete key => exact performs_delete shelved (long key List.mem_cons_self)

end

/-! ### The keys of the service -/

theorem segments_ok {key : JsString} {parts : List JsString} (split : segments key = .ok parts) :
    parts = splitOn 0x2F (slashed key) := by
  rw [segments] at split
  split at split
  · cases split
  · simp only at split
    split at split <;> cases split
    rfl

theorem safeName_kept {unicode : Unicode} {platform : Platform}
    (sluggish : platform.slugify = slugify unicode) (name : JsString) :
    KeptPart (safeName platform name) := by
  rw [safeName]
  by_cases empty : (platform.slugify name).take 240 = []
  · rw [if_pos empty]
    exact (plainPart_of_kept (by decide) (List.all_eq_true.mp (by decide))).toKeptPart
  · rw [if_neg empty]
    refine ⟨empty, fun u inside => ?_⟩
    have slug : IsSlug (platform.slugify name) := sluggish ▸ isSlug_slugify _ _
    have unit := slug.units u (List.mem_of_mem_take inside)
    rw [isSlugUnit, Bool.and_eq_true] at unit
    exact unit.1

/-- All keys that the service builds have as many segments: those of the folder and four. -/
theorem depth_of_built {unicode : Unicode} {platform : Platform}
    (sluggish : platform.slugify = slugify unicode) (lawful : unicode.Lawful) {config : UploadedFileConfig}
    {settings : NormalizedUploadedFileConfig}
    (accepted : normalizeUploadedFileConfig platform config = .ok settings) {tenantId : JsString}
    (tenant : tenantId ≠ []) {id : UuidText} {fileName : Option JsString} {space : Namespace}
    {generated : GeneratedStorageKey}
    (built : FileNames.buildStorageKeyForId platform settings.folder tenantId id.text fileName space =
      .ok generated)
    {parts : List JsString} (split : segments generated.key = .ok parts) :
    parts.length = (folderParts config.folder).length + 4 := by
  obtain ⟨joined, named⟩ := of_normalizeStoragePrefix_ok (normalizeUploadedFileConfig_folder accepted)
  have slugs : ∀ slug ∈ (folderParts config.folder).map platform.slugify, SlugPart slug := by
    intro slug listed
    obtain ⟨part, held, rfl⟩ := List.mem_map.mp listed
    exact ⟨sluggish ▸ isSlug_slugify _ _, named part held⟩
  have nonempty : (folderParts config.folder).map platform.slugify ≠ [] :=
    fun empty => splitOn_ne_nil _ _ (List.map_eq_nil_iff.mp empty)
  rw [joined, buildStorageKeyForId_eq sluggish lawful nonempty slugs tenant] at built
  split at built
  · cases built
  cases built
  have kept : ∀ part ∈ (folderParts config.folder).map platform.slugify ++ [namespaceText space,
      safeTenant tenantId, id.text, safeName platform (FileNames.sanitizeOriginalFileName fileName)],
        KeptPart part := by
    intro part listed
    rcases List.mem_append.mp listed with slug | listed
    · exact (slugs part slug).kept
    · simp only [List.mem_cons, List.not_mem_nil, or_false] at listed
      rcases listed with rfl | rfl | rfl | rfl
      · exact (namespaceText_plain space).toKeptPart
      · exact (safeTenant_plain tenant).toKeptPart
      · exact id.plain.toKeptPart
      · exact safeName_kept sluggish _
  have same := segments_ok split
  rw [slashed_joined kept, splitOn_joined (List.append_ne_nil_of_left_ne_nil nonempty _) kept] at same
  rw [same, List.length_append, List.length_map]
  rfl

/-! ### Runs of operations -/

/-- What operations return and leave, one after the other. -/
def Store.performAll : Store → List Operation → List (Except Failure Reply) × Store
  | store, [] => ([], store)
  | store, operation :: rest =>
      let (replies, last) := (store.perform operation).2.performAll rest
      ((store.perform operation).1 :: replies, last)

def runAll (configuredRoot : Path) (worker : Worker) :
    World → List Operation → List (Except Failure Reply) × World
  | world, [] => ([], world)
  | world, operation :: rest =>
      let ran := run (handle configuredRoot worker) (launch operation) world
      let (replies, last) := runAll configuredRoot worker ran.2 rest
      (ran.1 :: replies, last)

/-- A root with nothing below is an empty store. -/
theorem shelved_empty {root : Path} {process : Nat} {world : World} (depth : Nat)
    (memo : world.roots process = some (.ok root)) (directory : world.disk.tree.entry root = some .directory)
    (empty : ∀ parts, parts ≠ [] → world.disk.tree.entry (root ++ parts) = none) :
    Shelved root (depth + 1) process (fun _ => none) world where
  memo := memo
  directory := directory
  above parts _ := by
    by_cases top : parts = []
    · exact .inr (by rw [top, List.append_nil]; exact directory)
    · exact .inl (empty parts top)
  kept parts deep := .inl ⟨empty parts (by rintro rfl; cases deep), rfl⟩
  apart parts _ inode deep _ there _ := by
    rw [empty parts (by rintro rfl; cases deep)] at there
    cases there

/-- A disk with an empty root. -/
def shelf : Disk JsString UInt8 :=
  (Disk.bare (fun _ => []) 0).put ⟨[], js "srv", rfl, rfl⟩ .directory fun _ same => by cases same

def shelfWorld : World := ⟨shelf, fun _ => some (.ok [js "srv"])⟩

theorem shelfWorld_shelved (process : Nat) : Shelved [js "srv"] 2 process (fun _ => none) shelfWorld := by
  refine shelved_empty 1 rfl rfl fun parts some' => ?_
  have other : js "srv" :: parts ≠ [js "srv"] := fun same => some' (List.cons.inj same).2
  exact (Tree.entry_add _ _ _).trans ((if_neg other).trans (Tree.entry_bare (List.cons_ne_nil _ _)))

/-- An object is put, put again, moved, read and deleted. -/
def shelfOperations : List Operation :=
  [.putObject (js "pending/a") ⟨[[1], [2]], false⟩, .putObject (js "pending/a") ⟨[[3]], false⟩,
    .promoteObject (js "pending/a") (js "tenant/a"), .download (js "tenant/a"), .headObject (js "pending/a"),
    .delete (js "tenant/a"), .download (js "tenant/a")]

end SdcoreNest.UploadedFile.LocalDisk
