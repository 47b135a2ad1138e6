/-
# UploadedFile.LocalDisk -- the local storage driver on a disk with links

`SafeLocalPathResolver` and `LocalUploadedFileStorage` as programs whose calls are those of the file
system.  Any number of processes run any number of them side by side over one disk; the links on it, in
the root and elsewhere, are arbitrary.  `delete` runs the keys it is given side by side, so the deletion
of one key is an operation of its own.

* `exec` -- what a call does to the disk;
* `Checked`, `Found` -- what a worker knows of a path after its own calls;
* `conduct`, `obeys_launch` -- no operation changes or reads a path that it does not know.
-/
import SdcoreNest.Theory.FileTree
import SdcoreNest.Theory.Interleaving
import SdcoreNest.Theory.Rules
import SdcoreNest.UploadedFile.StorageKeys

namespace SdcoreNest.UploadedFile.LocalDisk

open SdcoreNest.Theory SdcoreNest.Theory.JsString SdcoreNest.Theory.FileTree SdcoreNest.Theory.Machine
  FileNames

set_option autoImplicit false

/-! ## Calls -/

abbrev Path := List JsString

/-- What the driver asks: its root, and the disk. -/
inductive Call where
  /-- The promise of `canonicalRoot`. -/
  | canonicalRoot
  | lstat (path : Path)
  | realpath (path : Path)
  | mkdir (path : Path)
  | stat (path : Path)
  /-- Open a new file, flag `wx`. -/
  | openNew (path : Path)
  | write (inode : Nat) (bytes : Bytes)
  | createReadStream (path : Path)
  | link (source destination : Path)
  | unlink (path : Path)

abbrev Call.Result : Call → Type
  | .canonicalRoot => Path
  | .lstat _ => Entry JsString
  | .realpath _ => Path
  | .mkdir _ => Unit
  | .stat _ => Nat
  | .openNew _ => Nat
  | .write _ _ => Unit
  | .createReadStream _ => Bytes
  | .link _ _ => Unit
  | .unlink _ => Unit

/-- Every call answers or fails with a code that the driver looks at; it throws what else can go wrong. -/
abbrev sig : Signature where
  Call := Call
  Answer call := Except Errno call.Result

/-- What a method of the driver throws. -/
inductive Failure where
  | path (message : String)
  | code (errno : Errno)
  | other
deriving DecidableEq

abbrev M := ExceptT Failure (Program sig)

def ask (call : Call) : M call.Result := do
  let answer : Except Errno call.Result ← @Program.perform sig Failure .other call
  match answer with
  | .ok result => pure result
  | .error errno => throw (.code errno)

/-! ## `local-path.ts` -/

def assertContained (root target : Path) : M Unit :=
  if (relative root target).head? = some (js "..") then
    throw (.path "Resolved path is outside the local storage root")
  else pure ()

/-- The segments of a key, or the driver's own refusal. -/
def keySegments (key : JsString) : M (List JsString) :=
  match segments key with
  | .ok parts => pure parts
  | .error message => throw (.path message)

/-- `if (stat.isSymbolicLink() || !stat.isDirectory()) throw …` -/
def assertDirectory (stat : Entry JsString) : M Unit :=
  if stat = .directory then pure ()
  else throw (.path "Resolved path escapes the canonical local storage root")

def makeDirectory (current : Path) : M Unit := do
  tryCatch (ask (.mkdir current)) fun mkdirError =>
    if mkdirError = .code .exists then pure () else throw mkdirError
  let created ← ask (.lstat current)
  assertDirectory created

/-- `ensureSafeParent(root, parts)`, on from `current`. -/
def ensureSafeParent (root current : Path) : List JsString → M Unit
  | [] => pure ()
  | part :: rest => do
      let current := current ++ [part]
      tryCatch (do assertDirectory (← ask (.lstat current))) fun error =>
        if error = .code .noEntry then makeDirectory current else throw error
      let canonical ← ask (.realpath current)
      assertContained root canonical
      ensureSafeParent root current rest

def resolveForWrite (key : JsString) : M Path := do
  let root ← ask .canonicalRoot
  let parts ← keySegments key
  let target := resolveFrom root parts
  assertContained root target
  ensureSafeParent root root parts.dropLast
  return target

def resolveExisting (key : JsString) : M Path := do
  let root ← ask .canonicalRoot
  let parts ← keySegments key
  let lexical := resolveFrom root parts
  assertContained root lexical
  let stat ← ask (.lstat lexical)
  match stat with
  | .file _ => do
      let canonical ← ask (.realpath lexical)
      assertContained root canonical
      return canonical
  | _ => throw (.path "Local storage target is not a regular file")

/-! ## `local.service.ts` -/

/-- A buffer, or a stream: what it gives, and whether it fails then. -/
structure Source where
  chunks : List Bytes
  fails : Bool := false
deriving DecidableEq

def writeChunks (inode : Nat) : List Bytes → M Unit
  | [] => pure ()
  | chunk :: rest => do
      let _ ← ask (.write inode chunk)
      writeChunks inode rest

/-- Written to a name that must be new, so an object is never overwritten. -/
def putObject (key : JsString) (source : Source) : M Unit := do
  let target ← resolveForWrite key
  let inode ← ask (.openNew target)
  writeChunks inode source.chunks
  if source.fails then throw .other

/-- `{ size, contentType: null, etag: null, checksum: null, metadata: {} }`, or `null`. -/
def headObject (key : JsString) : M (Option Nat) :=
  tryCatch (do
    let target ← resolveExisting key
    let size ← ask (.stat target)
    return some size) fun error => if error = .code .noEntry then pure none else throw error

/-- A hard link to the final name, then the staging name is dropped. -/
def promoteObject (sourceKey destinationKey : JsString) : M Unit := do
  let source ← resolveExisting sourceKey
  let destination ← resolveForWrite destinationKey
  let _ ← ask (.link source destination)
  let _ ← ask (.unlink source)
  return ()

def download (key : JsString) : M Bytes := do
  let target ← resolveExisting key
  ask (.createReadStream target)

/-- What `delete` does with one of its keys. -/
def deleteKey (key : JsString) : M Unit :=
  tryCatch (do
    let target ← resolveExisting key
    let _ ← ask (.unlink target)
    return ()) fun error => if error = .code .noEntry then pure () else throw error

inductive Operation where
  | putObject (key : JsString) (source : Source)
  | headObject (key : JsString)
  | promoteObject (sourceKey destinationKey : JsString)
  | download (key : JsString)
  | delete (key : JsString)

/-- What an operation returns. -/
inductive Reply where
  | nothing
  | head (size : Option Nat)
  | body (bytes : Bytes)
deriving DecidableEq

def launch : Operation → Program sig (Except Failure Reply)
  | .putObject key source => (do putObject key source; return .nothing : M Reply).run
  | .headObject key => (do return .head (← headObject key) : M Reply).run
  | .promoteObject sourceKey destinationKey =>
      (do promoteObject sourceKey destinationKey; return .nothing : M Reply).run
  | .download key => (do return .body (← download key) : M Reply).run
  | .delete key => (do deleteKey key; return .nothing : M Reply).run

/-! ## The disk -/

structure World where
  disk : Disk JsString UInt8
  /-- `rootPromise` of each process. -/
  roots : Nat → Option (Except Errno Path)

/-- `mkdir(configuredRoot, { recursive: true })`, then `realpath(configuredRoot)`. -/
def prepareRoot (configuredRoot : Path) (disk : Disk JsString UInt8) :
    Except Errno Path × Disk JsString UInt8 :=
  match disk.mkdirs [] configuredRoot with
  | (.error errno, later) => (.error errno, later)
  | (.ok _, later) => (later.realpath configuredRoot, later)

def World.onDisk {α : Type} (world : World) (done : α × Disk JsString UInt8) : α × World :=
  (done.1, { world with disk := done.2 })

/-- What a call answers and changes. -/
def exec (configuredRoot : Path) (world : World) (worker : Worker) :
    (call : Call) → Except Errno call.Result × World
  | .canonicalRoot =>
      match world.roots worker.process with
      | some root => (root, world)
      | none =>
          let prepared := prepareRoot configuredRoot world.disk
          (prepared.1, {
            disk := prepared.2
            roots := Function.update world.roots worker.process (some prepared.1) })
  | .lstat path => (world.disk.lstat path, world)
  | .realpath path => (world.disk.realpath path, world)
  | .mkdir path => world.onDisk (world.disk.mkdir path)
  | .stat path => (world.disk.size path, world)
  | .openNew path => world.onDisk (world.disk.create path)
  | .write inode bytes => (.ok (), { world with disk := world.disk.append inode bytes })
  | .createReadStream path => (world.disk.read path, world)
  | .link source destination => world.onDisk (world.disk.link source destination)
  | .unlink path => world.onDisk (world.disk.unlink path)

/-- A change that failed may have been made, or may be made yet. -/
def residue : Call → List Call
  | .lstat _ | .realpath _ | .stat _ | .createReadStream _ => []
  | call => [call]

def machine (configuredRoot : Path) : Machine sig where
  World := World
  Move := Empty
  exec := exec configuredRoot
  sure _ := false
  residue := residue
  move _ m := nomatch m

/-! ## Paths of keys -/

/-- Accepted keys have segments, and none of them climbs. -/
theorem tight_of_segments {key : JsString} {parts : List JsString} (split : segments key = .ok parts) :
    parts ≠ [] ∧ ∀ part ∈ parts, isLoose part = false := by
  rw [segments] at split
  split at split
  · cases split
  · simp only at split
    split at split
    · cases split
    next tight =>
      cases split
      refine ⟨splitOn_ne_nil _ _, fun part listed => ?_⟩
      rw [← Bool.not_eq_true]
      exact fun loose => tight (List.any_eq_true.mpr ⟨part, listed, loose⟩)

/-- Tight segments are appended as they are. -/
theorem resolveFrom_tight {parts : List JsString} (tight : ∀ part ∈ parts, isLoose part = false)
    (root : Path) : resolveFrom root parts = root ++ parts := by
  induction parts generalizing root with
  | nil => exact (List.append_nil root).symm
  | cons part rest ih =>
      have first := tight part List.mem_cons_self
      simp only [isLoose, Bool.or_eq_false_iff, decide_eq_false_iff_not] at first
      have step : resolveFrom root (part :: rest) = resolveFrom (root ++ [part]) rest := by
        rw [resolveFrom, List.foldl_cons, if_neg (by simp [first]), if_neg first.2]
        rfl
      rw [step, ih fun other listed => tight other (.tail _ listed), List.append_assoc]
      rfl

/-- What is contained lies at the root or below it. -/
theorem prefix_of_contained {root target : Path} (inside : (relative root target).head? ≠ some (js "..")) :
    root <+: target := by
  induction root generalizing target with
  | nil => exact List.nil_prefix
  | cons first root ih =>
      cases target with
      | nil => exact absurd rfl inside
      | cons second target =>
          rw [relative] at inside
          split at inside
          next same => exact List.cons_prefix_cons.mpr ⟨same, ih inside⟩
          next => exact absurd rfl inside

/-! ## What a worker knows -/

abbrev Past := List (Theory.Step sig)

/-- The call was answered. -/
def answered (call : Call) (result : call.Result) : Theory.Step sig := ⟨call, some (.ok result)⟩

/-- The worker has its root, and below it has seen a directory at each step of the way. -/
inductive Checked : Past → Path → Prop where
  | root {past : Past} {root : Path} : Checked (answered .canonicalRoot root :: past) root
  | deeper {past : Past} {dir : Path} {name : JsString} : Checked past dir →
      Checked (answered (.lstat (dir ++ [name])) .directory :: past) (dir ++ [name])
  | older {past : Past} {step : Theory.Step sig} {dir : Path} : Checked past dir → Checked (step :: past) dir

/-- The path is canonical, and lies below the root. -/
def Found (past : Past) (path : Path) : Prop :=
  ∃ root lexical, answered .canonicalRoot root ∈ past ∧ answered (.realpath lexical) path ∈ past ∧
    root <+: path

/-- A name in a directory that the worker has checked. -/
def Below (past : Past) (path : Path) : Prop := ∃ dir name, path = dir ++ [name] ∧ Checked past dir

/-- What may be asked. -/
def allows (past : Past) : Call → Prop
  | .mkdir path | .openNew path => Below past path
  | .link source destination => Found past source ∧ Below past destination
  | .stat path | .createReadStream path | .unlink path => Found past path
  | .write inode _ => ∃ path, answered (.openNew path) inode ∈ past
  | .canonicalRoot | .lstat _ | .realpath _ => True

def conduct : Conduct sig where
  allows := allows
  credible _ := True

/-- What was checked stays checked along the worker's steps. -/
theorem Checked.later {past later : Past} {dir : Path} (checked : Checked past dir)
    (suffix : past <:+ later) :
    Checked later dir := by
  obtain ⟨newer, rfl⟩ := suffix
  induction newer with
  | nil => exact checked
  | cons step newer ih => exact ih.older

theorem Checked.root_of {past : Past} {dir : Path} (checked : Checked past dir) :
    ∃ root, answered .canonicalRoot root ∈ past ∧ root <+: dir := by
  induction checked with
  | root => exact ⟨_, List.mem_cons_self, List.prefix_rfl⟩
  | deeper _ ih =>
      obtain ⟨root, known, front⟩ := ih
      exact ⟨root, .tail _ known, front.trans (List.prefix_append ..)⟩
  | older _ ih =>
      obtain ⟨root, known, front⟩ := ih
      exact ⟨root, .tail _ known, front⟩

theorem Found.later {past later : Past} {path : Path} (found : Found past path) (suffix : past <:+ later) :
    Found later path := by
  obtain ⟨root, lexical, known, resolved, front⟩ := found
  exact ⟨root, lexical, suffix.subset known, suffix.subset resolved, front⟩

theorem Below.later {past later : Past} {path : Path} (below : Below past path) (suffix : past <:+ later) :
    Below later path := by
  obtain ⟨dir, name, same, checked⟩ := below
  exact ⟨dir, name, same, checked.later suffix⟩

/-! ## The driver keeps to it -/

section

variable {past : Past}

theorem follows_ask {call : Call} (allowed : allows past call) :
    Follows conduct (ask call) past (returning fun result past' => past' = answered call result :: past) := by
  refine Follows.ask_bind (S := sig) allowed (fun answer _ => ?_) fun _ => trivial
  cases answer with
  | ok result => exact rfl
  | error errno => exact trivial

/-- Whatever it comes to. -/
theorem follows_anyhow {α : Type} {p : M α} {post : Except Failure α → Past → Prop}
    (follows : Follows conduct p past post) : Follows conduct p past anyhow :=
  follows.mono fun result _ _ _ => by cases result <;> trivial

theorem follows_assertContained (root target : Path) :
    Follows conduct (assertContained root target) past
      (returning fun _ past' => past' = past ∧ (relative root target).head? ≠ some (js "..")) := by
  unfold assertContained
  split
  · trivial
  next inside => exact ⟨rfl, inside⟩

theorem follows_assertDirectory (stat : Entry JsString) :
    Follows conduct (assertDirectory stat) past
      (returning fun _ past' => past' = past ∧ stat = .directory) := by
  unfold assertDirectory
  split
  next directory => exact ⟨rfl, directory⟩
  · trivial

/-- `lstat` says that the name is a directory's. -/
theorem follows_check {dir : Path} {name : JsString} (checked : Checked past dir) :
    Follows conduct (do assertDirectory (← ask (.lstat (dir ++ [name])))) past
      (returning fun _ past' => Checked past' (dir ++ [name])) := by
  refine Follows.seq _ (follows_ask trivial) (fun stat past' _ same => ?_) fun _ _ _ => trivial
  refine (follows_assertDirectory stat).mono fun result past'' _ held => ?_
  cases result with
  | error error => trivial
  | ok _ =>
      obtain ⟨rfl, rfl⟩ := held
      exact same ▸ checked.deeper

/-- A directory is made, or found, and looked at before it counts as checked. -/
theorem follows_makeDirectory {dir : Path} {name : JsString} (checked : Checked past dir) :
    Follows conduct (makeDirectory (dir ++ [name])) past
      (returning fun _ past' => Checked past' (dir ++ [name])) := by
  unfold makeDirectory
  refine Follows.seq (fun _ _ => True) ?_ (fun _ past' longer _ => ?_) fun _ _ _ => trivial
  · refine Follows.catching (follows_anyhow (follows_ask ⟨dir, name, rfl, checked⟩)) (fun _ _ _ => trivial)
      fun error past' _ => ?_
    split <;> trivial
  · exact follows_check (checked.later longer)

/-- Every directory on the way is checked. The induction is on the segments, with the directories
so far checked. -/
theorem follows_ensureSafeParent (root : Path) {parts : List JsString} : ∀ {current : Path} {past : Past},
    Checked past current → Follows conduct (ensureSafeParent root current parts) past
      (returning fun _ past' => Checked past' (current ++ parts)) := by
  induction parts with
  | nil =>
      intro current past checked
      rw [List.append_nil]
      exact checked
  | cons part rest ih =>
      intro current past checked
      rw [ensureSafeParent, List.append_cons current part rest]
      refine Follows.seq (fun _ past' => Checked past' (current ++ [part])) ?_ (fun _ past' _ there => ?_)
        fun _ _ _ => trivial
      · refine Follows.guarding (follows_check checked) (fun _ _ _ => id) fun error past' longer => ?_
        split
        · exact follows_makeDirectory (checked.later longer)
        · trivial
      · refine Follows.seq _ (follows_ask trivial) (fun canonical past'' _ same => ?_) fun _ _ _ => trivial
        refine Follows.seq _ (follows_assertContained root canonical) (fun _ after _ held => ?_)
          fun _ _ _ => trivial
        exact ih (held.1 ▸ same ▸ there.older)

theorem follows_keySegments (key : JsString) :
    Follows conduct (keySegments key) past
      (returning fun parts past' => past' = past ∧ parts ≠ [] ∧ ∀ part ∈ parts, isLoose part = false) := by
  unfold keySegments
  split
  next parts split => exact ⟨rfl, tight_of_segments split⟩
  · trivial

/-- A target for writing is below a directory that was checked. -/
theorem follows_resolveForWrite (key : JsString) :
    Follows conduct (resolveForWrite key) past (returning fun target past' => Below past' target) := by
  refine Follows.seq _ (follows_ask trivial) (fun root past1 _ known => ?_) fun _ _ _ => trivial
  refine Follows.seq _ (follows_keySegments key) (fun parts past2 _ split => ?_) fun _ _ _ => trivial
  refine Follows.seq _ (follows_assertContained _ _) (fun _ past3 _ inside => ?_) fun _ _ _ => trivial
  obtain ⟨rfl, some', tight⟩ := split
  obtain ⟨rfl, -⟩ := inside
  refine Follows.seq _ (follows_ensureSafeParent root (known ▸ Checked.root)) (fun _ past4 _ checked => ?_)
    fun _ _ _ => trivial
  refine ⟨_, parts.getLast some', ?_, checked⟩
  rw [resolveFrom_tight tight, List.append_assoc, List.dropLast_append_getLast]

/-- A target for reading was resolved by the disk and found inside the root. -/
theorem follows_resolveExisting (key : JsString) :
    Follows conduct (resolveExisting key) past (returning fun target past' => Found past' target) := by
  refine Follows.seq _ (follows_ask trivial) (fun root past1 _ known => ?_) fun _ _ _ => trivial
  refine Follows.seq _ (follows_keySegments key) (fun parts past2 _ split => ?_) fun _ _ _ => trivial
  refine Follows.seq _ (follows_assertContained _ _) (fun _ past3 _ inside => ?_) fun _ _ _ => trivial
  refine Follows.seq _ (follows_ask trivial) (fun stat past4 _ looked => ?_) fun _ _ _ => trivial
  split
  · refine Follows.seq _ (follows_ask trivial) (fun canonical past5 _ resolved => ?_) fun _ _ _ => trivial
    refine Follows.seq _ (follows_assertContained _ _) (fun _ past6 _ inside' => ?_) fun _ _ _ => trivial
    obtain ⟨rfl, front⟩ := inside'
    refine ⟨root, _, ?_, resolved ▸ List.mem_cons_self, prefix_of_contained front⟩
    rw [resolved, looked, inside.1, split.1, known]
    exact .tail _ (.tail _ List.mem_cons_self)
  · trivial

theorem follows_writeChunks {path : Path} {inode : Nat} {chunks : List Bytes} : ∀ {past : Past},
    answered (.openNew path) inode ∈ past → Follows conduct (writeChunks inode chunks) past anyhow := by
  induction chunks with
  | nil => exact fun _ => trivial
  | cons chunk rest ih =>
      intro past opened
      refine Follows.seq _ (follows_ask ⟨path, opened⟩) (fun _ past' longer _ => ?_) fun _ _ _ => trivial
      exact ih (longer.subset opened)

/-- The bytes go to the name just opened. -/
theorem follows_putObject (key : JsString) (source : Source) :
    Follows conduct (putObject key source) past anyhow := by
  refine Follows.seq _ (follows_resolveForWrite key) (fun target past' _ below => ?_) fun _ _ _ => trivial
  refine Follows.seq _ (follows_ask below) (fun inode past'' _ opened => ?_) fun _ _ _ => trivial
  refine Follows.seq _ (follows_writeChunks (opened ▸ List.mem_cons_self)) (fun _ _ _ _ => ?_)
    fun _ _ _ => trivial
  split <;> trivial

theorem follows_headObject (key : JsString) : Follows conduct (headObject key) past anyhow := by
  refine Follows.catching ?_ (fun _ _ _ => trivial) fun error past' _ => by split <;> trivial
  refine Follows.seq _ (follows_resolveExisting key) (fun target past' _ found => ?_) fun _ _ _ => trivial
  exact Follows.seq _ (follows_ask found) (fun _ _ _ _ => trivial) fun _ _ _ => trivial

/-- Both ends of the link were looked at before it is made. -/
theorem follows_promoteObject (sourceKey destinationKey : JsString) :
    Follows conduct (promoteObject sourceKey destinationKey) past anyhow := by
  refine Follows.seq _ (follows_resolveExisting sourceKey) (fun source past1 _ found => ?_)
    fun _ _ _ => trivial
  refine Follows.seq _ (follows_resolveForWrite destinationKey) (fun destination past2 longer below => ?_)
    fun _ _ _ => trivial
  refine Follows.seq _ (follows_ask ⟨found.later longer, below⟩) (fun _ past3 longer' _ => ?_)
    fun _ _ _ => trivial
  exact Follows.seq _ (follows_ask (found.later (longer.trans longer'))) (fun _ _ _ _ => trivial)
    fun _ _ _ => trivial

theorem follows_download (key : JsString) : Follows conduct (download key) past anyhow := by
  refine Follows.seq _ (follows_resolveExisting key) (fun target past' _ found => ?_) fun _ _ _ => trivial
  exact follows_anyhow (follows_ask found)

theorem follows_deleteKey (key : JsString) : Follows conduct (deleteKey key) past anyhow := by
  refine Follows.catching ?_ (fun _ _ _ => trivial) fun error past' _ => by split <;> trivial
  refine Follows.seq _ (follows_resolveExisting key) (fun target past' _ found => ?_) fun _ _ _ => trivial
  exact Follows.seq _ (follows_ask found) (fun _ _ _ _ => trivial) fun _ _ _ => trivial

/-- Every operation keeps to the conduct, by cases. -/
theorem obeys_launch (operation : Operation) :
    Program.Obeys conduct (launch operation) [] fun _ _ => True := by
  have any {α : Type} {p : M α} (follows : Follows conduct p [] anyhow) (reply : α → Reply) :
      Program.Obeys conduct (do return reply (← p) : M Reply).run [] fun _ _ => True :=
    Program.obeys_mono (Follows.seq _ follows (fun _ _ _ _ => trivial) fun _ _ _ => trivial :
      Follows conduct (do return reply (← p) : M Reply) [] anyhow) fun _ _ _ => trivial
  cases operation with
  | putObject key source => exact any (follows_putObject key source) fun _ => .nothing
  | headObject key => exact any (follows_headObject key) .head
  | promoteObject sourceKey destinationKey =>
      exact any (follows_promoteObject sourceKey destinationKey) fun _ => .nothing
  | download key => exact any (follows_download key) .body
  | delete key => exact any (follows_deleteKey key) fun _ => .nothing

end

end SdcoreNest.UploadedFile.LocalDisk
