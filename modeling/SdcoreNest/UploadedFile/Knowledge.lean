/-
# UploadedFile.Knowledge -- what workers have seen stays true

`Known` is the invariant of all reachable states, under every interleaving, fault
and clock.  Its state part is `World.Good`.  Its other fields say what each worker's
own steps still mean although others have moved on: a row it saw has a later version
in the table, an id it drew is used by nobody else, an object it wrote or saw is
still there unless the row is being deleted, the rows it holds are being deleted.
With it every call a disciplined worker asks is fit to land (`late_of_allowed`), now
or later.
-/
import SdcoreNest.UploadedFile.Invariants
import SdcoreNest.UploadedFile.Obedience

namespace SdcoreNest.UploadedFile

open SdcoreNest.Theory
open SdcoreNest.Theory.Machine

set_option autoImplicit false

/-- The worker saved or read this row. -/
def Seen (past : Past) (row : Row) : Prop := Saved past row ∨ Read past row

theorem not_seen_nil (row : Row) : ¬ Seen [] row := by
  rintro (⟨_, member⟩ | ⟨_, member⟩ | ⟨_, _, member, _⟩) <;>
    exact absurd member List.not_mem_nil

/-- A held row and its current version. -/
structure Row.Claimed (row current : Row) : Prop where
  file : Statement.SameFile row current
  touched : current.touched = true
  settled : row.uploadPendingAt = none → current.uploadPendingAt = none
  staging : current.pendingKey = row.pendingKey ∨ current.pendingKey = none
  space : ∀ key, row.pendingKey = some key → key.space = .pending

theorem Row.Claimed.later {row current current' : Row} (claimed : row.Claimed current)
    (later : current.Later current') : row.Claimed current' where
  file := claimed.file.trans later.sameFile
  touched := later.touched claimed.touched
  settled none := later.settled claimed.touched (claimed.settled none)
  staging := by
    rcases later.staging with kept | dropped
    · rw [kept]
      exact claimed.staging
    · exact .inr dropped
  space := claimed.space

/-- The delete of held rows covers the objects of their current versions. -/
theorem Row.Claimed.keys_subset {row current : Row} (claimed : row.Claimed current)
    {rows : List Row} (inside : row ∈ rows) : current.keys ⊆ objectKeys rows := by
  intro key member
  simp only [objectKeys, List.mem_eraseDups, List.mem_flatMap]
  refine ⟨row, inside, ?_⟩
  simp only [Row.keys, List.mem_cons, Option.mem_toList] at member ⊢
  rcases member with final | staging
  · exact .inl (final.trans claimed.file.key)
  · rcases claimed.staging with same | gone
    · exact .inr (same ▸ staging)
    · rw [gone] at staging
      cases staging

/-! ## Claim statements -/

/-- The unused claim value is old, or was just drawn. -/
theorem minted_cons {step : Step sig} {past : Past} {mint : Mint}
    (drawn : minted (step :: past) = some mint) :
    minted past = some mint ∨ ∃ expected claim,
      step = ⟨.nextDeletionClaim expected, some claim⟩ ∧ mint = ⟨expected, claim, past⟩ := by
  have updated : ∀ statement, Mint.afterUpdate statement (minted past) = some mint →
      minted past = some mint := by
    intro statement after
    unfold Mint.afterUpdate at after
    split at after
    · cases after
    · exact after
  unfold minted at drawn
  split at drawn
  · cases drawn
  · rename_i expected claim older same
    cases same
    cases drawn
    exact .inr ⟨expected, claim, rfl, rfl⟩
  · rename_i statement reply older same
    cases same
    exact .inl (updated statement drawn)
  · rename_i statement count reply older same
    cases same
    exact .inl (updated statement drawn)
  · rename_i older _ _ _ same
    cases same
    exact .inl drawn

/-- The steps before the unused claim value was drawn. -/
theorem minted_older {past : Past} {mint : Mint} (drawn : minted past = some mint) :
    mint.older <:+ past := by
  induction past using minted.induct with
  | case1 => cases drawn
  | case2 expected claim past =>
      cases drawn
      exact List.suffix_cons _ _
  | case3 statement reply past ih =>
      simp only [minted, Mint.afterUpdate] at drawn
      split at drawn
      · cases drawn
      · exact (ih drawn).trans (List.suffix_cons _ _)
  | case4 statement count reply past ih =>
      simp only [minted, Mint.afterUpdate] at drawn
      split at drawn
      · cases drawn
      · exact (ih drawn).trans (List.suffix_cons _ _)
  | case5 step past _ _ _ ih =>
      simp only [minted] at drawn
      exact (ih drawn).trans (List.suffix_cons _ _)

theorem AimedAt.read {past : Past} {row : Row} {claim : Int} (aimed : AimedAt past row claim) :
    Read past row := by
  obtain ⟨mint, drawn, -, read, -⟩ := aimed
  exact read.mono (minted_older drawn)

namespace Statement

variable {statement : Statement} {rows : List Row} {claim : Int} {access : Option Access}

/-- A claim only takes rows the worker named. -/
theorem id_of_claims (claims : statement.claims = some (rows, claim, access)) {row : Row}
    (chosen : statement.chosen row = true) : row.id ∈ rows.map Row.id := by
  cases statement <;> simp only [Statement.claims, Option.some.injEq, Prod.mk.injEq,
    reduceCtorEq] at claims <;> obtain ⟨rfl, rfl, rfl⟩ := claims <;>
    simp_all [Statement.chosen, Access.pendingUploadWhere_eq_true,
      Access.lifecycleWhere_eq_true, Row.sameMarkers_eq_true]

/-- A claimed row carries the claim. -/
theorem claimed_of_claims (clock : Moment) (claims : statement.claims = some (rows, claim, access))
    (row : Row) : (statement.patch clock row).deletionPendingAt = some claim := by
  cases statement <;> simp only [Statement.claims, Option.some.injEq, Prod.mk.injEq,
    reduceCtorEq] at claims <;> obtain ⟨-, rfl, -⟩ := claims <;> rfl

/-- The rows of a claim come from rows the worker has seen. -/
theorem seen_of_claims {driver : Driver} {past : Past} (allowed : statement.Allowed driver past)
    (claims : statement.claims = some (rows, claim, access)) {row : Row} (member : row ∈ rows) :
    ∃ snapshot, Seen past snapshot ∧ SameFile row snapshot ∧
      row.pendingKey = snapshot.pendingKey := by
  cases statement <;> simp only [Statement.claims, Option.some.injEq, Prod.mk.injEq,
    reduceCtorEq] at claims <;> obtain ⟨rfl, -, -⟩ := claims
  case claimFailedUpload =>
      cases List.mem_singleton.mp member
      exact ⟨_, .inl allowed.1, ⟨rfl, rfl, rfl, rfl, rfl, rfl, rfl, rfl, rfl, rfl, rfl⟩, rfl⟩
  case settleFailedUpload =>
      cases List.mem_singleton.mp member
      exact ⟨_, .inr allowed.2.1.read, ⟨rfl, rfl, rfl, rfl, rfl, rfl, rfl, rfl, rfl, rfl, rfl⟩, rfl⟩
  case claimReferences | claimUnused =>
      obtain ⟨snapshot, there, rfl⟩ := List.mem_map.mp member
      exact ⟨_, .inr (allowed.1 snapshot there),
        ⟨rfl, rfl, rfl, rfl, rfl, rfl, rfl, rfl, rfl, rfl, rfl⟩, rfl⟩
  case claimExpiredDirectUpload =>
      cases List.mem_singleton.mp member
      exact ⟨_, .inr allowed.2.1.read, ⟨rfl, rfl, rfl, rfl, rfl, rfl, rfl, rfl, rfl, rfl, rfl⟩, rfl⟩
  case claimPendingDeletion =>
      cases List.mem_singleton.mp member
      exact ⟨_, .inr allowed.1.read, ⟨rfl, rfl, rfl, rfl, rfl, rfl, rfl, rfl, rfl, rfl, rfl⟩, rfl⟩
  all_goals
    cases List.mem_singleton.mp member
    exact ⟨_, .inr allowed.1, ⟨rfl, rfl, rfl, rfl, rfl, rfl, rfl, rfl, rfl, rfl, rfl⟩, rfl⟩

/-- A claim leaves `uploadPendingAt` of a chosen row as the worker then holds it. -/
theorem settled_of_claims (clock : Moment) (claims : statement.claims = some (rows, claim, access))
    {row current : Row} (member : row ∈ rows) (none : row.uploadPendingAt = none)
    (chosen : statement.chosen current = true) (same : current.id = row.id) :
    (statement.patch clock current).uploadPendingAt = .none := by
  cases statement <;> simp only [Statement.claims, Option.some.injEq, Prod.mk.injEq,
    reduceCtorEq] at claims <;> obtain ⟨rfl, -, -⟩ := claims <;>
    simp_all [Statement.chosen, Statement.patch, Access.active_eq_true, Row.visible_eq_true,
      unusedBefore_eq_true, Row.sameMarkers_eq_true]

end Statement

/-- What a worker holds after a step: what it held before, further on after a delete or a
soft delete, or the rows of a claim that was granted in full. -/
theorem holding_cons {step : Step sig} {past : Past} {hold : Hold}
    (held : holding (step :: past) = some hold) :
    (∃ old, holding past = some old ∧ old.rows = hold.rows ∧ old.claim = hold.claim ∧
      old.access = hold.access ∧
      (old.phase = hold.phase ∨ (∃ keys, step = ⟨.delete keys, some ()⟩) ∨
        ∃ rows claim access, step.call = .update (.finalizePendingRows rows claim access) ∨
          ∃ count, step.call = .transact (.finalizePendingRows rows claim access) count)) ∨
    ∃ statement, statement.claims = some (hold.rows, hold.claim, hold.access) ∧
      hold.phase = .claimed ∧
      (step = ⟨.update statement, some hold.rows.length⟩ ∨
        step = ⟨.transact statement hold.rows.length, some true⟩) := by
  have updated : ∀ (statement : Statement) (count : Option Nat),
      Hold.afterUpdate statement count (holding past) = some hold →
      (∃ old, holding past = some old ∧ old.rows = hold.rows ∧ old.claim = hold.claim ∧
        old.access = hold.access ∧ (old.phase = hold.phase ∨
          ∃ rows claim access, statement = .finalizePendingRows rows claim access)) ∨
      statement.claims = some (hold.rows, hold.claim, hold.access) ∧ hold.phase = .claimed ∧
        count = some hold.rows.length := by
    intro statement count after
    unfold Hold.afterUpdate at after
    split at after
    · rename_i rows claim access claims
      split at after
      · rename_i counted
        cases after
        exact .inr ⟨claims, rfl, counted⟩
      · cases after
    · left
      split at after
      · split at after
        · obtain ⟨old, same, rfl⟩ := Option.map_eq_some_iff.mp after
          exact ⟨old, same, rfl, rfl, rfl, .inr ⟨_, _, _, rfl⟩⟩
        · exact ⟨hold, after, rfl, rfl, rfl, .inl rfl⟩
      · cases after
      · cases after
      · exact ⟨hold, after, rfl, rfl, rfl, .inl rfl⟩
  simp only [holding] at held
  unfold Hold.after at held
  split at held
  · rename_i statement reply
    rcases updated statement reply held with
      ⟨old, same, rows, claim, access, further⟩ | ⟨claims, phase, rfl⟩
    · refine .inl ⟨old, same, rows, claim, access, further.imp_right fun finalizes => .inr ?_⟩
      obtain ⟨rows', claim', access', rfl⟩ := finalizes
      exact ⟨rows', claim', access', .inl rfl⟩
    · exact .inr ⟨statement, claims, phase, .inl rfl⟩
  · rename_i statement count
    rcases updated statement (some count) held with
      ⟨old, same, rows, claim, access, further⟩ | ⟨claims, phase, counted⟩
    · refine .inl ⟨old, same, rows, claim, access, further.imp_right fun finalizes => .inr ?_⟩
      obtain ⟨rows', claim', access', rfl⟩ := finalizes
      exact ⟨rows', claim', access', .inr ⟨count, rfl⟩⟩
    · cases counted
      exact .inr ⟨statement, claims, phase, .inr rfl⟩
  · rename_i statement count reply _
    rcases updated statement none held with
      ⟨old, same, rows, claim, access, further⟩ | ⟨-, -, counted⟩
    · refine .inl ⟨old, same, rows, claim, access, further.imp_right fun finalizes => .inr ?_⟩
      obtain ⟨rows', claim', access', rfl⟩ := finalizes
      exact ⟨rows', claim', access', .inr ⟨count, rfl⟩⟩
    · cases counted
  · obtain ⟨old, same, rfl⟩ := Option.map_eq_some_iff.mp held
    exact .inl ⟨old, same, rfl, rfl, rfl, .inr (.inl ⟨_, rfl⟩)⟩
  · exact .inl ⟨hold, held, rfl, rfl, rfl, .inl rfl⟩

/-- Held rows are past `claimed` only after an answered delete of their objects. -/
theorem erased_cons {driver : Driver} {call : Call} {reply : Option call.Answer} {past : Past}
    {hold : Hold} (allows : allowed driver past call)
    (held : holding (⟨call, reply⟩ :: past) = some hold) (phase : hold.phase ≠ .claimed) :
    ∃ old, holding past = some old ∧ old.rows = hold.rows ∧ old.claim = hold.claim ∧
      (old.phase ≠ .claimed ∨ ∃ keys, (⟨call, reply⟩ : Step sig) = ⟨.delete keys, some ()⟩) := by
  rcases holding_cons held with ⟨old, before, rows, claims, -, further⟩ | ⟨-, -, claimed, -⟩
  · refine ⟨old, before, rows, claims, ?_⟩
    rcases further with same | erases | ⟨rows', claim, access, updates | ⟨count, transacts⟩⟩
    · exact .inl (same ▸ phase)
    · exact .inr erases
    · cases updates
      have erased : holding past = some ⟨rows', claim, access, .erased⟩ := allows
      rw [before, Option.some.injEq] at erased
      exact .inl (by simp [erased])
    · cases transacts
      have erased : holding past = some ⟨rows', claim, access, .erased⟩ := allows.1
      rw [before, Option.some.injEq] at erased
      exact .inl (by simp [erased])
  · exact absurd claimed phase

/-! ## The invariant -/

/-- The id of an INSERT that may still land. -/
def insertId : Worker × Call → Option Uuid
  | (_, .save row) => some row.id
  | _ => none

variable {config : Config}

structure Known (core : SystemCore config) : Prop where
  good : core.world.Good
  late : ∀ worker call, (worker, call) ∈ core.deferred → core.world.Late call
  inserts : (core.deferred.filterMap insertId).Nodup
  seen : ∀ worker row, Seen (core.pastOf worker) row →
    ∃ current ∈ core.world.table, row.Later current
  shape : ∀ worker row, Seen (core.pastOf worker) row → row.Sound
  drawn : ∀ worker id, (⟨.randomUUID, some id⟩ : Step sig) ∈ core.pastOf worker →
    core.world.drawnBy id = some worker
  unsaved : ∀ worker id, core.world.drawnBy id = some worker →
    Unsaved (core.pastOf worker) id →
      (∀ row ∈ core.world.table, row.id ≠ id) ∧ id ∉ core.deferred.filterMap insertId
  kept : ∀ worker key, key.space ≠ .pending →
    Wrote (core.pastOf worker) key ∨ Headed (core.pastOf worker) key → core.world.Kept key
  held : ∀ worker past hold, past <:+ core.pastOf worker → holding past = some hold →
    ∀ row ∈ hold.rows, ∃ current ∈ core.world.table, row.Claimed current

theorem known_initial (time : Int) :
    Known (⟨World.initial time, [], []⟩ : SystemCore config) where
  good := ⟨fun _ member => absurd member (Keyed.not_mem_empty _),
    fun _ member => absurd member (Keyed.not_mem_empty _), fun _ _ drawn => (by cases drawn),
    fun _ member => absurd member (Keyed.not_mem_empty _)⟩
  late _ _ member := absurd member List.not_mem_nil
  inserts := List.nodup_nil
  seen _ row seen := absurd seen (not_seen_nil row)
  shape _ row seen := absurd seen (not_seen_nil row)
  drawn _ _ member := absurd member List.not_mem_nil
  unsaved _ _ drawn := by cases drawn
  kept worker key _ shown := by
    rcases shown with ⟨_, member⟩ | ⟨_, member⟩ <;> exact absurd member List.not_mem_nil
  held _ past _ suffix held := by
    cases List.suffix_nil.mp suffix
    cases held

namespace Known

variable {core : SystemCore config} (known : Known core)

include known

theorem tracks {worker : Worker} {row : Row} (seen : Seen (core.pastOf worker) row) :
    core.world.Tracks row := by
  obtain ⟨current, member, later⟩ := known.seen worker row seen
  exact ⟨current, member, later.sameFile, later.isTemporary⟩

theorem keySpace {worker : Worker} {row : Row} (seen : Seen (core.pastOf worker) row) :
    row.key.space ≠ .pending := by
  obtain ⟨current, member, later⟩ := known.seen worker row seen
  rw [← later.sameFile.key]
  exact (known.good.sound current member).keySpace

/-- A statement that the worker was allowed at some moment up to now is rooted. -/
theorem rooted {worker : Worker} {statement : Statement} {past : Past}
    (suffix : past <:+ core.pastOf worker) (allowed : statement.Allowed config.driver past) :
    statement.Rooted core.world := by
  cases statement with
  | activatePendingUpload saved access marker =>
      obtain ⟨seen, server, permanent, -, wrote⟩ := allowed
      have seen : Seen (core.pastOf worker) saved := .inl (seen.mono suffix)
      have final := known.keySpace seen
      exact ⟨server, permanent, known.tracks seen, final,
        known.kept worker _ final (.inl (wrote.mono suffix))⟩
  | activateTemporaryPendingUpload saved access marker completedAt =>
      obtain ⟨seen, server, temporary, -, wrote⟩ := allowed
      have seen : Seen (core.pastOf worker) saved := .inl (seen.mono suffix)
      have final := known.keySpace seen
      exact ⟨server, temporary, known.tracks seen, final,
        known.kept worker _ final (.inl (wrote.mono suffix))⟩
  | claimCompletion row access marker etag =>
      exact ⟨allowed.2.2.1, known.tracks (.inr (allowed.1.mono suffix))⟩
  | finalizeCompletion row access marker completedAt etag checksum drop =>
      obtain ⟨⟨snapshot, _, _, _, read, same, temporary⟩, headed, -⟩ := allowed
      have seen : Seen (core.pastOf worker) snapshot := .inr (read.mono suffix)
      obtain ⟨current, member, later⟩ := known.seen worker snapshot seen
      have final : row.key.space ≠ .pending := by
        rw [same.key]
        exact known.keySpace seen
      refine ⟨⟨current, member, ?_, ?_⟩, final,
        known.kept worker _ final (.inr (headed.mono suffix))⟩
      · exact same.symm.trans later.sameFile
      · rw [later.isTemporary, temporary]
  | claimAbort row access claim => exact allowed.2.1
  | claimExpiredDirectUpload row claim => exact allowed.1
  | _ => trivial

/-- The objects of held rows may be deleted. -/
theorem erasable {worker : Worker} {hold : Hold} (held : holding (core.pastOf worker) = some hold)
    {key : StorageKey} (member : key ∈ objectKeys hold.rows) : core.world.Erasable key := by
  simp only [objectKeys, List.mem_eraseDups, List.mem_flatMap, Row.keys, List.mem_cons,
    Option.mem_toList] at member
  obtain ⟨row, inside, final | staging⟩ := member
  · obtain ⟨current, there, claimed⟩ := known.held worker _ hold (List.suffix_refl _) held row inside
    exact .inr ⟨current, there, claimed.file.key.trans final.symm, claimed.touched⟩
  · obtain ⟨current, there, claimed⟩ := known.held worker _ hold (List.suffix_refl _) held row inside
    exact .inl (claimed.space key staging)

/-- An id that was not drawn yet is not in use. -/
theorem unused_above {id : Uuid} (above : core.world.nextId ≤ id) :
    (∀ row ∈ core.world.table, row.id ≠ id) ∧ id ∉ core.deferred.filterMap insertId := by
  refine ⟨fun row member same => ?_, fun member => ?_⟩
  · exact Nat.not_le_of_lt (known.good.numbered row member) (same ▸ above)
  · obtain ⟨⟨author, left⟩, there, named⟩ := List.mem_filterMap.mp member
    cases left <;> simp only [insertId, Option.some.injEq, reduceCtorEq] at named
    exact Nat.not_le_of_lt (known.late _ _ there).2.1 (named ▸ above)

/-- A call that a disciplined worker asks is fit to land, and so is what may be left of it. -/
theorem late_of_allowed {worker : Worker} {call : Call}
    (allows : allowed config.driver (core.pastOf worker) call) :
    core.world.Late call ∧ ∀ call' ∈ residue call, core.world.Late call' := by
  have itself : core.world.Late call → residue call = [call] ∨ residue call = [] →
      core.world.Late call ∧ ∀ call' ∈ residue call, core.world.Late call' := by
    rintro late (same | none)
    · refine ⟨late, fun call' member => ?_⟩
      rw [same, List.mem_singleton] at member
      exact member ▸ late
    · refine ⟨late, fun call' member => ?_⟩
      rw [none] at member
      cases member
  cases call with
  | save row =>
      obtain ⟨newborn, drawn, unsaved⟩ := allows
      have mine := known.drawn worker row.id drawn
      exact itself ⟨newborn, known.good.drawn _ _ mine,
        (known.unsaved worker row.id mine unsaved).1⟩ (.inl rfl)
  | update statement => exact itself (known.rooted (List.suffix_refl _) allows) (.inl rfl)
  | transact statement count => exact itself (known.rooted (List.suffix_refl _) allows.1) (.inl rfl)
  | unlink key => exact itself allows.1 (.inl rfl)
  | delete keys =>
      obtain ⟨hold, held, -, rfl⟩ := allows
      refine ⟨fun key member => known.erasable held member, fun call' member => ?_⟩
      obtain ⟨key, inside, rfl⟩ := List.mem_map.mp member
      exact known.erasable held inside
  | deleteObject key => exact itself (.inl allows) (.inl rfl)
  | putObject key object => exact itself trivial (.inl rfl)
  | uploadSigned key object => exact itself trivial (.inl rfl)
  | copyObject source destination etag => exact itself trivial (.inl rfl)
  | link source destination => exact itself trivial (.inl rfl)
  | _ => exact itself trivial (.inr rfl)

/-! ## Every admitted act keeps it -/

section Forward

variable {world : World} (forward : core.world.Forward world)

include forward

theorem seen_forward {worker : Worker} {row : Row} (seen : Seen (core.pastOf worker) row) :
    ∃ current ∈ world.table, row.Later current := by
  obtain ⟨old, there, later⟩ := known.seen worker row seen
  obtain ⟨current, member, later'⟩ := forward.later old there
  exact ⟨current, member, later.trans later'⟩

theorem held_forward {worker : Worker} {past : Past} {hold : Hold}
    (suffix : past <:+ core.pastOf worker) (held : holding past = some hold) {row : Row}
    (inside : row ∈ hold.rows) : ∃ current ∈ world.table, row.Claimed current := by
  obtain ⟨old, there, claimed⟩ := known.held worker past hold suffix held row inside
  obtain ⟨current, member, later⟩ := forward.later old there
  exact ⟨current, member, claimed.later later⟩

theorem kept_forward {worker : Worker} {key : StorageKey} (final : key.space ≠ .pending)
    (shown : Wrote (core.pastOf worker) key ∨ Headed (core.pastOf worker) key) :
    world.Kept key :=
  forward.kept key final (known.kept worker key final shown)

theorem late_forward {worker : Worker} {call : Call} (member : (worker, call) ∈ core.deferred)
    (unused : ∀ row, call = .save row → ∀ other ∈ world.table, other.id ≠ row.id) :
    world.Late call :=
  World.Late.mono forward (known.late worker call member) unused

end Forward

end Known

/-- The ids in the table after a call. -/
theorem exec_ids {deployment : Deployment} {world : World} {worker : Worker} {call : Call}
    {row : Row} (member : row ∈ (exec deployment world worker call).2.table) :
    (∃ old ∈ world.table, old.id = row.id) ∨ ∃ saved, call = .save saved ∧ row.id = saved.id := by
  have applied : ∀ statement, row ∈ (world.apply statement).table →
      ∃ old ∈ world.table, old.id = row.id := by
    intro statement there
    obtain ⟨old, present, rfl⟩ := World.mem_apply.mp there
    refine ⟨old, present, ?_⟩
    split <;> simp
  cases call with
  | save saved =>
      rcases Keyed.mem_save.mp member with rfl | ⟨there, -⟩
      · exact .inr ⟨saved, rfl, rfl⟩
      · exact .inl ⟨row, there, rfl⟩
  | update statement => exact .inl (applied statement member)
  | transact statement count =>
      simp only [exec] at member
      split at member
      · exact .inl (applied statement member)
      · exact .inl ⟨row, member, rfl⟩
  | _ =>
      left
      refine ⟨row, ?_, rfl⟩
      simp only [exec] at member
      first
        | exact member
        | (split at member <;> first | exact member | (split at member <;> exact member))

/-- Who drew an id, after a call. -/
theorem exec_drawnBy {deployment : Deployment} {world : World} {worker other : Worker}
    {call : Call} {id : Uuid}
    (drawn : (exec deployment world worker call).2.drawnBy id = some other) :
    world.drawnBy id = some other ∨ (call = .randomUUID ∧ id = world.nextId ∧ other = worker) := by
  cases call with
  | randomUUID =>
      simp only [exec] at drawn
      split at drawn
      · rename_i same
        cases drawn
        exact .inr ⟨rfl, same, rfl⟩
      · exact .inl drawn
  | _ =>
      left
      simp only [exec] at drawn
      first
        | exact drawn
        | (split at drawn <;> first | exact drawn | (split at drawn <;> exact drawn))

namespace Known

variable {core : SystemCore config}

/-- A row seen just now is in the table. -/
theorem seen_new {mode : Mode} {worker other : Worker} {call : Call} {row : Row}
    (seen : Seen ((core.issue mode worker call).pastOf other) row) :
    Seen (core.pastOf other) row ∨ row ∈ (core.worldAfter worker call mode).table := by
  rcases seen with ⟨given, member⟩ | ⟨query, member⟩ | ⟨query, rows, member, inside⟩
  · rcases Core.mem_pastOf_issue member with old | ⟨-, rfl, rfl, rfl⟩
    · exact .inl (.inl ⟨given, old⟩)
    · exact .inr (Keyed.mem_save.mpr (.inl rfl))
  · rcases Core.mem_pastOf_issue member with old | ⟨-, rfl, rfl, found⟩
    · exact .inl (.inr (.inl ⟨query, old⟩))
    · have selected := List.mem_of_mem_head? (Option.mem_def.mpr found.symm)
      exact .inr (Query.mem_of_mem_select selected).1
  · rcases Core.mem_pastOf_issue member with old | ⟨-, rfl, rfl, rfl⟩
    · exact .inl (.inr (.inr ⟨query, rows, old, inside⟩))
    · exact .inr (Query.mem_of_mem_select inside).1

variable (known : Known core)

include known in
/-- A claim granted in full reached every row it names. -/
theorem claimed_of_granted {worker : Worker} {statement : Statement} {rows : List Row} {claim : Int}
    {access : Option Access}
    (admitted : statement.Allowed config.driver (core.pastOf worker))
    (claims : statement.claims = some (rows, claim, access))
    (counted : core.world.affected statement = rows.length) {row : Row} (inside : row ∈ rows) :
    ∃ old ∈ core.world.table, statement.chosen old = true ∧ old.id = row.id ∧
      row.Claimed (statement.patch core.world.timestamp old) := by
  obtain ⟨old, there, chosen, named⟩ := Keyed.chosen_of_count
    (fun other _ chosen => Statement.id_of_claims claims chosen)
    (by rw [List.length_map]; exact counted) (List.mem_map_of_mem (f := Row.id) inside)
  obtain ⟨snapshot, seen, same, staging⟩ := Statement.seen_of_claims admitted claims inside
  obtain ⟨current, present, later⟩ := known.seen worker snapshot seen
  have itself : current = old := by
    refine Keyed.eq_of_key present there ?_
    rw [named, later.sameFile.id, same.id]
  subst itself
  have patched := Statement.patch_sameFile core.world.timestamp statement current
  refine ⟨current, there, chosen, named, (same.trans later.sameFile).trans patched, ?_, ?_, ?_, ?_⟩
  · rw [Row.touched_eq_true, Statement.claimed_of_claims _ claims]
    exact .inr (by simp)
  · intro none
    exact Statement.settled_of_claims _ claims inside none chosen named
  · rcases Statement.staging_patch core.world.timestamp statement current with kept | gone
    · rw [kept, staging]
      exact later.staging
    · exact .inr gone
  · intro key present
    rw [((known.shape worker snapshot seen).staging key (staging ▸ present)).1]

/-- A claim that a step was granted. -/
theorem granted_of_step {mode : Mode} {worker : Worker} {call : Call} {statement : Statement}
    {count : Nat} (allows : allowed config.driver (core.pastOf worker) call)
    (granted : (⟨call, replyIn core.world worker call mode⟩ : Step sig) =
        ⟨.update statement, some count⟩ ∨
      (⟨call, replyIn core.world worker call mode⟩ : Step sig) =
        ⟨.transact statement count, some true⟩) :
    statement.Allowed config.driver (core.pastOf worker) ∧
      core.world.affected statement = count ∧
      core.worldAfter worker call mode = core.world.apply statement := by
  rcases granted with step | step
  · obtain ⟨rfl, rfl, counted⟩ := answered_of_step step.symm
    exact ⟨allows, counted.symm, rfl⟩
  · obtain ⟨rfl, rfl, counted⟩ := answered_of_step step.symm
    have counted : true = (exec config.toDeployment core.world worker
      (.transact statement count)).1 := counted
    have executed : core.worldAfter worker (.transact statement count) .answer =
      (exec config.toDeployment core.world worker (.transact statement count)).2 := rfl
    refine ⟨allows.1, ?_⟩
    rw [executed]
    simp only [exec] at counted ⊢
    split at counted
    · rename_i same
      exact ⟨same, by rw [if_pos same]⟩
    · cases counted

section Issue

variable {worker : Worker} {call : Call} (mode : Mode)
  (allows : allowed config.driver (core.pastOf worker) call)

include known allows

theorem worldAfter_good : (core.worldAfter worker call mode).Good := by
  rcases core.worldAfter_cases worker call mode with ⟨-, same⟩ | ⟨-, executed⟩
  · rw [same]
    exact known.good
  · rw [executed]
    exact exec_good known.good worker (known.late_of_allowed allows).1

theorem worldAfter_forward : core.world.Forward (core.worldAfter worker call mode) := by
  rcases core.worldAfter_cases worker call mode with ⟨-, same⟩ | ⟨-, executed⟩
  · rw [same]
    exact .refl _
  · rw [executed]
    exact exec_forward known.good worker (known.late_of_allowed allows).1

/-- A new id in the table is the id of the row just saved, drawn by this worker. -/
theorem worldAfter_ids {row : Row} (member : row ∈ (core.worldAfter worker call mode).table) :
    (∃ old ∈ core.world.table, old.id = row.id) ∨
      ∃ saved, call = .save saved ∧ row.id = saved.id ∧
        core.world.drawnBy row.id = some worker ∧ Unsaved (core.pastOf worker) row.id := by
  rcases core.worldAfter_cases worker call mode with ⟨-, same⟩ | ⟨-, executed⟩
  · rw [same] at member
    exact .inl ⟨row, member, rfl⟩
  · rw [executed] at member
    rcases exec_ids member with old | ⟨saved, rfl, named⟩
    · exact .inl old
    · rw [named]
      exact .inr ⟨saved, rfl, rfl, known.drawn worker _ allows.2.1, allows.2.2⟩

theorem late_issue {other : Worker} {left : Call}
    (member : (other, left) ∈ core.deferredAfter worker call mode) :
    (core.worldAfter worker call mode).Late left := by
  have old : (other, left) ∈ core.deferred → (core.worldAfter worker call mode).Late left := by
    intro there
    refine known.late_forward (known.worldAfter_forward mode allows) there ?_
    rintro row rfl current present
    rcases known.worldAfter_ids mode allows present with ⟨before, already, same⟩ |
      ⟨saved, -, -, drawn, unsaved⟩
    · rw [← same]
      exact (known.late _ _ there).2.2 before already
    · intro named
      refine (known.unsaved worker current.id drawn unsaved).2 ?_
      exact List.mem_filterMap.mpr ⟨_, there, by simp [insertId, named]⟩
  cases mode with
  | defer =>
      rcases List.mem_append.mp member with new | there
      · obtain ⟨call', inside, same⟩ := List.mem_map.mp new
        cases same
        exact (known.late_of_allowed allows).2 left inside
      · exact old there
  | answer => exact old member
  | refuse => exact old member
  | lose => exact old member

theorem inserts_issue :
    ((core.deferredAfter worker call mode).filterMap insertId).Nodup := by
  cases mode with
  | defer =>
      show (((residue call).map (worker, ·) ++ core.deferred).filterMap insertId).Nodup
      rw [List.filterMap_append]
      cases call with
      | save row =>
          have mine := known.drawn worker row.id allows.2.1
          exact List.nodup_cons.mpr
            ⟨(known.unsaved worker row.id mine allows.2.2).2, known.inserts⟩
      | delete keys =>
          have none : (((residue (.delete keys)).map (worker, ·)).filterMap insertId) = [] := by
            simp [residue, insertId]
          rw [none]
          exact known.inserts
      | _ => exact known.inserts
  | answer => exact known.inserts
  | refuse => exact known.inserts
  | lose => exact known.inserts

theorem drawn_issue {other : Worker} {id : Uuid}
    (member : (⟨.randomUUID, some id⟩ : Step sig) ∈
      (core.issue mode worker call).pastOf other) :
    (core.worldAfter worker call mode).drawnBy id = some other := by
  rcases Core.mem_pastOf_issue member with old | ⟨rfl, rfl, rfl, rfl⟩
  · exact (known.worldAfter_forward mode allows).drawnBy _ _ (known.drawn other id old)
  · exact if_pos rfl

theorem unsaved_issue {other : Worker} {id : Uuid}
    (drawn : (core.worldAfter worker call mode).drawnBy id = some other)
    (unsaved : Unsaved ((core.issue mode worker call).pastOf other) id) :
    (∀ row ∈ (core.worldAfter worker call mode).table, row.id ≠ id) ∧
      id ∉ (core.deferredAfter worker call mode).filterMap insertId := by
  have before : Unsaved (core.pastOf other) id := fun row reply member =>
    unsaved row reply ((core.pastOf_issue_suffix mode worker other call).subset member)
  -- the call is no INSERT of this id: its id was drawn by its own worker
  have apart : ∀ saved, call = .save saved → saved.id ≠ id := by
    rintro saved rfl named
    have mine := known.drawn worker _ allows.2.1
    have mine' := (known.worldAfter_forward mode allows).drawnBy _ _ mine
    rw [named, drawn] at mine'
    cases mine'
    refine unsaved saved (replyIn core.world worker (.save saved) mode) ?_ named
    rw [Core.pastOf_issue_self]
    exact List.mem_cons_self
  -- an id drawn just now is above all ids in use
  have fresh : (∀ row ∈ core.world.table, row.id ≠ id) ∧
      id ∉ core.deferred.filterMap insertId := by
    rcases core.worldAfter_cases worker call mode with ⟨-, same⟩ | ⟨-, executed⟩
    · rw [same] at drawn
      exact known.unsaved other id drawn before
    · rw [executed] at drawn
      rcases exec_drawnBy drawn with old | ⟨-, rfl, -⟩
      · exact known.unsaved other id old before
      · exact known.unused_above (Nat.le_refl _)
  constructor
  · intro row member same
    rcases known.worldAfter_ids mode allows member with ⟨old, there, named⟩ |
      ⟨saved, saving, named, -, -⟩
    · exact fresh.1 old there (named.trans same)
    · exact apart saved saving (named.symm.trans same)
  · cases mode with
    | defer =>
        show id ∉ ((residue call).map (worker, ·) ++ core.deferred).filterMap insertId
        rw [List.filterMap_append, List.mem_append, not_or]
        refine ⟨fun member => ?_, fresh.2⟩
        cases call with
        | save saved =>
            exact apart saved rfl (List.mem_singleton.mp member).symm
        | delete keys => simp [residue, insertId] at member
        | _ => exact absurd member List.not_mem_nil
    | answer => exact fresh.2
    | refuse => exact fresh.2
    | lose => exact fresh.2

theorem kept_issue {other : Worker} {key : StorageKey} (final : key.space ≠ .pending)
    (shown : Wrote ((core.issue mode worker call).pastOf other) key ∨
      Headed ((core.issue mode worker call).pastOf other) key) :
    (core.worldAfter worker call mode).Kept key := by
  have forward := known.worldAfter_forward mode allows
  rcases shown with ⟨object, member⟩ | ⟨metadata, member⟩
  · rcases Core.mem_pastOf_issue member with old | ⟨-, rfl, rfl, wrote⟩
    · exact known.kept_forward forward final (.inl ⟨object, old⟩)
    · left
      show (exec config.toDeployment core.world worker (.putObject key object)).2.objects key ≠ none
      have wrote : true = (exec config.toDeployment core.world worker (.putObject key object)).1 := wrote
      simp only [exec] at wrote ⊢
      split at wrote
      · cases wrote
      · simp [World.setObjects]
  · rcases Core.mem_pastOf_issue member with old | ⟨-, rfl, rfl, found⟩
    · exact known.kept_forward forward final (.inr ⟨metadata, old⟩)
    · left
      intro absent
      have absent : core.world.objects key = none := absent
      have found : some metadata = (exec config.toDeployment core.world worker (.headObject key)).1 := found
      simp [exec, absent] at found

theorem held_issue {other : Worker} {past : Past} {hold : Hold}
    (suffix : past <:+ (core.issue mode worker call).pastOf other)
    (held : holding past = some hold) {row : Row} (inside : row ∈ hold.rows) :
    ∃ current ∈ (core.worldAfter worker call mode).table, row.Claimed current := by
  have forward := known.worldAfter_forward mode allows
  by_cases same : other = worker
  · rw [same, Core.pastOf_issue_self] at suffix
    rcases List.suffix_cons_iff.mp suffix with rfl | old
    · rcases holding_cons held with ⟨old, before, rows, -⟩ | ⟨statement, claims, -, granted⟩
      · exact known.held_forward forward (List.suffix_refl _) before (rows ▸ inside)
      · obtain ⟨admitted, counted, applied⟩ := granted_of_step allows granted
        obtain ⟨old, there, chosen, -, claimed⟩ :=
          known.claimed_of_granted admitted claims counted inside
        rw [applied]
        exact ⟨_, World.mem_apply.mpr ⟨old, there, by rw [if_pos chosen]⟩, claimed⟩
    · exact known.held_forward forward old held inside
  · rw [Core.pastOf_issue_of_ne core mode call same] at suffix
    exact known.held_forward forward suffix held inside

theorem issue : Known (core.issue mode worker call) where
  good := known.worldAfter_good mode allows
  late _ _ := known.late_issue mode allows
  inserts := known.inserts_issue mode allows
  seen _ row seen := by
    rcases seen_new seen with old | here
    · exact known.seen_forward (known.worldAfter_forward mode allows) old
    · exact ⟨row, here, .refl row⟩
  shape other row seen := by
    rcases seen_new seen with old | here
    · exact known.shape other row old
    · exact (known.worldAfter_good mode allows).sound row here
  drawn _ _ := known.drawn_issue mode allows
  unsaved _ _ := known.unsaved_issue mode allows
  kept _ _ := known.kept_issue mode allows
  held _ _ _ suffix held _ := known.held_issue mode allows suffix held

end Issue

include known

/-- What happens outside the workers' programs: the world moves on, calls land. -/
theorem outside {core' : SystemCore config} (forward : core.world.Forward core'.world)
    (good : core'.world.Good) (past : ∀ worker, core'.pastOf worker = core.pastOf worker)
    (late : ∀ worker call, (worker, call) ∈ core'.deferred → core'.world.Late call)
    (inserts : (core'.deferred.filterMap insertId).Nodup)
    (unsaved : ∀ worker id, core'.world.drawnBy id = some worker →
      Unsaved (core.pastOf worker) id →
        (∀ row ∈ core'.world.table, row.id ≠ id) ∧ id ∉ core'.deferred.filterMap insertId) :
    Known core' where
  good := good
  late := late
  inserts := inserts
  seen worker _ seen := known.seen_forward forward (past worker ▸ seen)
  shape worker row seen := known.shape worker row (past worker ▸ seen)
  drawn worker id member :=
    forward.drawnBy id worker (known.drawn worker id (past worker ▸ member))
  unsaved worker id drawn free := unsaved worker id drawn (past worker ▸ free)
  kept worker _ final shown := known.kept_forward forward final (past worker ▸ shown)
  held worker _ _ suffix held _ inside :=
    known.held_forward forward (past worker ▸ suffix) held inside

theorem land {worker : Worker} {call : Call} {index : Nat}
    (found : core.deferred[index]? = some (worker, call)) :
    Known (core.land worker call (core.deferred.eraseIdx index)) := by
  have member := List.mem_of_getElem? found
  have late := known.late worker call member
  have forward : core.world.Forward (exec config.toDeployment core.world worker call).2 :=
    exec_forward known.good worker late
  have fewer := List.eraseIdx_sublist core.deferred index
  -- the ids still to be inserted are not the id just inserted
  have apart : ∀ row, call = .save row →
      row.id ∉ (core.deferred.eraseIdx index).filterMap insertId := by
    rintro row rfl
    obtain ⟨bounded, same⟩ := List.getElem?_eq_some_iff.mp found
    have perm := (List.getElem_cons_eraseIdx_perm bounded).filterMap insertId
    rw [same] at perm
    exact (List.nodup_cons.mp (perm.nodup_iff.mpr known.inserts)).1
  refine known.outside forward (exec_good known.good worker late) (by simp) ?_
    (known.inserts.sublist (fewer.filterMap insertId)) ?_
  · intro other left there
    refine known.late_forward forward (fewer.subset there) ?_
    rintro row rfl current present
    rcases exec_ids present with ⟨old, already, same⟩ | ⟨saved, rfl, named⟩
    · rw [← same]
      exact (known.late _ _ (fewer.subset there)).2.2 old already
    · intro same
      refine apart saved rfl (List.mem_filterMap.mpr ⟨_, there, ?_⟩)
      simp [insertId, ← named, same]
  · intro other id drawn unsaved
    obtain ⟨absent, free⟩ : (∀ row ∈ core.world.table, row.id ≠ id) ∧
        id ∉ core.deferred.filterMap insertId := by
      rcases exec_drawnBy drawn with old | ⟨-, rfl, -⟩
      · exact known.unsaved other id old unsaved
      · exact known.unused_above (Nat.le_refl _)
    refine ⟨fun current present same => ?_, fun inside =>
      free ((fewer.filterMap insertId).subset inside)⟩
    rcases exec_ids present with ⟨old, already, named⟩ | ⟨saved, rfl, named⟩
    · exact absent old already (named.trans same)
    · refine free (List.mem_filterMap.mpr ⟨_, member, ?_⟩)
      simp [insertId, ← named, same]

/-- What the environment can change. -/
theorem move_cases {m : (system config).Move} {world : (system config).World}
    (moved : (system config).move core.world m = some world) :
    core.world.Forward world ∧ world.Good ∧ world.table = core.world.table ∧
      world.drawnBy = core.world.drawnBy ∧ world.issued = core.world.issued := by
  cases m with
  | advance ms =>
      cases moved
      refine ⟨⟨fun row member => ⟨row, member, .refl row⟩, fun _ _ kept => kept,
        Nat.le_refl _, fun _ _ drawn => drawn, fun host => ?_, fun _ member => member⟩,
        ⟨known.good.sound, known.good.numbered, known.good.drawn, known.good.backed⟩, rfl, rfl, rfl⟩
      show core.world.clock host ≤ core.world.clock host + ms
      omega
  | drift host ms =>
      cases moved
      refine ⟨⟨fun row member => ⟨row, member, .refl row⟩, fun _ _ kept => kept,
        Nat.le_refl _, fun _ _ drawn => drawn, fun other => ?_, fun _ member => member⟩,
        ⟨known.good.sound, known.good.numbered, known.good.drawn, known.good.backed⟩, rfl, rfl, rfl⟩
      show core.world.clock other ≤
        if other = host then core.world.clock other + ms else core.world.clock other
      split <;> omega
  | clientPut key object =>
      simp only [system, machine, move] at moved
      split at moved
      · cases moved
        exact ⟨World.objects_forward (World.shrinks_put key object),
          World.objects_good known.good (World.shrinks_put key object), rfl, rfl, rfl⟩
      · cases moved

theorem moved {m : (system config).Move} {world : (system config).World}
    (moved : (system config).move core.world m = some world) :
    Known (core.move m world) := by
  obtain ⟨forward, good, table, drawnBy, -⟩ := known.move_cases moved
  refine known.outside forward good (by simp) ?_ known.inserts ?_
  · intro worker call member
    refine known.late_forward forward member ?_
    rintro row rfl
    rw [table]
    exact (known.late _ _ member).2.2
  · intro worker id drawn unsaved
    show (∀ row ∈ world.table, row.id ≠ id) ∧ id ∉ core.deferred.filterMap insertId
    rw [table]
    exact known.unsaved worker id (drawnBy ▸ drawn) unsaved

end Known

/-- Every admitted act moves the world forward. -/
theorem Known.forward {core core' : SystemCore config} {act : Act (system config)}
    {ok : SystemCore config → Act (system config) → Prop} (known : Known core)
    (admitted : Core.Admits (discipline config.toDeployment) ok core act core') :
    core.world.Forward core'.world := by
  cases admitted with
  | issue allows alive enabled met => exact known.worldAfter_forward _ allows
  | land found met => exact exec_forward known.good _ (known.late _ _ (List.mem_of_getElem? found))
  | crash met => exact .refl _
  | move moved met => exact (known.move_cases moved).1

/-- What the database and the store answer in a good world can be met. -/
theorem credible_reply {world : World} (good : world.Good) {mode : Mode} {worker : Worker}
    {call : Call} (enabled : mode = .answer ∨ sure call = false) :
    credible config.keyText
      ⟨call, replyIn (M := system config) world worker call mode⟩ := by
  cases mode with
  | answer =>
      cases call with
      | findOne query =>
          show credible config.keyText
            ⟨.findOne query, some (query.select config.keyText world.table.rows).head?⟩
          cases found : (query.select config.keyText world.table.rows).head? with
          | none => trivial
          | some row =>
              have selected := List.mem_of_mem_head? (Option.mem_def.mpr found)
              obtain ⟨member, chosen⟩ := Query.mem_of_mem_select selected
              exact ⟨chosen, good.sound row member⟩
      | find query =>
          refine ⟨Query.select_distinct world.table.distinct, fun row selected => ?_⟩
          obtain ⟨member, chosen⟩ := Query.mem_of_mem_select selected
          exact ⟨chosen, good.sound row member⟩
      | save row => exact ⟨_, rfl⟩
      | _ => trivial
  | refuse | lose | defer =>
      cases call <;> first | trivial | (rcases enabled with wrong | wrong <;> cases wrong)

/-- Every admitted act keeps the invariant, under any run condition. -/
theorem known_keeps (config : Config) :
    Keeps (discipline config.toDeployment) (fun _ _ => True) (@Known config) where
  admits known admitted := by
    cases admitted with
    | issue allows alive enabled met => exact known.issue _ allows
    | land found met => exact known.land found
    | crash met =>
        exact known.outside (.refl _) known.good (by simp) known.late known.inserts
          known.unsaved
    | move moved met => exact known.moved moved
  credible known _ enabled := credible_reply known.good enabled

/-- The invariant holds in every reachable state. -/
theorem known_of_reachable {time : Int} {state : SystemConfig config}
    (reached : Reachable config time state) : Known state.core :=
  (Reach.keeps (known_keeps config) (launch_follows config) (known_initial time) reached).inv

end SdcoreNest.UploadedFile
