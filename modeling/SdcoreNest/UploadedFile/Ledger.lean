/-
# UploadedFile.Ledger -- when a deadline can serve as a fencing token

The deletion claim of a row is a deadline.  A `Ledger` is what matters about one row: the
time, its markers, and which worker holds which claim on it.  A claim may be written over
once its deadline has passed, and three formulas produce the next value: a new claim, a
retry some time ahead, and a retry at once just below the old value.  `Ledger.Safe` is
the invariant that keeps every claim still held apart from all values written later: the
claims of others lie below the current marker, or one above it after a retry at once,
which happens only once.
-/
import SdcoreNest.Theory.Interleaving
import Mathlib.Tactic.Common

namespace SdcoreNest.UploadedFile

open SdcoreNest.Theory

set_option autoImplicit false

structure Ledger where
  now : Int
  pending : Bool
  marker : Option Int
  deleted : Option Int
  held : Worker → Option Int

namespace Ledger

/-- How a claim that is no longer in place lies to the marker. -/
def Behind (pending : Bool) (claim marker : Int) : Prop :=
  (claim < marker ∧ (pending = true → claim + 1 < marker)) ∨
    (marker + 1 = claim ∧ pending = false)

theorem Behind.ne {pending : Bool} {claim marker : Int} (behind : Behind pending claim marker) :
    marker ≠ claim := by
  rcases behind with ⟨below, -⟩ | ⟨above, -⟩ <;> omega

structure Safe (ledger : Ledger) : Prop where
  live : ∀ {worker claim}, ledger.held worker = some claim → ledger.now ≤ claim →
    ledger.marker = some claim
  passed : ∀ {worker claim marker}, ledger.held worker = some claim →
    ledger.marker = some marker → marker ≠ claim → Behind ledger.pending claim marker
  reopened : ∀ {worker claim moment}, ledger.held worker = some claim →
    ledger.deleted = some moment → ledger.marker ≠ some claim → claim < moment
  unique : ∀ {worker other claim}, ledger.held worker = some claim →
    ledger.held other = some claim → worker = other
  elapsed : ∀ {moment}, ledger.deleted = some moment → moment ≤ ledger.now
  finalized : ledger.deleted ≠ none → ledger.marker = none → ledger.pending = false

variable {ledger ledger' : Ledger}

/-- A claim that is not in place has run out. -/
theorem Safe.stale (safe : ledger.Safe) {worker : Worker} {claim : Int}
    (held : ledger.held worker = some claim) (gone : ledger.marker ≠ some claim) :
    claim < ledger.now := by
  by_contra running
  exact gone (safe.live held (by omega))

/-- The claims of others have run out while one claim is in place. -/
theorem Safe.stale_of_other (safe : ledger.Safe) {worker other : Worker} {claim claim' : Int}
    (held : ledger.held worker = some claim) (marked : ledger.marker = some claim)
    (held' : ledger.held other = some claim') (different : other ≠ worker) :
    claim' < ledger.now ∧ ledger.marker ≠ some claim' := by
  have gone : ledger.marker ≠ some claim' := by
    rw [marked]
    intro same
    cases same
    exact different (safe.unique held' held)
  exact ⟨safe.stale held' gone, gone⟩

/-- Time passes and workers let go. -/
theorem Safe.mono (safe : ledger.Safe) (now : ledger.now ≤ ledger'.now)
    (pending : ledger'.pending = ledger.pending) (marker : ledger'.marker = ledger.marker)
    (deleted : ledger'.deleted = ledger.deleted)
    (held : ∀ {worker claim}, ledger'.held worker = some claim → ledger.held worker = some claim) :
    ledger'.Safe where
  live held' running := by
    rw [marker]
    exact safe.live (held held') (Int.le_trans now running)
  passed held' marked different := by
    rw [pending]
    exact safe.passed (held held') (marker ▸ marked) different
  reopened held' closed gone := safe.reopened (held held') (deleted ▸ closed) (marker ▸ gone)
  unique first second := safe.unique (held first) (held second)
  elapsed closed := Int.le_trans (safe.elapsed (deleted ▸ closed)) now
  finalized closed unmarked := by
    rw [pending]
    exact safe.finalized (deleted ▸ closed) (marker ▸ unmarked)

/-- Nobody holds a claim and the row is not deleted. -/
theorem Safe.of_unheld (unheld : ∀ worker, ledger.held worker = none)
    (deleted : ledger.deleted = none) : ledger.Safe where
  live held := absurd held (by simp [unheld])
  passed held := absurd held (by simp [unheld])
  reopened held := absurd held (by simp [unheld])
  unique held := absurd held (by simp [unheld])
  elapsed closed := absurd closed (by simp [deleted])
  finalized closed := absurd deleted closed

/-- A new marker, of which everybody else's claim is behind. -/
theorem Safe.write (safe : ledger.Safe) (author : Worker) (value : Int)
    (now : ledger'.now = ledger.now) (marker : ledger'.marker = some value)
    (deleted : ∀ {moment}, ledger'.deleted = some moment → ledger.deleted = some moment)
    (held : ∀ {worker claim}, ledger'.held worker = some claim →
      (worker = author ∧ claim = value) ∨
        (ledger.held worker = some claim ∧ claim < ledger.now ∧
          Behind ledger'.pending claim value ∧
          ∀ {moment}, ledger'.deleted = some moment → claim < moment)) :
    ledger'.Safe where
  live held' running := by
    rcases held held' with ⟨-, rfl⟩ | ⟨-, ended, -, -⟩
    · exact marker
    · omega
  passed held' marked different := by
    rw [marker, Option.some.injEq] at marked
    subst marked
    rcases held held' with ⟨-, rfl⟩ | ⟨-, -, behind, -⟩
    · exact absurd rfl different
    · exact behind
  reopened held' closed gone := by
    rcases held held' with ⟨-, rfl⟩ | ⟨-, -, -, before⟩
    · exact absurd marker gone
    · exact before closed
  unique first second := by
    rcases held first with ⟨rfl, rfl⟩ | ⟨old, -, behind, -⟩ <;>
      rcases held second with ⟨rfl, same⟩ | ⟨old', -, behind', -⟩
    · rfl
    · exact absurd rfl behind'.ne
    · exact absurd same.symm behind.ne
    · exact safe.unique old old'
  elapsed closed := by
    rw [now]
    exact safe.elapsed (deleted closed)
  finalized _ unmarked := by
    rw [marker] at unmarked
    cases unmarked

/-- The row is marked deleted while a claim is in place. -/
theorem Safe.finalize (safe : ledger.Safe) {claim : Int} (marked : ledger.marker = some claim)
    (now : ledger'.now = ledger.now) (pending : ledger'.pending = ledger.pending)
    (marker : ledger'.marker = ledger.marker) (deleted : ledger'.deleted = some ledger.now)
    (held : ∀ {worker claim}, ledger'.held worker = some claim → ledger.held worker = some claim) :
    ledger'.Safe where
  live held' running := by
    rw [marker]
    exact safe.live (held held') (now ▸ running)
  passed held' there different := by
    rw [pending]
    exact safe.passed (held held') (marker ▸ there) different
  reopened held' closed gone := by
    rw [deleted, Option.some.injEq] at closed
    subst closed
    exact safe.stale (held held') (marker ▸ gone)
  unique first second := safe.unique (held first) (held second)
  elapsed closed := by
    rw [deleted, Option.some.injEq] at closed
    omega
  finalized _ unmarked := by
    rw [marker, marked] at unmarked
    cases unmarked

/-- The holder of the claim in place clears it. -/
theorem Safe.clear (safe : ledger.Safe) {author : Worker} {claim : Int}
    (owner : ledger.held author = some claim) (marked : ledger.marker = some claim)
    (now : ledger'.now = ledger.now) (pending : ledger'.pending = false)
    (marker : ledger'.marker = none) (deleted : ledger'.deleted = ledger.deleted)
    (held : ∀ {worker claim}, ledger'.held worker = some claim →
      ledger.held worker = some claim ∧ worker ≠ author) :
    ledger'.Safe where
  live held' running := by
    obtain ⟨old, different⟩ := held held'
    have := (safe.stale_of_other owner marked old different).1
    omega
  passed _ there := by
    rw [marker] at there
    cases there
  reopened held' closed _ := by
    obtain ⟨old, different⟩ := held held'
    exact safe.reopened old (deleted ▸ closed) (safe.stale_of_other owner marked old different).2
  unique first second := safe.unique (held first).1 (held second).1
  elapsed closed := by
    rw [now]
    exact safe.elapsed (deleted ▸ closed)
  finalized _ _ := pending

/-- A value drawn above the marker and the present time is above every claim. -/
theorem Safe.below (safe : ledger.Safe) {worker : Worker} {claim marker value : Int}
    (held : ledger.held worker = some claim) (marked : ledger.marker = some marker)
    (above : marker < value) (ahead : ledger.now < value) : claim < value := by
  by_cases same : marker = claim
  · omega
  · rcases safe.passed held marked same with ⟨below, -⟩ | ⟨-, -⟩
    · omega
    · have := safe.stale held (by rw [marked]; simpa using same)
      omega

end Ledger

end SdcoreNest.UploadedFile
