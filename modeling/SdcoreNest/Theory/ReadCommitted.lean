/-
# Theory.ReadCommitted -- transactions that lock one row at a time

A `Store` is the committed table together with the transactions that are inside an
UPDATE.  An UPDATE visits rows one by one, in any order and with other transactions in
between: it evaluates its whole criteria on the committed version of the row, and a row
that matches is locked until the transaction ends.  The transaction commits if the UPDATE
matched as many rows as it had to, and is rolled back otherwise; until then nobody sees
what it wrote.

`commit_whole` is what a counted UPDATE amounts to: when it commits, it changes the
committed table as one atomic UPDATE at that moment would.
-/
import SdcoreNest.Theory.Keyed

namespace SdcoreNest.Theory

set_option autoImplicit false

/-- An UPDATE with the number of rows it has to match. -/
structure Counted (V : Type) where
  chosen : V → Bool
  patch : V → V
  expected : Nat

/-- A transaction inside an UPDATE: the rows matched so far, each in the version that matched. -/
structure Session (V : Type) where
  update : Counted V
  found : List V

structure Store (K V : Type) (key : V → K) where
  table : Keyed K V key
  sessions : Nat → Option (Session V)

namespace Store

variable {K V : Type} {key : V → K}

/-- No transaction has locked the row with the key. -/
def Free (store : Store K V key) (k : K) : Prop :=
  ∀ number session, store.sessions number = some session → ∀ row ∈ session.found, key row ≠ k

def setSession (store : Store K V key) (number : Nat) (session : Option (Session V)) :
    Store K V key :=
  { store with sessions := fun other => if other = number then session else store.sessions other }

@[simp] theorem setSession_table (store : Store K V key) (number : Nat)
    (session : Option (Session V)) : (store.setSession number session).table = store.table := rfl

@[simp] theorem setSession_self (store : Store K V key) (number : Nat)
    (session : Option (Session V)) : (store.setSession number session).sessions number = session :=
  if_pos rfl

theorem setSession_of_ne (store : Store K V key) {number other : Nat}
    (session : Option (Session V)) (different : other ≠ number) :
    (store.setSession number session).sessions other = store.sessions other :=
  if_neg different

/-- What the transactions under way rely on: the rows they matched are locked. -/
structure Sound (store : Store K V key) : Prop where
  matched : ∀ number session, store.sessions number = some session → ∀ row ∈ session.found,
    row ∈ store.table ∧ session.update.chosen row = true
  distinct : ∀ number session, store.sessions number = some session →
    (session.found.map key).Nodup
  apart : ∀ number number' session session', number ≠ number' →
    store.sessions number = some session → store.sessions number' = some session' →
    ∀ row ∈ session.found, ∀ row' ∈ session'.found, key row ≠ key row'

/-- A table nobody is changing. -/
def idle (table : Keyed K V key) : Store K V key := ⟨table, fun _ => none⟩

theorem idle_sound (table : Keyed K V key) : (idle table).Sound where
  matched _ _ opened := by cases opened
  distinct _ _ opened := by cases opened
  apart _ _ _ _ _ opened := by cases opened

/-- Changing one session is sound if its rows are matched, distinct and locked by no other. -/
theorem Sound.setSession {store : Store K V key} (sound : store.Sound) {number : Nat}
    {session : Option (Session V)}
    (matched : ∀ s, session = some s → ∀ row ∈ s.found,
      row ∈ store.table ∧ s.update.chosen row = true)
    (distinct : ∀ s, session = some s → (s.found.map key).Nodup)
    (apart : ∀ s, session = some s → ∀ other s', other ≠ number →
      store.sessions other = some s' → ∀ row ∈ s.found, ∀ row' ∈ s'.found, key row ≠ key row') :
    (store.setSession number session).Sound where
  matched other s opened := by
    by_cases same : other = number
    · rw [same, setSession_self] at opened
      exact matched s opened
    · rw [setSession_of_ne _ _ same] at opened
      exact sound.matched other s opened
  distinct other s opened := by
    by_cases same : other = number
    · rw [same, setSession_self] at opened
      exact distinct s opened
    · rw [setSession_of_ne _ _ same] at opened
      exact sound.distinct other s opened
  apart first second s s' different opened opened' := by
    by_cases same : first = number
    · have other : second ≠ number := fun equal => different (same.trans equal.symm)
      rw [same, setSession_self] at opened
      rw [setSession_of_ne _ _ other] at opened'
      exact apart s opened second s' other opened'
    · rw [setSession_of_ne _ _ same] at opened
      by_cases same' : second = number
      · rw [same', setSession_self] at opened'
        intro row inside row' inside'
        exact (apart s' opened' first s same opened row' inside' row inside).symm
      · rw [setSession_of_ne _ _ same'] at opened'
        exact sound.apart first second s s' different opened opened'

/-! ## The steps of a transaction -/

/-- Begin an UPDATE. -/
def open_ (store : Store K V key) (number : Nat) (update : Counted V) : Store K V key :=
  store.setSession number (some ⟨update, []⟩)

/-- Match one more row and lock it. -/
def lock (store : Store K V key) (number : Nat) (session : Session V) (row : V) : Store K V key :=
  store.setSession number (some { session with found := row :: session.found })

/-- Give up; nothing was visible. -/
def rollback (store : Store K V key) (number : Nat) : Store K V key :=
  store.setSession number none

set_option linter.unusedSectionVars false

variable [DecidableEq K]

/-- The rows a session has locked. -/
def holds (key : V → K) (session : Session V) (row : V) : Bool :=
  decide (key row ∈ session.found.map key)

/-- Install what the transaction wrote and release its locks. -/
def commit (store : Store K V key) (number : Nat) (session : Session V)
    (keeps : ∀ row, key (session.update.patch row) = key row) : Store K V key :=
  { store.rollback number with
    table := store.table.update (holds key session) session.update.patch keeps }

/-- An UPDATE of its own, at one moment; the rows it matches are locked by nobody. -/
def write (store : Store K V key) (chosen : V → Bool) (patch : V → V)
    (keeps : ∀ row, key (patch row) = key row) : Store K V key :=
  { store with table := store.table.update chosen patch keeps }

def insert (store : Store K V key) (row : V) : Store K V key :=
  { store with table := store.table.save row }

variable {store : Store K V key} {number : Nat}

theorem open_sound (sound : store.Sound) (update : Counted V) :
    (store.open_ number update).Sound := by
  refine sound.setSession ?_ ?_ ?_
  · rintro _ ⟨⟩ row inside
    exact absurd inside List.not_mem_nil
  · rintro _ ⟨⟩
    exact List.nodup_nil
  · rintro _ ⟨⟩ other s' - - row inside
    exact absurd inside List.not_mem_nil

theorem idle_free (table : Keyed K V key) (k : K) : (idle table).Free k := by
  intro other session opened
  cases opened

theorem open_free {k : K} (update : Counted V) (free : store.Free k) :
    (store.open_ number update).Free k := by
  intro other session opened row inside
  by_cases same : other = number
  · rw [same, open_, setSession_self] at opened
    cases opened
    exact absurd inside List.not_mem_nil
  · rw [open_, setSession_of_ne _ _ same] at opened
    exact free other session opened row inside

theorem lock_sound (sound : store.Sound) {session : Session V}
    (opened : store.sessions number = some session) {row : V} (member : row ∈ store.table)
    (chosen : session.update.chosen row = true) (free : store.Free (key row)) :
    (store.lock number session row).Sound := by
  refine sound.setSession ?_ ?_ ?_
  · rintro _ ⟨⟩ row' inside
    rcases List.mem_cons.mp inside with rfl | old
    · exact ⟨member, chosen⟩
    · exact sound.matched number session opened row' old
  · rintro _ ⟨⟩
    refine List.nodup_cons.mpr ⟨fun taken => ?_, sound.distinct number session opened⟩
    obtain ⟨row', inside, same⟩ := List.mem_map.mp taken
    exact free number session opened row' inside same
  · rintro _ ⟨⟩ other s' different opened' row' inside row'' inside'
    rcases List.mem_cons.mp inside with rfl | old
    · exact (free other s' opened' row'' inside').symm
    · exact sound.apart number other session s' different.symm opened opened' row' old row'' inside'

theorem rollback_sound (sound : store.Sound) : (store.rollback number).Sound := by
  refine sound.setSession ?_ ?_ ?_
  · rintro _ ⟨⟩
  · rintro _ ⟨⟩
  · rintro _ ⟨⟩

/-- An UPDATE that passes over every locked row leaves the transactions under way sound. -/
theorem write_sound (sound : store.Sound) {chosen : V → Bool} {patch : V → V}
    (keeps : ∀ row, key (patch row) = key row)
    (free : ∀ row ∈ store.table, chosen row = true → store.Free (key row)) :
    (store.write chosen patch keeps).Sound where
  matched other s opened row inside := by
    obtain ⟨there, matched⟩ := sound.matched other s opened row inside
    refine ⟨(Keyed.mem_update keeps).mpr ⟨row, there, ?_⟩, matched⟩
    by_cases hit : chosen row = true
    · exact absurd rfl (free row there hit other s opened row inside)
    · rw [if_neg hit]
  distinct := sound.distinct
  apart := sound.apart

theorem insert_sound (sound : store.Sound) {row : V}
    (absent : ∀ other ∈ store.table, key other ≠ key row) : (store.insert row).Sound where
  matched other s opened row' inside := by
    obtain ⟨there, matched⟩ := sound.matched other s opened row' inside
    exact ⟨Keyed.mem_save.mpr (.inr ⟨there, absent row' there⟩), matched⟩
  distinct := sound.distinct
  apart := sound.apart

/-- The rows a session locked are the rows with their keys. -/
theorem holds_iff (sound : store.Sound) {session : Session V}
    (opened : store.sessions number = some session) {row : V} (member : row ∈ store.table) :
    holds key session row = true ↔ row ∈ session.found := by
  unfold holds
  rw [decide_eq_true_eq, List.mem_map]
  constructor
  · rintro ⟨found, inside, same⟩
    have there := (sound.matched number session opened found inside).1
    exact Keyed.eq_of_key there member same ▸ inside
  · intro inside
    exact ⟨row, inside, rfl⟩

theorem commit_sound (sound : store.Sound) {session : Session V}
    (opened : store.sessions number = some session)
    (keeps : ∀ row, key (session.update.patch row) = key row) :
    (store.commit number session keeps).Sound := by
  refine write_sound (rollback_sound sound) keeps ?_
  intro row member held other s opened' row' inside
  by_cases same : other = number
  · rw [same] at opened'
    rw [rollback, setSession_self] at opened'
    cases opened'
  · rw [rollback, setSession_of_ne _ _ same] at opened'
    have mine := (holds_iff sound opened member).mp held
    exact (sound.apart number other session s (Ne.symm same) opened opened' row mine row' inside).symm

/-! ## A counted UPDATE is atomic -/

/-- A session that matched as many rows as it has keys to match has matched each of them. -/
theorem found_of_counted (sound : store.Sound) {session : Session V}
    (opened : store.sessions number = some session) {keys : List K}
    (inside : ∀ row, session.update.chosen row = true → key row ∈ keys)
    (counted : session.found.length = keys.length) {k : K} (member : k ∈ keys) :
    ∃ row ∈ session.found, key row = k := by
  refine Keyed.exists_of_counted (sound.distinct number session opened) ?_ counted member
  intro row found
  exact inside row (sound.matched number session opened row found).2

/-- A transaction whose UPDATE matched all it had to changes the committed table like one
UPDATE at the moment of the commit. -/
theorem commit_whole (sound : store.Sound) {session : Session V}
    (opened : store.sessions number = some session) {keys : List K}
    (inside : ∀ row, session.update.chosen row = true → key row ∈ keys)
    (counted : session.found.length = keys.length)
    (keeps : ∀ row, key (session.update.patch row) = key row) :
    (store.commit number session keeps).table =
      store.table.update session.update.chosen session.update.patch keeps := by
  have agree : ∀ row ∈ store.table.rows,
      holds key session row = session.update.chosen row := by
    intro row member
    rw [Bool.eq_iff_iff, holds_iff sound opened member]
    constructor
    · intro found
      exact (sound.matched number session opened row found).2
    · intro chosen
      obtain ⟨other, found, same⟩ := found_of_counted sound opened inside counted
        (inside row chosen)
      have there := (sound.matched number session opened other found).1
      exact Keyed.eq_of_key there member same ▸ found
  simp only [commit, Keyed.update, Keyed.mk.injEq]
  exact List.map_congr_left fun row member => by rw [agree row member]

end Store

end SdcoreNest.Theory
