/-
# Cache.MemoryBackend -- the in-process cache, against a list ordered by last touch

`MemoryCacheBackend` of `memory-cache.backend.ts`.  The store is one insertion-ordered map;
recency lives in its order, which `get` and `set` keep by deleting a key before setting it.
The reference `Recent` keeps the list of entries ordered by last touch (`Theory.Recency`).
-/
import SdcoreNest.Theory.JsNumber
import SdcoreNest.Theory.Keyed
import SdcoreNest.Theory.Recency

namespace SdcoreNest.Cache

set_option autoImplicit false

open Theory

/-- `CacheEntry`. -/
structure CacheEntry (V : Type) where
  value : V
  expiresAt : JsNumber

section Backend

variable {K V : Type} [DecidableEq K]

/-! ## The map -/

/-- A `Map` of entries: its rows stand in insertion order, and setting a key it has keeps the
key's place. -/
abbrev Store (K V : Type) := Keyed K (K × CacheEntry V) Prod.fst

namespace Store

def delete (store : Store K V) (key : K) : Store K V := store.discard fun row => row.1 = key

def size (store : Store K V) : Nat := store.rows.length

/-- `keys().next().value`. -/
def oldest (store : Store K V) : Option K := store.rows.head?.map Prod.fst

theorem rows_delete (store : Store K V) (key : K) :
    (store.delete key).rows = Recency.without key store.rows := by
  rw [Recency.without]
  exact List.filter_congr fun row _ => decide_not.symm

/-- A key deleted and set again is the last. -/
theorem rows_delete_save (store : Store K V) (key : K) (entry : CacheEntry V) :
    ((store.delete key).save (key, entry)).rows = Recency.touch key entry store.rows := by
  have absent : ∀ row ∈ (store.delete key).rows, row.1 ≠ key := by
    intro row inside
    rw [rows_delete] at inside
    exact of_decide_eq_true (List.mem_filter.mp inside).2
  unfold Keyed.save
  rw [dif_pos absent, Recency.touch, ← rows_delete]

theorem delete_oldest {store : Store K V} {key : K} (first : store.oldest = some key) :
    (store.delete key).rows = store.rows.tail := by
  rw [rows_delete]
  have distinct := store.distinct
  rw [oldest] at first
  cases rows : store.rows with
  | nil => rw [rows] at first; cases first
  | cons row rest =>
      rw [rows] at first distinct
      obtain rfl : row.1 = key := Option.some.inj first
      rw [Recency.without, List.filter_cons_of_neg (by simp), List.tail_cons, List.filter_eq_self]
      intro other inside
      refine decide_eq_true fun same => (List.nodup_cons.mp distinct).1 ?_
      exact List.mem_map.mpr ⟨other, inside, same⟩

theorem size_delete_oldest {store : Store K V} {key : K} (first : store.oldest = some key) :
    (store.delete key).size < store.size := by
  rw [size, size, delete_oldest first]
  rw [oldest] at first
  cases rows : store.rows with
  | nil => rw [rows] at first; cases first
  | cons row rest => exact Nat.lt_succ_self _

end Store

/-! ## `MemoryCacheBackend` -/

structure MemoryCacheBackend (K V : Type) where
  store : Store K V
  maxEntries : JsNumber
  defaultTtlSec : JsNumber

/-- `Date.now()`: the milliseconds since the epoch. -/
abbrev Clock := Nat

def Clock.now (clock : Clock) : JsNumber := .finite clock

namespace MemoryCacheBackend

def new (maxEntries defaultTtlSec : JsNumber) : MemoryCacheBackend K V :=
  ⟨Keyed.empty, maxEntries, defaultTtlSec⟩

def get (backend : MemoryCacheBackend K V) (clock : Clock) (key : K) :
    Option V × MemoryCacheBackend K V :=
  match backend.store.get? key with
  | none => (none, backend)
  | some (_, entry) =>
      if JsNumber.lt (.finite 0) entry.expiresAt && JsNumber.lt entry.expiresAt clock.now then
        (none, { backend with store := backend.store.delete key })
      else
        -- LRU touch: deleted and set again, the key moves to the end of the iteration order
        (some entry.value, { backend with store := (backend.store.delete key).save (key, entry) })

/-- The loop of `set`: while the store is larger than `maxEntries`, delete its oldest key. -/
def shrink (maxEntries : JsNumber) (store : Store K V) : Store K V :=
  if JsNumber.lt maxEntries (.finite store.size) then
    match _ : store.oldest with
    | none => store
    | some oldest => shrink maxEntries (store.delete oldest)
  else store
termination_by store.size
decreasing_by exact Store.size_delete_oldest ‹_›

def expiresAt (clock : Clock) (ttl : JsNumber) : JsNumber :=
  if JsNumber.lt (.finite 0) ttl then JsNumber.add clock.now (JsNumber.mul ttl (.finite 1000))
  else .finite 0

def set (backend : MemoryCacheBackend K V) (clock : Clock) (key : K) (value : V)
    (ttlSec : Option JsNumber) : MemoryCacheBackend K V :=
  let ttl := ttlSec.getD backend.defaultTtlSec
  let store := (backend.store.delete key).save (key, ⟨value, expiresAt clock ttl⟩)
  { backend with store := shrink backend.maxEntries store }

def del (backend : MemoryCacheBackend K V) (key : K) : MemoryCacheBackend K V :=
  { backend with store := backend.store.delete key }

def clear (backend : MemoryCacheBackend K V) : MemoryCacheBackend K V :=
  { backend with store := Keyed.empty }

def size (backend : MemoryCacheBackend K V) : Nat := backend.store.size

end MemoryCacheBackend

/-! ## Calls -/

inductive CacheCall (K V : Type) where
  | get (key : K)
  | set (key : K) (value : V) (ttlSec : Option JsNumber)
  | del (key : K)
  | clear
  | size

inductive CacheAnswer (V : Type) where
  | value (found : Option V)
  | done
  | count (entries : Nat)

def MemoryCacheBackend.call (backend : MemoryCacheBackend K V) :
    Clock × CacheCall K V → CacheAnswer V × MemoryCacheBackend K V
  | (clock, .get key) => (.value (backend.get clock key).1, (backend.get clock key).2)
  | (clock, .set key value ttlSec) => (.done, backend.set clock key value ttlSec)
  | (_, .del key) => (.done, backend.del key)
  | (_, .clear) => (.done, backend.clear)
  | (_, .size) => (.count backend.size, backend)

/-! ## The reference -/

/-- Live while the expiry is 0 or not before now. -/
def CacheEntry.live (entry : CacheEntry V) (clock : Clock) : Bool :=
  entry.expiresAt = .finite 0 || !JsNumber.lt entry.expiresAt clock.now

namespace Recent

open Recency

variable (capacity defaultTtl : JsNumber)

/-- At most the capacity. -/
def fits (entries : Nat) : Bool := JsNumber.le (.finite entries) capacity

/-- The entries ordered by last touch, and what a call makes of them. -/
def call (entries : List (K × CacheEntry V)) :
    Clock × CacheCall K V → CacheAnswer V × List (K × CacheEntry V)
  | (clock, .get key) =>
      match entries.find? fun row => row.1 = key with
      | none => (.value none, entries)
      | some (_, entry) =>
          if entry.live clock then (.value (some entry.value), touch key entry entries)
          else (.value none, without key entries)
  | (clock, .set key value ttlSec) =>
      let entry := ⟨value, MemoryCacheBackend.expiresAt clock (ttlSec.getD defaultTtl)⟩
      (.done, evict (fits capacity) (touch key entry entries))
  | (_, .del key) => (.done, without key entries)
  | (_, .clear) => (.done, [])
  | (_, .size) => (.count entries.length, entries)

end Recent

/-! ## The backend answers as the reference does -/

theorem nonneg_expiresAt (clock : Clock) (ttl : JsNumber) :
    (MemoryCacheBackend.expiresAt clock ttl).Nonneg := by
  unfold MemoryCacheBackend.expiresAt
  split
  next positive =>
    have now : clock.now.Nonneg := JsNumber.nonneg_finite.mpr (Nat.cast_nonneg clock)
    exact now.add (JsNumber.nonneg_mul_finite positive (by norm_num))
  next => exact .inl rfl

/-- The test of `get` finds the entries that are not live. -/
theorem expired_eq_not_live {entry : CacheEntry V} (nonneg : entry.expiresAt.Nonneg) (clock : Clock) :
    (JsNumber.lt (.finite 0) entry.expiresAt && JsNumber.lt entry.expiresAt clock.now) =
      !entry.live clock := by
  unfold CacheEntry.live
  rcases nonneg with zero | positive
  · simp [zero, JsNumber.lt]
  · have other : entry.expiresAt ≠ .finite 0 := by
      intro zero
      rw [zero] at positive
      simp [JsNumber.lt] at positive
    simp [positive, other]

theorem fits_finite (a : ℚ) (entries : Nat) :
    Recent.fits (.finite a) entries = decide ((entries : ℚ) ≤ a) := by
  rw [Bool.eq_iff_iff]
  simp only [Recent.fits, JsNumber.le, JsNumber.lt, Bool.or_eq_true, decide_eq_true_eq,
    JsNumber.finite.injEq]
  exact le_iff_eq_or_lt.symm

theorem fits_zero {capacity : JsNumber} (nonneg : capacity.Nonneg) : Recent.fits capacity 0 = true := by
  cases capacity with
  | finite a =>
      rw [fits_finite, decide_eq_true_eq, Nat.cast_zero]
      exact JsNumber.nonneg_finite.mp nonneg
  | infinity negative =>
      rw [JsNumber.nonneg_infinity] at nonneg
      subst nonneg
      rfl
  | nan => exact absurd nonneg JsNumber.not_nonneg_nan

theorem fits_of_le {capacity : JsNumber} {few many : Nat} (fewer : few ≤ many)
    (fit : Recent.fits capacity many = true) : Recent.fits capacity few = true := by
  cases capacity with
  | finite a =>
      rw [fits_finite, decide_eq_true_eq] at fit ⊢
      exact (Nat.cast_le.mpr fewer).trans fit
  | infinity negative => exact fit
  | nan => exact fit

/-- The loop goes on while the entries do not fit. -/
theorem lt_eq_not_fits {capacity : JsNumber} (nonneg : capacity.Nonneg) (entries : Nat) :
    JsNumber.lt capacity (.finite entries) = !Recent.fits capacity entries := by
  cases capacity with
  | finite a => rw [fits_finite, JsNumber.lt, ← decide_not, decide_eq_decide, not_le]
  | infinity negative =>
      rw [JsNumber.nonneg_infinity] at nonneg
      subst nonneg
      rfl
  | nan => exact absurd nonneg JsNumber.not_nonneg_nan

/-- The loop of `set` evicts: each round deletes the first row. -/
theorem rows_shrink {capacity : JsNumber} (nonneg : capacity.Nonneg) :
    ∀ {store : Store K V} {rows : List (K × CacheEntry V)}, store.rows = rows →
      (MemoryCacheBackend.shrink capacity store).rows = Recency.evict (Recent.fits capacity) rows := by
  intro store rows same
  induction rows generalizing store with
  | nil =>
      have empty : store.oldest = none := by rw [Store.oldest, same]; rfl
      rw [MemoryCacheBackend.shrink]
      split
      · split
        · exact same
        next oldest first => rw [empty] at first; cases first
      · exact same
  | cons row rest ih =>
      have oldest : store.oldest = some row.1 := by rw [Store.oldest, same]; rfl
      have fewer : (store.delete row.1).rows = rest := by
        rw [Store.delete_oldest oldest, same, List.tail_cons]
      have size : store.size = (row :: rest).length := congrArg List.length same
      rw [MemoryCacheBackend.shrink, lt_eq_not_fits nonneg, size, Recency.evict]
      cases Recent.fits capacity (row :: rest).length with
      | true => exact same
      | false =>
          rw [if_pos Bool.not_false, if_neg Bool.false_ne_true]
          split
          next none_ => rw [oldest] at none_; cases none_
          next first first' =>
            obtain rfl : row.1 = first := Option.some.inj (oldest.symm.trans first')
            exact ih fewer

/-- The backend's state, as the reference has it. -/
structure Mirrors (capacity defaultTtl : JsNumber) (backend : MemoryCacheBackend K V)
    (entries : List (K × CacheEntry V)) : Prop where
  rows : backend.store.rows = entries
  capacity : backend.maxEntries = capacity
  defaultTtl : backend.defaultTtlSec = defaultTtl
  nonneg : ∀ row ∈ entries, row.2.expiresAt.Nonneg

theorem Mirrors.call {capacity defaultTtl : JsNumber} (nonneg : capacity.Nonneg)
    {backend : MemoryCacheBackend K V} {entries : List (K × CacheEntry V)}
    (mirrors : Mirrors capacity defaultTtl backend entries) (c : Clock × CacheCall K V) :
    (backend.call c).1 = (Recent.call capacity defaultTtl entries c).1 ∧
      Mirrors capacity defaultTtl (backend.call c).2 (Recent.call capacity defaultTtl entries c).2 := by
  obtain ⟨rfl, rfl, rfl, entriesNonneg⟩ := mirrors
  obtain ⟨clock, call⟩ := c
  cases call with
  | get key =>
      simp only [MemoryCacheBackend.call, Recent.call, MemoryCacheBackend.get, Keyed.get?]
      cases found : backend.store.rows.find? fun row => row.1 = key with
      | none => exact ⟨rfl, rfl, rfl, rfl, entriesNonneg⟩
      | some row =>
          have there := List.mem_of_find?_eq_some found
          simp only
          rw [expired_eq_not_live (entriesNonneg row there)]
          cases row.2.live clock with
          | false =>
              refine ⟨rfl, Store.rows_delete _ key, rfl, rfl, fun other kept => ?_⟩
              exact entriesNonneg other (List.mem_of_mem_filter kept)
          | true =>
              refine ⟨rfl, Store.rows_delete_save _ key row.2, rfl, rfl, fun other kept => ?_⟩
              rcases List.mem_append.mp kept with old | new
              · exact entriesNonneg other (List.mem_of_mem_filter old)
              · rw [List.mem_singleton.mp new]
                exact entriesNonneg row there
  | set key value ttlSec =>
      refine ⟨rfl, rows_shrink nonneg (Store.rows_delete_save _ key _), rfl, rfl, fun other kept => ?_⟩
      rcases List.mem_append.mp ((Recency.evict_suffix _ _).mem kept) with old | new
      · exact entriesNonneg other (List.mem_of_mem_filter old)
      · rw [List.mem_singleton.mp new]
        exact nonneg_expiresAt clock _
  | del key =>
      refine ⟨rfl, Store.rows_delete _ key, rfl, rfl, fun other kept => ?_⟩
      exact entriesNonneg other (List.mem_of_mem_filter kept)
  | clear => exact ⟨rfl, rfl, rfl, rfl, fun _ kept => absurd kept List.not_mem_nil⟩
  | size => exact ⟨rfl, rfl, rfl, rfl, entriesNonneg⟩

omit [DecidableEq K] in
theorem mirrors_new (capacity defaultTtl : JsNumber) :
    Mirrors (K := K) (V := V) capacity defaultTtl (.new capacity defaultTtl) [] :=
  ⟨rfl, rfl, rfl, fun _ kept => absurd kept List.not_mem_nil⟩

/-! ## What the history says -/

/-- A value was got. -/
def CacheAnswer.hit : CacheAnswer V → Bool
  | .value found => found.isSome
  | _ => false

/-- The keys that a call touches: a set one, and one whose live entry is got. -/
def CacheCall.touches : CacheCall K V → CacheAnswer V → List K
  | .set key _ _, _ => [key]
  | .get key, answer => if answer.hit then [key] else []
  | .del _, _ | .clear, _ | .size, _ => []

/-- The touches of a history, in order. -/
def touched (history : List (Clock × CacheCall K V)) (answers : List (CacheAnswer V)) : List K :=
  (history.zip answers).flatMap fun event => event.1.2.touches event.2

/-- The entry under a key after a call, evictions and expiry aside. -/
def CacheCall.writes (defaultTtl : JsNumber) (clock : Clock) (key : K) (before : Option (CacheEntry V)) :
    CacheCall K V → Option (CacheEntry V)
  | .set other value ttlSec =>
      if other = key then
        some ⟨value, MemoryCacheBackend.expiresAt clock (ttlSec.getD defaultTtl)⟩
      else before
  | .del other => if other = key then none else before
  | .clear => none
  | _ => before

/-- What the last `set` of a key wrote, unless it was deleted since. -/
def written (defaultTtl : JsNumber) (history : List (Clock × CacheCall K V)) (key : K) :
    Option (CacheEntry V) :=
  history.foldl (fun before c => c.2.writes defaultTtl c.1 key before) none

theorem written_concat (defaultTtl : JsNumber) (past : List (Clock × CacheCall K V))
    (c : Clock × CacheCall K V) (key : K) :
    written defaultTtl (past ++ [c]) key =
      c.2.writes defaultTtl c.1 key (written defaultTtl past key) := by
  simp [written]

omit [DecidableEq K] in
theorem touched_concat {past : List (Clock × CacheCall K V)} {answers : List (CacheAnswer V)}
    (each : answers.length = past.length) (c : Clock × CacheCall K V) (answer : CacheAnswer V) :
    touched (past ++ [c]) (answers ++ [answer]) = touched past answers ++ c.2.touches answer := by
  simp [touched, List.zip_append each.symm]

/-- The entries are what the history wrote, in the order of the last touches, and they fit. -/
structure Accounted (capacity defaultTtl : JsNumber) (past : List (Clock × CacheCall K V))
    (touches : List K) (entries : List (K × CacheEntry V)) : Prop where
  ordered : Recency.Ordered touches entries
  written : ∀ row ∈ entries, written defaultTtl past row.1 = some row.2
  fit : Recent.fits capacity entries.length = true

/-- A call that touches nothing and leaves what was written. -/
theorem Accounted.untouched {capacity defaultTtl : JsNumber} {past : List (Clock × CacheCall K V)}
    {touches : List K} {entries fewer : List (K × CacheEntry V)}
    (accounted : Accounted capacity defaultTtl past touches entries) {c : Clock × CacheCall K V}
    (sub : fewer.Sublist entries)
    (leaves : ∀ row ∈ fewer, c.2.writes defaultTtl c.1 row.1 (some row.2) = some row.2) :
    Accounted capacity defaultTtl (past ++ [c]) (touches ++ []) fewer where
  ordered := by
    rw [List.append_nil]
    exact accounted.ordered.sublist sub
  written row inside := by
    rw [written_concat, accounted.written row (sub.mem inside)]
    exact leaves row inside
  fit := fits_of_le sub.length_le accounted.fit

/-- A key touched now, with the entry that the call leaves under it. -/
theorem Accounted.touched {capacity defaultTtl : JsNumber} {past : List (Clock × CacheCall K V)}
    {touches : List K} {entries : List (K × CacheEntry V)}
    (accounted : Accounted capacity defaultTtl past touches entries) {c : Clock × CacheCall K V} {key : K}
    {entry : CacheEntry V}
    (writes : c.2.writes defaultTtl c.1 key (Cache.written defaultTtl past key) = some entry)
    (leaves : ∀ other before, other ≠ key → c.2.writes defaultTtl c.1 other before = before) :
    Recency.Ordered (touches ++ [key]) (Recency.touch key entry entries) ∧
      ∀ row ∈ Recency.touch key entry entries,
        Cache.written defaultTtl (past ++ [c]) row.1 = some row.2 := by
  refine ⟨accounted.ordered.touch key entry, fun row inside => ?_⟩
  rw [written_concat]
  rcases List.mem_append.mp inside with old | new
  · obtain ⟨there, other⟩ := List.mem_filter.mp old
    rw [leaves row.1 _ (of_decide_eq_true other)]
    exact accounted.written row there
  · rw [List.mem_singleton.mp new]
    exact writes

theorem Accounted.call {capacity defaultTtl : JsNumber} (nonneg : capacity.Nonneg)
    {past : List (Clock × CacheCall K V)} {touches : List K} {entries : List (K × CacheEntry V)}
    (accounted : Accounted capacity defaultTtl past touches entries) (c : Clock × CacheCall K V) :
    Accounted capacity defaultTtl (past ++ [c])
      (touches ++ c.2.touches (Recent.call capacity defaultTtl entries c).1)
      (Recent.call capacity defaultTtl entries c).2 := by
  obtain ⟨clock, call⟩ := c
  cases call with
  | get key =>
      simp only [Recent.call]
      cases found : entries.find? fun row => row.1 = key with
      | none => exact accounted.untouched (List.Sublist.refl _) fun _ _ => rfl
      | some row =>
          have there := List.mem_of_find?_eq_some found
          obtain rfl : row.1 = key := by simpa using List.find?_some found
          simp only
          cases row.2.live clock with
          | false => exact accounted.untouched List.filter_sublist fun _ _ => rfl
          | true =>
              obtain ⟨ordered, areWritten⟩ := @Accounted.touched _ _ _ _ _ _ _ _ accounted
                (clock, .get row.1) row.1 row.2 (accounted.written row there) fun _ _ _ => rfl
              refine ⟨ordered, areWritten, ?_⟩
              exact fits_of_le (Recency.length_touch_le (List.mem_map_of_mem there) _) accounted.fit
  | set key value ttlSec =>
      obtain ⟨ordered, areWritten⟩ := @Accounted.touched _ _ _ _ _ _ _ _ accounted
        (clock, .set key value ttlSec) key _ (if_pos rfl) fun other _ different => if_neg different.symm
      exact ⟨ordered.sublist (Recency.evict_suffix _ _).sublist,
        fun row inside => areWritten row ((Recency.evict_suffix _ _).mem inside),
        Recency.fits_evict (fits_zero nonneg) _⟩
  | del key =>
      refine accounted.untouched List.filter_sublist fun row inside => ?_
      exact if_neg (Ne.symm (of_decide_eq_true (List.mem_filter.mp inside).2))
  | clear => exact accounted.untouched (List.nil_sublist _) fun _ inside => absurd inside List.not_mem_nil
  | size => exact accounted.untouched (List.Sublist.refl _) fun _ _ => rfl

/-! ## Exactness -/

/-- The keys the backend holds. -/
def MemoryCacheBackend.keys (backend : MemoryCacheBackend K V) : List K := Recency.keys backend.store.rows

/-- How a call may lose a key: the key was touched before all those that an eviction keeps. -/
inductive Lost (backend : MemoryCacheBackend K V) (touches : List K) (clock : Clock) (key : K) :
    CacheCall K V → Prop
  | expired {entry : CacheEntry V} (there : (key, entry) ∈ backend.store.rows)
      (dead : entry.live clock = false) : Lost backend touches clock key (.get key)
  | deleted : Lost backend touches clock key (.del key)
  | cleared : Lost backend touches clock key .clear
  | evicted {other : K} {value : V} {ttlSec : Option JsNumber}
      (full : Recent.fits backend.maxEntries ((backend.store.delete other).size + 1) = false)
      (oldest : ∀ kept ∈ (backend.set clock other value ttlSec).keys,
        [key, kept].Sublist (touches ++ [other]).dedup) :
      Lost backend touches clock key (.set other value ttlSec)

/-- After any history: the state the reference has, accounted for by the history. -/
theorem mirrors_after (capacity defaultTtl : JsNumber) (nonneg : capacity.Nonneg)
    (past : List (Clock × CacheCall K V)) :
    let start : MemoryCacheBackend K V := .new capacity defaultTtl
    let replies := answers MemoryCacheBackend.call start past
    let entries := after (Recent.call capacity defaultTtl) [] past
    replies = answers (Recent.call capacity defaultTtl) [] past ∧
      Mirrors capacity defaultTtl (after MemoryCacheBackend.call start past) entries ∧
      Accounted capacity defaultTtl past (touched past replies) entries := by
  intro start replies entries
  obtain ⟨same, mirrors⟩ := answers_eq (fun _ _ c related => Mirrors.call nonneg related c) past
    (mirrors_new capacity defaultTtl)
  refine ⟨same, mirrors, ?_⟩
  simp only [replies, entries, start, same]
  clear mirrors same entries replies start
  induction past using List.reverseRecOn with
  | nil => exact ⟨List.nil_sublist _, fun _ inside => absurd inside List.not_mem_nil, fits_zero nonneg⟩
  | append_singleton past c ih =>
      rw [answers_concat, after_concat, touched_concat (length_answers ..)]
      exact ih.call nonneg c

theorem written_of_got {capacity defaultTtl : JsNumber} {backend : MemoryCacheBackend K V}
    {entries : List (K × CacheEntry V)} (mirrors : Mirrors capacity defaultTtl backend entries)
    {past : List (Clock × CacheCall K V)} {touches : List K}
    (accounted : Accounted capacity defaultTtl past touches entries) {clock : Clock} {key : K} {value : V}
    (got : (backend.get clock key).1 = some value) :
    ∃ entry, written defaultTtl past key = some entry ∧ entry.value = value ∧
      entry.live clock = true := by
  obtain ⟨rfl, rfl, rfl, entriesNonneg⟩ := mirrors
  rw [MemoryCacheBackend.get] at got
  cases found : backend.store.get? key with
  | none =>
      rw [found] at got
      cases got
  | some row =>
      obtain ⟨there, rfl⟩ := Keyed.get?_eq_some.mp found
      rw [found] at got
      simp only [expired_eq_not_live (entriesNonneg row there)] at got
      cases live : row.2.live clock with
      | false => simp [live] at got
      | true =>
          simp only [live, Bool.not_true, if_neg Bool.false_ne_true, Option.some.injEq] at got
          exact ⟨row.2, accounted.written row there, got, live⟩

theorem lost_of_gone {capacity defaultTtl : JsNumber} (nonneg : capacity.Nonneg)
    {backend : MemoryCacheBackend K V} {entries : List (K × CacheEntry V)}
    (mirrors : Mirrors capacity defaultTtl backend entries) {past : List (Clock × CacheCall K V)}
    {touches : List K} (accounted : Accounted capacity defaultTtl past touches entries) {clock : Clock}
    {call : CacheCall K V} {key : K} (there : key ∈ backend.keys)
    (gone : key ∉ (backend.call (clock, call)).2.keys) : Lost backend touches clock key call := by
  obtain ⟨-, rows, -⟩ := mirrors.call nonneg (clock, call)
  obtain ⟨rfl, rfl, rfl, entriesNonneg⟩ := mirrors
  rw [MemoryCacheBackend.keys, rows] at gone
  have staysWithout : ∀ {other}, key ∉ Recency.keys (Recency.without other backend.store.rows) →
      key = other := by
    intro other absent
    rw [Recency.keys_without, List.mem_filter, not_and, decide_eq_true_eq, not_not] at absent
    exact absent there
  have staysTouched : ∀ {other entry}, key ∈ Recency.keys (Recency.touch other entry backend.store.rows) :=
    Recency.mem_keys_touch.mpr (.inr there)
  cases call with
  | get other =>
      simp only [Recent.call] at gone
      cases found : backend.store.rows.find? fun row => row.1 = other with
      | none =>
          rw [found] at gone
          exact absurd there gone
      | some row =>
          rw [found] at gone
          obtain rfl : row.1 = other := by simpa using List.find?_some found
          cases live : row.2.live clock with
          | true =>
              simp only [live, if_pos] at gone
              exact absurd staysTouched gone
          | false =>
              simp only [live, if_neg Bool.false_ne_true] at gone
              obtain rfl := staysWithout gone
              exact .expired (List.mem_of_find?_eq_some found) live
  | set other value ttlSec =>
      refine .evicted ?_ fun kept stays => ?_
      · rw [← Bool.not_eq_true]
        intro fit
        refine gone ?_
        rw [Recent.call, Recency.evict_eq_self]
        · exact staysTouched
        · rw [Recency.touch, List.length_append, List.length_singleton, ← Store.rows_delete]
          exact fit
      · change (backend.set clock other value ttlSec).store.rows = _ at rows
        rw [MemoryCacheBackend.keys, rows] at stays
        exact Recency.evicted_before (accounted.ordered.touch other _) staysTouched gone stays
  | del other =>
      obtain rfl := staysWithout gone
      exact .deleted
  | clear => exact .cleared
  | size => exact absurd there gone

end Backend

end SdcoreNest.Cache
