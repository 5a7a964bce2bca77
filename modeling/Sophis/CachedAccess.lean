import Mathlib.Data.List.Basic
import Mathlib.Logic.Function.Basic

/-!
# Cached access to a store with batched writes

The typed access to the database of `access.rs`, with the cache of `cache.rs`
in front of it. A write goes to the cache at once and to the database only
when the batch it belongs to is flushed, so between the two a reader that
misses the cache sees the old row. Which entries the cache drops is decided by
random numbers, which are given here as a list.
-/

/-- How many entries a cache keeps, and by what measure. -/
inductive CachePolicy where
  | empty
  | count (maxSize : Nat)
  | tracked (maxSize minItems : Nat)
  deriving Repr, DecidableEq

def CachePolicy.maxSize : CachePolicy → Nat
  | .empty => 0
  | .count maxSize => maxSize
  | .tracked maxSize _ => maxSize

/-- The entries of a cache in the order of its index map, with the sum of their
sizes if it is tracked. -/
structure StoreCache (Key Data : Type) where
  map : List (Key × Data)
  trackedSize : Nat
  deriving Repr, DecidableEq

namespace StoreCache

open List

variable {Key Data : Type}

def draw (bound : Nat) : List Nat → Nat × List Nat
  | [] => (0, [])
  | number :: rest => (number % bound, rest)

def swapRemoveIndex (position : Nat) (map : List (Key × Data)) : List (Key × Data) :=
  match map.getLast? with
  | some last => (map.set position last).dropLast
  | none => []

/-- Drops random entries until the sizes are within the limit or few entries
are left. Every round drops one entry, so their number is enough fuel. -/
def trackedEvict (estimateSize : Data → Nat) (maxSize minItems : Nat) :
    Nat → StoreCache Key Data → List Nat → StoreCache Key Data × List Nat
  | 0, cache, draws => (cache, draws)
  | fuel + 1, cache, draws =>
    if maxSize < cache.trackedSize ∧ minItems < cache.map.length then
      let (position, draws) := draw cache.map.length draws
      let size := (cache.map[position]?.map fun entry => estimateSize entry.2).getD 0
      trackedEvict estimateSize maxSize minItems fuel
        { map := swapRemoveIndex position cache.map
          trackedSize := cache.trackedSize - size } draws
    else
      (cache, draws)

variable {map : List (Key × Data)} {entry : Key × Data}

theorem mem_of_mem_swapRemoveIndex {pos : Nat} (mem : entry ∈ swapRemoveIndex pos map) :
    entry ∈ map := by
  rw [swapRemoveIndex] at mem
  split at mem
  · rename_i last isLast
    rcases mem_or_eq_of_mem_set (dropLast_subset _ mem) with kept | rfl
    · exact kept
    · exact mem_of_getLast? isLast
  · cases mem

variable {estimateSize : Data → Nat} {cache : StoreCache Key Data} {draws : List Nat}

theorem mem_of_mem_trackedEvict {maxSize minItems fuel : Nat}
    (mem : entry ∈ (trackedEvict estimateSize maxSize minItems fuel cache draws).1.map) :
    entry ∈ cache.map := by
  induction fuel generalizing cache draws with
  | zero => exact mem
  | succ fuel ih =>
    rw [trackedEvict] at mem
    split at mem
    · exact mem_of_mem_swapRemoveIndex (ih mem)
    · exact mem

variable [DecidableEq Key]

def get (cache : StoreCache Key Data) (key : Key) : Option Data :=
  cache.map.lookup key

/-- Removes the entry of a key. The order of the others matters only for
evictions, whose random numbers are arbitrary. -/
def remove (estimateSize : Data → Nat) (key : Key) (cache : StoreCache Key Data) :
    StoreCache Key Data where
  map := cache.map.filter fun entry => entry.1 ≠ key
  trackedSize := cache.trackedSize - ((cache.get key).map estimateSize).getD 0

/-- Replaces the entry of a key in its place, or appends it. -/
def insertEntry (key : Key) (data : Data) (map : List (Key × Data)) : List (Key × Data) :=
  if (map.lookup key).isSome then
    map.map fun entry => if entry.1 = key then (key, data) else entry
  else
    map ++ [(key, data)]

/-- A cache that only counts makes room before it looks whether the key is
already there; a tracked one drops entries afterwards. -/
def insert (policy : CachePolicy) (estimateSize : Data → Nat) (key : Key)
    (data : Data) (cache : StoreCache Key Data) (draws : List Nat) :
    StoreCache Key Data × List Nat :=
  if policy.maxSize = 0 then
    (cache, draws)
  else
    match policy with
    | .tracked maxSize minItems =>
      let removed := ((cache.get key).map estimateSize).getD 0
      let map := insertEntry key data cache.map
      trackedEvict estimateSize maxSize minItems map.length
        { map
          trackedSize := cache.trackedSize + estimateSize data - removed }
        draws
    | _ =>
      if cache.map.length = policy.maxSize then
        let (position, draws) := draw policy.maxSize draws
        ({ cache with
          map := insertEntry key data (swapRemoveIndex position cache.map) }, draws)
      else
        ({ cache with map := insertEntry key data cache.map }, draws)

variable {key : Key} {data : Data}

theorem mem_of_mem_insertEntry (mem : entry ∈ insertEntry key data map) :
    entry = (key, data) ∨ (entry ∈ map ∧ entry.1 ≠ key) := by
  rw [insertEntry] at mem
  split at mem
  · obtain ⟨old, isOld, changed⟩ := List.mem_map.mp mem
    split at changed
    · exact .inl changed.symm
    · rename_i ne
      subst changed
      exact .inr ⟨isOld, ne⟩
  · rename_i absent
    rcases mem_append.mp mem with old | new
    · refine .inr ⟨old, ?_⟩
      rintro rfl
      have noEntry : map.lookup entry.1 = none := Option.not_isSome_iff_eq_none.mp absent
      simpa using lookup_eq_none_iff.mp noEntry entry old
    · exact .inl (mem_singleton.mp new)

variable {policy : CachePolicy}

theorem mem_of_mem_insert (enabled : policy.maxSize ≠ 0)
    (mem : entry ∈ (cache.insert policy estimateSize key data draws).1.map) :
    entry = (key, data) ∨ (entry ∈ cache.map ∧ entry.1 ≠ key) := by
  unfold insert at mem
  rw [if_neg enabled] at mem
  split at mem
  · exact mem_of_mem_insertEntry (mem_of_mem_trackedEvict mem)
  · split at mem
    · rcases mem_of_mem_insertEntry mem with new | ⟨old, ne⟩
      · exact .inl new
      · exact .inr ⟨mem_of_mem_swapRemoveIndex old, ne⟩
    · exact mem_of_mem_insertEntry mem

theorem mem_of_get_eq_some (got : cache.get key = some data) : (key, data) ∈ cache.map := by
  obtain ⟨before, after, split, -⟩ := lookup_eq_some_iff.mp got
  rw [split]
  simp

end StoreCache

/-- One store of the database with its cache, the writes of the open batch in
their order, and the random numbers its evictions will use. -/
structure CachedDbAccess (Key Data : Type) where
  policy : CachePolicy
  estimateSize : Data → Nat
  db : Key → Option Data
  batch : List (Key × Data)
  cache : StoreCache Key Data
  draws : List Nat

namespace CachedDbAccess

open Function

variable {Key Data : Type} [DecidableEq Key]

def remember (access : CachedDbAccess Key Data) (key : Key) (data : Data) :
    CachedDbAccess Key Data :=
  let (cache, draws) := access.cache.insert access.policy access.estimateSize key data access.draws
  { access with cache, draws }

/-- Reads a row from the cache or else from the database, which does not know
of the batch. -/
def read (access : CachedDbAccess Key Data) (key : Key) : Option Data × CachedDbAccess Key Data :=
  match access.cache.get key with
  | some data => (some data, access)
  | none =>
    match access.db key with
    | some data => (some data, access.remember key data)
    | none => (none, access)

def write (access : CachedDbAccess Key Data) (key : Key) (data : Data) : CachedDbAccess Key Data :=
  let remembered := access.remember key data
  { remembered with batch := access.batch ++ [(key, data)] }

/-- What the database will hold once the batch is flushed. -/
def staged (access : CachedDbAccess Key Data) : Key → Option Data :=
  access.batch.foldl (fun db row => update db row.1 (some row.2)) access.db

def flush (access : CachedDbAccess Key Data) : CachedDbAccess Key Data :=
  { access with db := access.staged, batch := [] }

def has (access : CachedDbAccess Key Data) (key : Key) : Bool :=
  (access.cache.get key).isSome || (access.db key).isSome

/-- Deletes a row. The batch of a deletion is flushed before the row is asked for
again. -/
def delete (access : CachedDbAccess Key Data) (key : Key) : CachedDbAccess Key Data :=
  { access with
    db := update access.db key none
    cache := access.cache.remove access.estimateSize key }

def deleteExisting (access : CachedDbAccess Key Data) : List Key → CachedDbAccess Key Data
  | [] => access
  | key :: rest => (if access.has key then access.delete key else access).deleteExisting rest

/-- Every cached row is the one the database will hold after the flush, and a
cache that is switched off is empty. -/
structure Coherent (access : CachedDbAccess Key Data) : Prop where
  disabled : access.policy.maxSize = 0 → access.cache.map = []
  agrees : ∀ entry ∈ access.cache.map, access.staged entry.1 = some entry.2

@[simp] theorem staged_write (access : CachedDbAccess Key Data) (key : Key) (data : Data) :
    (access.write key data).staged = update access.staged key (some data) := by
  simp [write, remember, staged, List.foldl_append]

variable {access : CachedDbAccess Key Data} {key : Key}

def applyRows (rows : List (Key × Data)) (db : Key → Option Data) : Key → Option Data :=
  rows.foldl (fun db row => update db row.1 (some row.2)) db

theorem applyRows_of_not_mem {rows : List (Key × Data)} (untouched : key ∉ rows.map Prod.fst)
    (db : Key → Option Data) : applyRows rows db key = db key := by
  induction rows generalizing db with
  | nil => rfl
  | cons row rest ih =>
    rw [List.map_cons, List.mem_cons, not_or] at untouched
    exact (ih untouched.2 _).trans (update_of_ne untouched.1 ..)

/-- What was written is not asked for again, so writing it twice is writing it
once. -/
theorem applyRows_twice (rows : List (Key × Data)) (db : Key → Option Data) :
    applyRows rows (applyRows rows db) = applyRows rows db := by
  have overwritten (rows : List (Key × Data)) (first second : Key → Option Data) (key : Key)
      (agree : key ∈ rows.map Prod.fst ∨ first key = second key) :
      applyRows rows first key = applyRows rows second key := by
    induction rows generalizing first second with
    | nil => exact agree.resolve_left List.not_mem_nil
    | cons row rest ih =>
      refine ih _ _ ?_
      dsimp only
      by_cases eq : key = row.1
      · exact .inr (by rw [eq, update_self, update_self])
      · rw [update_of_ne eq, update_of_ne eq]
        exact agree.imp_left fun mem => (List.mem_cons.mp mem).resolve_left eq
  funext key
  by_cases mem : key ∈ rows.map Prod.fst
  · exact overwritten rows _ _ key (.inl mem)
  · exact applyRows_of_not_mem mem _

section

variable (disabled : access.policy.maxSize = 0 → access.cache.map = [])
include disabled

theorem remember_disabled (key : Key) (data : Data) :
    (access.remember key data).policy.maxSize = 0 → (access.remember key data).cache.map = [] := by
  intro isDisabled
  have isOff : access.policy.maxSize = 0 := isDisabled
  have eq : access.remember key data = access := by
    simp only [remember, StoreCache.insert, if_pos isOff]
  rw [eq]
  exact disabled isOff

theorem coherent_write
    (agrees : ∀ entry ∈ access.cache.map, entry.1 ≠ key → access.staged entry.1 = some entry.2)
    (data : Data) : (access.write key data).Coherent := by
  refine ⟨remember_disabled disabled key data, ?_⟩
  intro entry mem
  rw [staged_write]
  by_cases enabled : access.policy.maxSize = 0
  · have nothing := remember_disabled disabled key data enabled
    exact absurd mem (by
      rw [show (access.write key data).cache.map = [] from nothing]
      exact List.not_mem_nil)
  · rcases StoreCache.mem_of_mem_insert enabled mem with
      rfl | ⟨old, ne⟩
    · exact update_self ..
    · rw [update_of_ne ne]
      exact agrees entry old ne

end

def writeAll (access : CachedDbAccess Key Data) (rows : List (Key × Data)) :
    CachedDbAccess Key Data :=
  rows.foldl (fun access row => access.write row.1 row.2) access

theorem staged_writeAll (access : CachedDbAccess Key Data) (rows : List (Key × Data)) :
    (access.writeAll rows).staged = applyRows rows access.staged := by
  induction rows generalizing access with
  | nil => rfl
  | cons row rest ih =>
    refine (ih (access.write row.1 row.2)).trans ?_
    rw [staged_write]
    rfl

theorem writeAll_twice (access : CachedDbAccess Key Data) (rows : List (Key × Data)) :
    ((access.writeAll rows).flush.writeAll rows).flush.db = (access.writeAll rows).flush.db := by
  change ((access.writeAll rows).flush.writeAll rows).staged = (access.writeAll rows).staged
  rw [staged_writeAll]
  change applyRows rows (access.writeAll rows).staged = _
  rw [staged_writeAll, applyRows_twice]

theorem Coherent.writeAll (coherent : access.Coherent) (rows : List (Key × Data)) :
    (access.writeAll rows).Coherent := by
  induction rows generalizing access with
  | nil => exact coherent
  | cons row rest ih =>
    exact ih (coherent_write coherent.disabled (fun entry mem _ => coherent.agrees entry mem) _)

section

variable (noBatch : access.batch = [])
include noBatch

theorem staged_of_noBatch : access.staged = access.db := by
  rw [staged, noBatch]
  rfl

theorem coherent_delete (disabled : access.policy.maxSize = 0 → access.cache.map = [])
    (agrees : ∀ entry ∈ access.cache.map, entry.1 ≠ key → access.staged entry.1 = some entry.2) :
    (access.delete key).Coherent := by
  refine ⟨fun isDisabled => ?_, fun entry mem => ?_⟩
  · simp [delete, StoreCache.remove, disabled isDisabled]
  · obtain ⟨old, kept⟩ := List.mem_filter.mp mem
    have ne := of_decide_eq_true kept
    have still : (access.delete key).batch = [] := noBatch
    rw [staged_of_noBatch still, ← agrees entry old ne, staged_of_noBatch noBatch]
    exact update_of_ne ne ..

theorem deleteExisting_spec (coherent : access.Coherent) (keys : List Key) :
    (access.deleteExisting keys).Coherent ∧ (access.deleteExisting keys).batch = [] ∧
      ∀ key, (access.deleteExisting keys).db key = if key ∈ keys then none else access.db key := by
  induction keys generalizing access with
  | nil => exact ⟨coherent, noBatch, fun _ => rfl⟩
  | cons first rest ih =>
    rw [deleteExisting]
    split
    · have still : (access.delete first).batch = [] := noBatch
      obtain ⟨restCoherent, restBatch, got⟩ := ih still
        (coherent_delete noBatch coherent.disabled fun entry mem _ => coherent.agrees entry mem)
      refine ⟨restCoherent, restBatch, fun key => (got key).trans ?_⟩
      by_cases eq : key = first <;> simp [eq, delete]
    · rename_i missing
      obtain ⟨restCoherent, restBatch, got⟩ := ih noBatch coherent
      refine ⟨restCoherent, restBatch, fun key => (got key).trans ?_⟩
      have absent : access.db first = none := by
        simp only [has, Bool.or_eq_true, not_or, Option.not_isSome_iff_eq_none] at missing
        exact missing.2
      by_cases eq : key = first <;> simp [eq, absent]

end

section

variable {Item : Type}

def push (access : CachedDbAccess Key (List Item)) (key : Key) (item : Item) :
    CachedDbAccess Key (List Item) :=
  let (found, access) := access.read key
  access.write key (found.getD [] ++ [item])

def pushAll (access : CachedDbAccess Key (List Item)) :
    List (Key × Item) → CachedDbAccess Key (List Item)
  | [] => access
  | (key, item) :: rest => (access.push key item).pushAll rest

theorem pushAll_append (access : CachedDbAccess Key (List Item))
    (first second : List (Key × Item)) :
    access.pushAll (first ++ second) = (access.pushAll first).pushAll second := by
  induction first generalizing access with
  | nil => rfl
  | cons row rest ih => exact ih _

def bucket (access : CachedDbAccess Key (List Item)) (key : Key) : List Item :=
  (access.staged key).getD []

/-- The cache still holds the lists of the batch whenever they are read
again. -/
def Retains (access : CachedDbAccess Key (List Item)) : List (Key × Item) → Prop
  | [] => True
  | (key, item) :: rest =>
    (key ∈ access.batch.map Prod.fst → (access.cache.get key).isSome) ∧
      (access.push key item).Retains rest

variable {key : Key}

theorem read_eq_staged {access : CachedDbAccess Key Data} (coherent : access.Coherent)
    (retained : key ∈ access.batch.map Prod.fst → (access.cache.get key).isSome) :
    (access.read key).1 = access.staged key := by
  rw [read]
  split
  · rename_i data got
    exact (coherent.agrees _ (StoreCache.mem_of_get_eq_some got)).symm
  · rename_i missing
    have untouched : key ∉ access.batch.map Prod.fst := by
      intro touched
      have held := retained touched
      rw [missing] at held
      cases held
    rw [show access.staged key = access.db key from applyRows_of_not_mem untouched access.db]
    split
    · rename_i data kept
      exact kept.symm
    · rename_i absent
      exact absent.symm

theorem read_store (access : CachedDbAccess Key Data) (key : Key) :
    (access.read key).2.db = access.db ∧ (access.read key).2.batch = access.batch ∧
      ((access.read key).1 = none → (access.read key).2 = access) := by
  rw [read]
  split
  · exact ⟨rfl, rfl, nofun⟩
  · split
    · exact ⟨rfl, rfl, nofun⟩
    · exact ⟨rfl, rfl, fun _ => rfl⟩

theorem read_of_noBatch {access : CachedDbAccess Key Data} (coherent : access.Coherent)
    (noBatch : access.batch = []) (key : Key) : (access.read key).1 = access.db key := by
  rw [read_eq_staged coherent fun touched => absurd (noBatch ▸ touched) List.not_mem_nil,
    staged_of_noBatch noBatch]

theorem read_frame {access : CachedDbAccess Key Data} (coherent : access.Coherent) (key : Key) :
    (access.read key).2.staged = access.staged ∧ ((access.read key).2.policy.maxSize = 0 →
        (access.read key).2.cache.map = []) ∧
      ∀ entry ∈ (access.read key).2.cache.map, entry.1 ≠ key →
        access.staged entry.1 = some entry.2 := by
  rw [read]
  split
  · exact ⟨rfl, coherent.disabled, fun entry mem _ => coherent.agrees entry mem⟩
  split
  · rename_i data kept
    refine ⟨rfl, remember_disabled coherent.disabled key data, ?_⟩
    intro entry mem ne
    by_cases enabled : access.policy.maxSize = 0
    · have nothing := remember_disabled coherent.disabled key data enabled
      rw [nothing] at mem
      cases mem
    · rcases StoreCache.mem_of_mem_insert enabled mem with
        rfl | ⟨old, -⟩
      · exact absurd rfl ne
      · exact coherent.agrees entry old
  · exact ⟨rfl, coherent.disabled, fun entry mem _ => coherent.agrees entry mem⟩

variable {access : CachedDbAccess Key (List Item)} (coherent : access.Coherent)
include coherent

theorem Coherent.push (key : Key) (item : Item) : (access.push key item).Coherent := by
  obtain ⟨sameStaged, disabled, agrees⟩ := read_frame coherent key
  exact coherent_write disabled (by rwa [sameStaged]) _

theorem bucket_push (retained : key ∈ access.batch.map Prod.fst → (access.cache.get key).isSome)
    (item : Item) (other : Key) : (access.push key item).bucket other =
      access.bucket other ++ if other = key then [item] else [] := by
  obtain ⟨sameStaged, -, -⟩ := read_frame coherent key
  rw [bucket, CachedDbAccess.push, staged_write, sameStaged, read_eq_staged coherent retained]
  by_cases eq : other = key
  · rw [eq, update_self, if_pos rfl]
    rfl
  · rw [update_of_ne eq, if_neg eq, List.append_nil]
    rfl

/-- When the cache retains the lists of the batch, every list gains the items
that were pushed to it, in their order. -/
theorem bucket_pushAll {items : List (Key × Item)} (retained : access.Retains items) (key : Key) :
    (access.pushAll items).bucket key = access.bucket key ++
      (items.filter fun row => row.1 = key).map Prod.snd := by
  induction items generalizing access with
  | nil => exact (List.append_nil _).symm
  | cons row rest ih =>
    obtain ⟨first, item⟩ := row
    obtain ⟨held, retainedRest⟩ := retained
    rw [pushAll, ih (coherent.push first item) retainedRest,
      bucket_push coherent held, List.append_assoc]
    by_cases eq : key = first
    · subst eq
      simp
    · simp [eq, Ne.symm eq]

/-- The lists of the batch are longer than those of the database. -/
def Grown (access : CachedDbAccess Key (List Item)) : Prop :=
  ∀ key ∈ access.batch.map Prod.fst,
    ((access.db key).getD []).length < (access.bucket key).length

omit coherent in
theorem Grown.le (grown : access.Grown) (key : Key) :
    ((access.db key).getD []).length ≤ (access.bucket key).length := by
  by_cases touched : key ∈ access.batch.map Prod.fst
  · exact Nat.le_of_lt (grown key touched)
  · have same : access.bucket key = (access.db key).getD [] := by
      rw [bucket, show access.staged key = access.db key from applyRows_of_not_mem touched _]
    exact Nat.le_of_eq (congrArg List.length same.symm)

/-- A push makes the row in the database longer, and the row of the batch too if
the cache still holds it. Otherwise a pointer of the batch is lost. -/
theorem length_bucket_push (grown : access.Grown) (key : Key) (item : Item) :
    ((access.db key).getD []).length < ((access.push key item).bucket key).length ∧
      ((access.push key item).bucket key).length ≤ (access.bucket key).length + 1 ∧
      (((access.push key item).bucket key).length = (access.bucket key).length + 1 →
        key ∈ access.batch.map Prod.fst → (access.cache.get key).isSome) := by
  have le := grown.le key
  by_cases retained : key ∈ access.batch.map Prod.fst → (access.cache.get key).isSome
  · rw [bucket_push coherent retained, if_pos rfl, List.length_append, List.length_singleton]
    exact ⟨by omega, by omega, fun _ => retained⟩
  · rw [Classical.not_imp, Option.not_isSome_iff_eq_none] at retained
    have fromDb : (access.read key).1 = access.db key := by
      rw [read, retained.2]
      cases access.db key <;> rfl
    have longer := grown key retained.1
    have stored : (access.push key item).bucket key = (access.db key).getD [] ++ [item] := by
      rw [bucket, CachedDbAccess.push, staged_write, update_self, fromDb]
      rfl
    rw [stored, List.length_append, List.length_singleton]
    exact ⟨by omega, by omega, fun eq => by omega⟩

theorem bucket_push_of_ne {other : Key} (ne : other ≠ key) (item : Item) :
    (access.push key item).bucket other = access.bucket other := by
  rw [bucket, CachedDbAccess.push, staged_write, (read_frame coherent key).1, update_of_ne ne]
  rfl

omit coherent in
theorem push_store (access : CachedDbAccess Key (List Item)) (key : Key) (item : Item) :
    (access.push key item).db = access.db ∧
      (access.push key item).batch.map Prod.fst = access.batch.map Prod.fst ++ [key] := by
  obtain ⟨sameDb, sameBatch, -⟩ := read_store access key
  refine ⟨sameDb, ?_⟩
  change ((access.read key).2.batch ++ [(key, _)]).map Prod.fst = _
  rw [sameBatch, List.map_append]
  rfl

theorem Grown.push (grown : access.Grown) (key : Key) (item : Item) :
    (access.push key item).Grown := by
  intro other touched
  obtain ⟨sameDb, batched⟩ := push_store access key item
  rw [sameDb]
  by_cases eq : other = key
  · rw [eq]
    exact (length_bucket_push coherent grown key item).1
  · rw [bucket_push_of_ne coherent eq]
    rw [batched, List.mem_append, List.mem_singleton] at touched
    exact grown other (touched.resolve_right eq)

/-- Every list that is pushed to ends up longer than the row in the database. -/
theorem length_lt_bucket_pushAll (grown : access.Grown) (items : List (Key × Item)) :
    ∀ key ∈ access.batch.map Prod.fst ++ items.map Prod.fst,
      ((access.db key).getD []).length < ((access.pushAll items).bucket key).length := by
  induction items generalizing access with
  | nil =>
    rw [List.map_nil, List.append_nil]
    exact grown
  | cons row rest ih =>
    obtain ⟨sameDb, batched⟩ := push_store access row.1 row.2
    have later := ih (coherent.push row.1 row.2) (grown.push coherent row.1 row.2)
    rwa [sameDb, batched, List.append_assoc] at later

/-- No list gains more items than were pushed to it, and when each gains as many,
the cache has retained those of the batch. -/
theorem length_bucket_pushAll (grown : access.Grown) (items : List (Key × Item)) :
    (∀ key, ((access.pushAll items).bucket key).length ≤
        (access.bucket key).length + (items.filter fun row => row.1 = key).length) ∧
      ((∀ key, ((access.pushAll items).bucket key).length =
        (access.bucket key).length + (items.filter fun row => row.1 = key).length) →
          access.Retains items) := by
  induction items generalizing access with
  | nil => exact ⟨fun _ => Nat.le_refl _, fun _ => trivial⟩
  | cons row rest ih =>
    obtain ⟨first, item⟩ := row
    obtain ⟨le, retains⟩ := ih (coherent.push first item) (grown.push coherent first item)
    obtain ⟨-, atMost, held⟩ := length_bucket_push coherent grown first item
    have counted (key : Key) : (((first, item) :: rest).filter fun row => row.1 = key).length =
        (if key = first then 1 else 0) + (rest.filter fun row => row.1 = key).length := by
      by_cases eq : key = first
      · subst eq
        rw [List.filter_cons_of_pos (by simp), List.length_cons, if_pos rfl, Nat.add_comm]
      · rw [List.filter_cons_of_neg (by simpa using Ne.symm eq), if_neg eq, Nat.zero_add]
    refine ⟨fun key => ?_, fun each => ⟨?_, retains fun key => ?_⟩⟩
    · have := le key
      rw [pushAll, counted]
      by_cases eq : key = first
      · subst eq
        rw [if_pos rfl]
        omega
      · rw [if_neg eq]
        rw [bucket_push_of_ne coherent eq] at this
        omega
    · have all := each first
      have := le first
      rw [pushAll, counted, if_pos rfl] at all
      exact held (by omega)
    · have all := each key
      have := le key
      rw [pushAll, counted] at all
      by_cases eq : key = first
      · subst eq
        rw [if_pos rfl] at all
        omega
      · rw [if_neg eq] at all
        rw [bucket_push_of_ne coherent eq] at this ⊢
        omega

theorem Coherent.pushAll (items : List (Key × Item)) : (access.pushAll items).Coherent := by
  induction items generalizing access with
  | nil => exact coherent
  | cons row rest ih => exact ih (coherent.push row.1 row.2)

end

theorem Coherent.flush (coherent : access.Coherent) : access.flush.Coherent :=
  ⟨coherent.disabled, coherent.agrees⟩

end CachedDbAccess
