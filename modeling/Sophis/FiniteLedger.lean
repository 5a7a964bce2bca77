import Mathlib.Data.Finmap
import Mathlib.Data.UInt

namespace FiniteLedger

open Finmap List Prod

/-!
# Ledgers of unspent items

A finite map from keys to items, the two moves on it (spending keys and
creating keyed items), and the exact weight of its entries.
-/

/-- Finitely many keys with a value each. -/
abbrev Ledger (κ ν : Type) := Finmap fun _ : κ => ν

variable {κ ν : Type} [DecidableEq κ]

/-- The sum of a weight over all entries, in any commutative monoid. -/
def weigh {M : Type*} [AddCommMonoid M] (weight : κ → ν → M) (ledger : Ledger κ ν) : M :=
  (ledger.entries.map fun entry => weight entry.1 entry.2).sum

def total (weight : ν → Nat) (ledger : Ledger κ ν) : Nat :=
  (ledger.entries.map fun entry => weight entry.2).sum

def spend (ledger : Ledger κ ν) (keys : List κ) : Ledger κ ν :=
  keys.foldl (fun current key => current.erase key) ledger

def create (ledger : Ledger κ ν) (items : List (κ × ν)) : Ledger κ ν :=
  items.foldl (fun current item => current.insert item.1 item.2) ledger

def post (ledger : Ledger κ ν) (spent created : List (κ × ν)) : Ledger κ ν :=
  create (spend ledger (spent.map Prod.fst)) created

section

theorem lookup_spend (ledger : Ledger κ ν) (keys : List κ) (key : κ) :
    (spend ledger keys).lookup key = if key ∈ keys then none else ledger.lookup key := by
  induction keys generalizing ledger with
  | nil => simp [spend]
  | cons first rest ih =>
    have step := ih (ledger.erase first)
    rw [spend, foldl_cons, ← spend, step]
    by_cases eq : key = first
    · subst eq
      simp
    · simp [eq, lookup_erase_ne eq]

variable {ledger : Ledger κ ν} {items : List (κ × ν)} {key : κ}

theorem lookup_create_of_notMem (absent : key ∉ items.map fst) :
    (create ledger items).lookup key = ledger.lookup key := by
  induction items generalizing ledger with
  | nil => rfl
  | cons item rest ih =>
    rw [map_cons, mem_cons, not_or] at absent
    rw [create, foldl_cons, ← create, ih absent.2, lookup_insert_of_ne _ absent.1]

theorem lookup_create_of_mem (nodup : (items.map fst).Nodup) {item : ν}
    (mem : (key, item) ∈ items) : (create ledger items).lookup key = some item := by
  induction items generalizing ledger with
  | nil => cases mem
  | cons first rest ih =>
    rw [map_cons, List.nodup_cons] at nodup
    rw [create, foldl_cons, ← create]
    rcases mem_cons.mp mem with rfl | later
    · rw [lookup_create_of_notMem nodup.1, lookup_insert]
    · exact ih nodup.2 later

theorem mem_create : key ∈ create ledger items ↔ key ∈ ledger ∨ key ∈ items.map fst := by
  induction items generalizing ledger with
  | nil => simp [create]
  | cons item rest ih =>
    rw [create, foldl_cons, ← create, ih, mem_insert, map_cons, mem_cons]
    constructor
    · rintro ((eq | old) | new)
      · exact .inr (.inl eq)
      · exact .inl old
      · exact .inr (.inr new)
    · rintro (old | eq | new)
      · exact .inl (.inr old)
      · exact .inl (.inl eq)
      · exact .inr new

theorem mem_spend {keys : List κ} : key ∈ spend ledger keys ↔ key ∈ ledger ∧ key ∉ keys := by
  rw [← lookup_isSome, ← lookup_isSome, lookup_spend]
  by_cases spent : key ∈ keys
  · simp [spent]
  · simp [spent]

variable {spent created : List (κ × ν)}

theorem mem_post : key ∈ post ledger spent created ↔ (key ∈ ledger ∧ key ∉ spent.map fst) ∨
    key ∈ created.map fst := by
  rw [post, mem_create, mem_spend]

/-- A move leaves the keys it does not name alone. -/
theorem lookup_post_of_notMem (notSpent : key ∉ spent.map fst)
    (notCreated : key ∉ created.map fst) :
    (post ledger spent created).lookup key = ledger.lookup key := by
  rw [post, lookup_create_of_notMem notCreated, lookup_spend, if_neg notSpent]

end

section

variable {M : Type*} [AddCommMonoid M] (weight : κ → ν → M) {ledger : Ledger κ ν} {key : κ}

theorem weigh_insert (absent : key ∉ ledger) (item : ν) :
    weigh weight (ledger.insert key item) = weight key item + weigh weight ledger := by
  rw [weigh, entries_insert_of_notMem absent, Multiset.map_cons, Multiset.sum_cons]
  rfl

theorem weigh_erase {item : ν} (present : ledger.lookup key = some item) :
    weight key item + weigh weight (ledger.erase key) = weigh weight ledger := by
  have restored : (ledger.erase key).insert key item = ledger := by
    refine ext_lookup fun other => ?_
    by_cases eq : other = key
    · subst eq
      rw [lookup_insert, present]
    · rw [lookup_insert_of_ne _ eq, lookup_erase_ne eq]
  rw [← weigh_insert weight notMem_erase_self, restored]

variable {spent : List (κ × ν)}

theorem weigh_spend (nodup : (spent.map fst).Nodup)
    (present : ∀ entry ∈ spent, ledger.lookup entry.1 = some entry.2) :
    (spent.map fun entry => weight entry.1 entry.2).sum +
        weigh weight (spend ledger (spent.map fst)) =
      weigh weight ledger := by
  induction spent generalizing ledger with
  | nil => simp [spend]
  | cons entry rest ih =>
    rw [map_cons, List.nodup_cons] at nodup
    have stillPresent : ∀ other ∈ rest, (ledger.erase entry.1).lookup other.1 = some other.2 := by
      intro other mem
      have ne : other.1 ≠ entry.1 := by
        rintro eq
        exact nodup.1 (eq ▸ List.mem_map_of_mem mem)
      rw [lookup_erase_ne ne]
      exact present other (mem_cons_of_mem _ mem)
    have tail := ih nodup.2 stillPresent
    have head := weigh_erase weight (present entry mem_cons_self)
    rw [map_cons, map_cons, sum_cons, spend, foldl_cons, ← spend, ← head, ← tail, add_assoc]

variable {created : List (κ × ν)}

theorem weigh_create (nodup : (created.map fst).Nodup)
    (fresh : ∀ entry ∈ created, entry.1 ∉ ledger) :
    weigh weight (create ledger created) = (created.map fun entry => weight entry.1 entry.2).sum +
      weigh weight ledger := by
  induction created generalizing ledger with
  | nil => simp [create]
  | cons entry rest ih =>
    rw [map_cons, List.nodup_cons] at nodup
    have stillFresh : ∀ other ∈ rest, other.1 ∉ ledger.insert entry.1 entry.2 := by
      intro other mem inserted
      rcases mem_insert.mp inserted with eq | old
      · exact nodup.1 (eq ▸ List.mem_map_of_mem mem)
      · exact fresh other (mem_cons_of_mem _ mem) old
    rw [create, foldl_cons, ← create, ih nodup.2 stillFresh,
      weigh_insert weight (fresh entry mem_cons_self), map_cons, sum_cons, add_left_comm, add_assoc]

/-- A move that spends distinct items of the ledger and creates items under
distinct fresh keys. -/
structure Admissible (ledger : Ledger κ ν) (spent created : List (κ × ν)) : Prop where
  spent_distinct : (spent.map Prod.fst).Nodup
  present : ∀ entry ∈ spent, ledger.lookup entry.1 = some entry.2
  created_distinct : (created.map Prod.fst).Nodup
  fresh : ∀ entry ∈ created, entry.1 ∉ ledger

/-- A move changes the weight by what it creates minus what it spends. -/
theorem weigh_post (admissible : Admissible ledger spent created) :
    (spent.map fun entry => weight entry.1 entry.2).sum + weigh weight (post ledger spent created) =
      (created.map fun entry => weight entry.1 entry.2).sum + weigh weight ledger := by
  have stillFresh : ∀ entry ∈ created, entry.1 ∉ spend ledger (spent.map fst) :=
    fun entry mem unspent => admissible.fresh entry mem (mem_spend.mp unspent).1
  have grown := weigh_create weight admissible.created_distinct stillFresh
  have shrunk := weigh_spend weight admissible.spent_distinct admissible.present
  rw [post, grown, ← shrunk, add_left_comm]

end

theorem lookup_post_eq_some {ledger : Ledger κ ν} {spent created : List (κ × ν)}
    (admissible : Admissible ledger spent created) {key : κ} {item : ν}
    (got : (post ledger spent created).lookup key = some item) :
    ledger.lookup key = some item ∨ (key, item) ∈ created := by
  by_cases new : key ∈ created.map fst
  · obtain ⟨entry, mem, rfl⟩ := List.mem_map.mp new
    have written : (post ledger spent created).lookup entry.1 = some entry.2 :=
      lookup_create_of_mem admissible.created_distinct mem
    cases got.symm.trans written
    exact .inr mem
  · rw [post, lookup_create_of_notMem new, lookup_spend] at got
    split at got
    · cases got
    · exact .inl got

end FiniteLedger
