import Mathlib.Logic.Function.Basic

namespace FirstWriterStore

open List

/-!
# Stores in which the first writer wins

A map from keys to values that ignores a write to a key it already holds.
After any sequence of writes a key holds its old value or, failing that, the
first value written to it.
-/

variable {κ ν : Type} [DecidableEq κ]

def putIfAbsent (store : κ → Option ν) (key : κ) (value : ν) : κ → Option ν := match store key with
  | some _ => store
  | none => Function.update store key (some value)

def putAllIfAbsent (store : κ → Option ν) (writes : List (κ × ν)) : κ → Option ν :=
  writes.foldl (fun current write => putIfAbsent current write.1 write.2) store

/-- The first value that a sequence of writes gives to a key. -/
def firstWritten (writes : List (κ × ν)) (key : κ) : Option ν :=
  writes.findSome? fun write => if write.1 = key then some write.2 else none

section

variable (store : κ → Option ν)
include store

theorem putIfAbsent_apply (key other : κ) (value : ν) : putIfAbsent store key value other =
    (store other).or (if key = other then some value else none) := by
  by_cases eq : key = other
  · subst eq
    cases present : store key with
    | none | some => simp [putIfAbsent, present]
  · cases present : store key with
    | none => simp [putIfAbsent, present, eq, Function.update_of_ne (Ne.symm eq)]
    | some old => simp [putIfAbsent, present, eq]

theorem putAllIfAbsent_apply (writes : List (κ × ν)) (key : κ) :
    putAllIfAbsent store writes key = (store key).or (firstWritten writes key) := by
  induction writes generalizing store with
  | nil => simp [putAllIfAbsent, firstWritten]
  | cons write rest ih =>
    have step := ih (putIfAbsent store write.1 write.2)
    rw [putIfAbsent_apply] at step
    by_cases eq : write.1 = key
    · simpa [putAllIfAbsent, firstWritten, findSome?_cons, eq] using step
    · simpa [putAllIfAbsent, firstWritten, findSome?_cons, eq] using step

end

variable {writes : List (κ × ν)} {key : κ}

/-- A sequence of writes that gives a key a value contains that write. -/
theorem mem_of_firstWritten {value : ν} (got : firstWritten writes key = some value) :
    (key, value) ∈ writes := by
  obtain ⟨write, mem, matched⟩ := exists_of_findSome?_eq_some got
  split at matched
  · rename_i eq
    rw [← eq, ← Option.some.inj matched]
    exact mem
  · cases matched

/-- A key has a value exactly when something was written to it. -/
theorem firstWritten_isSome_iff : (firstWritten writes key).isSome ↔ key ∈ writes.map Prod.fst := by
  simp [firstWritten, findSome?_isSome_iff]

end FirstWriterStore
