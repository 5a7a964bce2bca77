import Sophis.Ghostdag

namespace Sophis

open Option

/-!
# Replaying block lists

A finite list of headers, parents first, gives a network of headers. Learning
the blocks of a list one by one is a run when every check of a step passes.
-/

/-- A header of a concrete network. -/
structure HeaderEntry where
  hash : Hash
  parents : List Hash
  bits : UInt32
  deriving DecidableEq

namespace HeaderEntry

def find (entries : List HeaderEntry) (hash : Hash) : Option HeaderEntry :=
  entries.find? fun entry => entry.hash = hash

def position (entries : List HeaderEntry) (hash : Hash) : Nat :=
  entries.findIdx fun entry => entry.hash = hash

def parentsOf (entries : List HeaderEntry) (hash : Hash) : List Hash :=
  ((find entries hash).map HeaderEntry.parents).getD []

/-- The parents of a listed header stand before it. -/
def Listed (entries : List HeaderEntry) : Prop := ∀ entry ∈ entries, ∀ parent ∈ entry.parents,
    position entries parent < position entries entry.hash

instance : DecidablePred Listed := fun entries =>
  inferInstanceAs (Decidable (∀ entry ∈ entries, ∀ parent ∈ entry.parents,
    position entries parent < position entries entry.hash))

theorem Listed.position_lt {entries : List HeaderEntry} (listed : Listed entries) (hash : Hash) :
    ∀ parent ∈ parentsOf entries hash, position entries parent < position entries hash := by
  intro parent edge
  rw [parentsOf] at edge
  cases got : find entries hash with
  | none =>
    rw [got] at edge
    cases edge
  | some entry =>
    rw [got] at edge
    have eq : entry.hash = hash := by simpa using List.find?_some got
    rw [← eq]
    exact listed entry (List.mem_of_find?_eq_some got) parent edge

def network (genesis : Hash) (bits : UInt32) (entries : List HeaderEntry)
    (k : UInt16) (listed : Listed (⟨genesis, [], bits⟩ :: entries))
    (notOrigin : genesis ≠ blockHashOrigin) : HeaderDag where
  parents := parentsOf (⟨genesis, [], bits⟩ :: entries)
  rank := position (⟨genesis, [], bits⟩ :: entries)
  rank_parent := listed.position_lt
  genesis
  genesis_parents := by simp [parentsOf, find]
  genesis_ne_origin := notOrigin
  bits hash := ((find (⟨genesis, [], bits⟩ :: entries) hash).map HeaderEntry.bits).getD 0
  k
  levelWork := 0

end HeaderEntry

namespace HeaderDag

variable (network : HeaderDag)

def searching (first second : Hash) : Bool := decide (network.Below first second)

theorem searching_exact (store : GhostdagStore) : network.Exact store network.searching :=
  fun _ _ _ _ => decide_eq_true_iff

def learn (store : GhostdagStore) (block : Hash) : Option GhostdagStore := do
  guard (block ∉ store.blocks ∧ block ≠ blockHashOrigin ∧ network.parents block ≠ [] ∧
    (∀ parent ∈ network.parents block, parent ∈ store.blocks) ∧
    network.Antichain (network.parents block))
  let data ← (network.manager store network.searching).ghostdag (network.parents block)
  return store.insert block data

def replay (blocks : List Hash) : Option GhostdagStore :=
  blocks.foldlM network.learn network.initialStore

variable {network} {store : GhostdagStore}

theorem Run.learn {next : GhostdagStore} (run : network.Run store) {block : Hash}
    (learnt : network.learn store block = some next) : network.Run next := by
  simp only [HeaderDag.learn, bind_eq_bind, bind_eq_some_iff,
    guard_eq_some', Option.pure_def, Option.some.injEq] at learnt
  obtain ⟨_, ⟨fresh, notOrigin, nonempty, known, antichain⟩, data, recorded, rfl⟩ := learnt
  exact .insert run fresh notOrigin ⟨nonempty, known, antichain⟩
    (network.searching_exact store) recorded

theorem run_of_replay {blocks : List Hash} (replayed : network.replay blocks = some store) :
    network.Run store := by
  have later : ∀ first, network.Run first → blocks.foldlM network.learn first = some store →
      network.Run store := by
    clear replayed
    induction blocks with
    | nil =>
      intro first run folded
      exact Option.some.inj folded ▸ run
    | cons block rest ih =>
      intro first run folded
      rw [List.foldlM_cons, bind_eq_bind, bind_eq_some_iff] at folded
      obtain ⟨next, learnt, folded⟩ := folded
      exact ih next (run.learn learnt) folded
  exact later _ .genesis replayed

end HeaderDag

end Sophis
