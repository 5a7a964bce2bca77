import Sophis.AddressLookupTable
import Sophis.ContractData
import Sophis.DataCarrier
import Sophis.FirstWriterStore

namespace Sophis

open ByteCodec FirstWriterStore Function List MachineWord Option

/-!
# The stores that validation reads

The contract, lookup-table, data availability and selected-chain stores of
`consensus/src/model/stores` and `svm/runtime/src/db_store.rs`, as maps. A
read that finds no key is `none`; other database errors are left out.
-/

/-- The bytecode of deployed contracts. -/
abbrev ContractStore := ContractId → Option (List UInt8)

def ContractStore.deployIfAbsent (store : ContractStore) (id : ContractId)
    (wasm : List UInt8) : ContractStore :=
  putIfAbsent store id wasm

/-- A script in a table, with its version. -/
structure AltEntryRecord where
  spkVersion : UInt16
  spkScript : List UInt8
  deriving Repr, DecidableEq

/-- A table as it is stored. -/
structure AltEntry where
  handle : AltHandle
  entries : List AltEntryRecord
  creatingBlockHash : Hash
  creatingDaaScore : UInt64
  deriving Repr, DecidableEq

def AltEntry.entryCount (entry : AltEntry) : UInt16 := UInt16.ofNat entry.entries.length

/-- Lookup tables by handle. They are never removed. -/
abbrev AltStore := AltHandle → Option AltEntry

/-- What a block contributes to the tables. -/
structure AltCreationIndex where
  handle : AltHandle
  entry : AltEntry
  deriving Repr, DecidableEq

/-- Records the tables that a chain block creates. A handle that is already
known keeps its first creator. -/
def AltStore.indexAltCreations (store : AltStore) (creations : List AltCreationIndex) : AltStore :=
  putAllIfAbsent store (creations.map fun creation => (creation.handle, creation.entry))

/-- The hash of a carrier script. -/
abbrev PayloadId := FixedBytes 48

/-- What is stored about one carrier. -/
structure PayloadMeta where
  acceptingBlockHash : Hash
  blueScore : UInt64
  fragmentIndex : UInt8
  fragmentCount : UInt8
  bundleId : PayloadId
  deriving Repr, DecidableEq

/-- The count and the carriers of one bundle. -/
structure BundleIndex where
  fragmentCount : UInt8
  payloadIds : List PayloadId
  deriving Repr, DecidableEq

/-- What a block contributes to the carriers. -/
structure CarrierIndex where
  payloadId : PayloadId
  entry : PayloadMeta
  deriving Repr, DecidableEq

/-- Carriers by payload and by bundle. -/
structure DaStore where
  payloads : PayloadId → Option PayloadMeta
  bundles : PayloadId → Option BundleIndex
  byBlock : Hash → Option (List PayloadId)

namespace DaStore

def empty : DaStore := ⟨fun _ => none, fun _ => none, fun _ => none⟩

/-- The position of a fragment in its bundle; a fragment whose row is missing
goes last. -/
def fragmentPosition (store : DaStore) (carrier : CarrierIndex) (payload : PayloadId) : Nat :=
  if payload = carrier.payloadId then
    carrier.entry.fragmentIndex.toNat
  else
    match store.payloads payload with
    | some fragment => fragment.fragmentIndex.toNat
    | none => 2 ^ 32 - 1

/-- The bundle of a fragment after the fragment is added. The first fragment
of a bundle fixes how many there are. -/
def extendedBundle (store : DaStore) (carrier : CarrierIndex) : BundleIndex :=
  let bundle := (store.bundles carrier.entry.bundleId).getD ⟨carrier.entry.fragmentCount, []⟩
  { bundle with
    payloadIds := (bundle.payloadIds ++ [carrier.payloadId]).insertionSort fun first second =>
      store.fragmentPosition carrier first ≤ store.fragmentPosition carrier second }

/-- Records one fragment, unless its identifier is already known. -/
def indexCarrier (store : DaStore) (acceptingBlock : Hash) (carrier : CarrierIndex) : DaStore :=
  match store.payloads carrier.payloadId with
  | some _ => store
  | none =>
    { payloads := update store.payloads carrier.payloadId (some carrier.entry)
      bundles := update store.bundles carrier.entry.bundleId
        (some (store.extendedBundle carrier))
      byBlock := update store.byBlock acceptingBlock
        (some ((store.byBlock acceptingBlock).getD [] ++ [carrier.payloadId])) }

def indexCarrierBatch (store : DaStore) (acceptingBlock : Hash)
    (carriers : List CarrierIndex) : DaStore :=
  carriers.foldl (fun current => current.indexCarrier acceptingBlock) store

def prunePayload (store : DaStore) (payload : PayloadId) : DaStore :=
  match store.payloads payload with
  | none => store
  | some fragment =>
    let shrink (bundle : BundleIndex) : Option BundleIndex :=
      match bundle.payloadIds.filter (· ≠ payload) with
      | [] => none
      | remaining => some { bundle with payloadIds := remaining }
    { store with
      payloads := update store.payloads payload none
      bundles := update store.bundles fragment.bundleId
        ((store.bundles fragment.bundleId).bind shrink) }

def pruneBlockBatch (store : DaStore) (acceptingBlock : Hash) : DaStore :=
  match store.byBlock acceptingBlock with
  | none => store
  | some payloads =>
    let pruned := payloads.foldl prunePayload store
    { pruned with
      byBlock := update pruned.byBlock acceptingBlock none }

end DaStore

/-- The selected chain, indexed both ways. -/
structure SelectedChainStore where
  hashByIndex : UInt64 → Option Hash
  indexByHash : Hash → Option UInt64
  highestIndex : Option UInt64

/-- Blocks that leave the chain and blocks that join it. -/
structure ChainPath where
  removed : List Hash
  added : List Hash
  deriving Repr, DecidableEq

namespace SelectedChainStore

def getByHash (chain : SelectedChainStore) (hash : Hash) : Option UInt64 := chain.indexByHash hash

def getByIndex (chain : SelectedChainStore) (index : UInt64) : Option Hash :=
  chain.hashByIndex index

def getTip (chain : SelectedChainStore) : Option (UInt64 × Hash) := do
  let index ← chain.highestIndex
  let hash ← chain.hashByIndex index
  return (index, hash)

/-- Deletes a block from both maps, or aborts when it is not on the chain. -/
def remove (chain : SelectedChainStore) (hash : Hash) : Option SelectedChainStore := do
  let index ← chain.indexByHash hash
  return { chain with
    indexByHash := update chain.indexByHash hash none
    hashByIndex := update chain.hashByIndex index none }

def insertAt (chain : SelectedChainStore) (index : UInt64) (hash : Hash) : SelectedChainStore :=
  { chain with
    indexByHash := update chain.indexByHash hash (some index)
    hashByIndex := update chain.hashByIndex index (some hash) }

def insertFrom (chain : SelectedChainStore) : UInt64 → List Hash → SelectedChainStore
  | _, [] => chain
  | index, hash :: rest => (chain.insertAt index hash).insertFrom (index + 1) rest

/-- Moves the chain from one tip to another. A removed block that is not on
the chain, or an index outside the word range, aborts. -/
def applyChanges (chain : SelectedChainStore) (changes : ChainPath) :
    Option SelectedChainStore := do
  let highest ← chain.highestIndex
  guard (changes.removed.length ≤ highest.toNat)
  let split := highest - UInt64.ofNat changes.removed.length
  let newHighest ← checkedAdd (UInt64.ofNat changes.added.length) split
  let shortened ← changes.removed.foldlM remove chain
  let extended := shortened.insertFrom (split + 1) changes.added
  return { extended with highestIndex := some newHighest }

/-- Deletes the blocks below an index, down to the first gap. -/
def pruneBelowIndex (chain : SelectedChainStore) : Nat → SelectedChainStore
  | 0 => chain
  | index + 1 =>
    match chain.hashByIndex (UInt64.ofNat index) with
    | none => chain
    | some hash =>
      pruneBelowIndex { chain with
          hashByIndex := update chain.hashByIndex (UInt64.ofNat index) none
          indexByHash := update chain.indexByHash hash none }
        index

def pruneBelowPoint (chain : SelectedChainStore) (block : Hash) : Option SelectedChainStore := do
  let index ← chain.indexByHash block
  return chain.pruneBelowIndex index.toNat

def initWithPruningPoint (block : Hash) : SelectedChainStore where
  hashByIndex := fun index => if index = 0 then some block else none
  indexByHash := fun hash => if hash = block then some 0 else none
  highestIndex := some 0

variable {chain next : SelectedChainStore} {hash : Hash} {hashes : List Hash}

theorem isSome_getByHash_insertFrom_iff {index : UInt64} :
    ((chain.insertFrom index hashes).getByHash hash).isSome = true ↔
      (chain.getByHash hash).isSome = true ∨ hash ∈ hashes := by
  induction hashes generalizing chain index with
  | nil => simp [insertFrom]
  | cons first rest ih =>
    rw [insertFrom, ih]
    by_cases eq : hash = first
    · simp [insertAt, getByHash, eq]
    · simp [insertAt, getByHash, eq]

theorem getByHash_foldlM_remove (removed : hashes.foldlM remove chain = some next) :
    next.getByHash hash = if hash ∈ hashes then none else chain.getByHash hash := by
  induction hashes generalizing chain with
  | nil =>
    cases removed
    rfl
  | cons first rest ih =>
    rw [foldlM_cons, bind_eq_bind, bind_eq_some_iff] at removed
    obtain ⟨mid, once, others⟩ := removed
    obtain ⟨index, -, eq⟩ := bind_eq_some_iff.mp once
    cases eq
    rw [ih others]
    by_cases eq : hash = first
    · simp [getByHash, eq]
    · simp [getByHash, eq]

/-- A change of the tip has what it adds and keeps what it does not remove. -/
theorem isSome_getByHash_applyChanges_iff {changes : ChainPath}
    (ran : chain.applyChanges changes = some next) :
    (next.getByHash hash).isSome = true ↔
      (hash ∉ changes.removed ∧ (chain.getByHash hash).isSome = true) ∨ hash ∈ changes.added := by
  simp only [applyChanges, bind_eq_bind, bind_eq_some_iff] at ran
  obtain ⟨highest, -, ⟨⟩, -, newHighest, -, shortened, removed, eq⟩ := ran
  cases eq
  refine isSome_getByHash_insertFrom_iff.trans (or_congr_left ?_)
  rw [getByHash_foldlM_remove removed]
  by_cases gone : hash ∈ changes.removed
  · simp [gone]
  · simp [gone]

/-- Pruning keeps a block that is not stored below the index. -/
theorem getByHash_pruneBelowIndex {index : Nat}
    (above : ∀ lower < index, chain.getByIndex (UInt64.ofNat lower) ≠ some hash) :
    (chain.pruneBelowIndex index).getByHash hash = chain.getByHash hash := by
  induction index generalizing chain with
  | zero => rfl
  | succ index ih =>
    rw [pruneBelowIndex]
    cases kept : chain.hashByIndex (UInt64.ofNat index) with
    | none => rfl
    | some pruned =>
      have ne : hash ≠ pruned := fun eq =>
        above index (Nat.lt_succ_self index) (eq ▸ kept)
      refine (ih ?_).trans ?_
      · intro lower smaller got
        refine above lower (Nat.lt_succ_of_lt smaller) ?_
        by_cases eq : UInt64.ofNat lower = UInt64.ofNat index
        · simp [getByIndex, eq] at got
        · simpa [getByIndex, update_of_ne eq] using got
      · simp [getByHash, update_of_ne ne]

end SelectedChainStore

end Sophis
