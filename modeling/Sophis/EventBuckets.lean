import Sophis.CachedAccess
import Sophis.EventIndexing

namespace Sophis

open ByteCodec CachedDbAccess List

/-!
# The event store

`DbEventStore::index_events`: the events of a chain block are written under the
block and under their transactions, and a pointer to each is appended to the
bucket of its contract and to the bucket of each of its topics. All writes go
into one batch, so a bucket that two events share is read again before it has
reached the database.
-/

def eventsByContractBucketSize : UInt64 := 65536

def daaBucket (daaScore : UInt64) : UInt64 := daaScore / eventsByContractBucketSize

def contractBucketKey (contractId : ContractId) (daaScore : UInt64) : FixedBytes 40 where
  bytes := contractId.bytes ++ leBytes 8 (daaBucket daaScore).toNat
  length_bytes := by rw [length_append, contractId.length_bytes, length_leBytes]

def topicBucketKey (topic : EventTopic) (daaScore : UInt64) : FixedBytes 40 where
  bytes := topic.bytes ++ leBytes 8 (daaBucket daaScore).toNat
  length_bytes := by
    rw [length_append, topic.length_bytes, length_leBytes]
    rfl

/-- The key of a stored event. -/
structure EventLogPointer where
  blockHash : Hash
  logIndex : UInt32
  deriving Repr, DecidableEq

/-- Cached lists of pointers. -/
abbrev BucketAccess := CachedDbAccess (FixedBytes 40) (List EventLogPointer)

/-- The four stores of events. -/
structure EventStore where
  byBlock : CachedDbAccess Hash (List EventLog)
  byTx : CachedDbAccess TransactionId (List EventLog)
  byContract : BucketAccess
  byTopic : BucketAccess

/-- Neighbouring events of one transaction, with the group that is being
collected. -/
def groupByTx : Option (TransactionId × List EventLog) → List EventLog →
    List (TransactionId × List EventLog)
  | current, [] => current.toList
  | none, log :: rest => groupByTx (some (log.txId, [log])) rest
  | some (txId, logs), log :: rest =>
    if log.txId = txId then
      groupByTx (some (txId, logs ++ [log])) rest
    else
      (txId, logs) :: groupByTx (some (log.txId, [log])) rest

variable (acceptingBlockHash : Hash)

def EventLog.pointer (log : EventLog) : EventLogPointer := ⟨acceptingBlockHash, log.logIndex⟩

def EventStore.indexPointers (store : EventStore) (log : EventLog) : EventStore := { store with
    byContract := store.byContract.push (contractBucketKey log.contractId log.daaScore)
      (log.pointer acceptingBlockHash)
    byTopic := log.topics.foldl
      (fun byTopic topic => byTopic.push (topicBucketKey topic log.daaScore)
        (log.pointer acceptingBlockHash))
      store.byTopic }

/-- Stages the events of a block in all four stores. -/
def EventStore.indexEvents (store : EventStore) (events : List EventLog) : EventStore :=
  if events.isEmpty then
    store
  else
    let byBlock := store.byBlock.write acceptingBlockHash events
    let byTx := (groupByTx none events).foldl
      (fun byTx group => byTx.write group.1 group.2) store.byTx
    events.foldl (EventStore.indexPointers acceptingBlockHash) { store with byBlock, byTx }

/-- Writes the staged rows. -/
def EventStore.flush (store : EventStore) : EventStore where
  byBlock := store.byBlock.flush
  byTx := store.byTx.flush
  byContract := store.byContract.flush
  byTopic := store.byTopic.flush

def contractRows (events : List EventLog) : List (FixedBytes 40 × EventLogPointer) :=
  events.map fun log =>
    (contractBucketKey log.contractId log.daaScore, log.pointer acceptingBlockHash)

def topicRows (events : List EventLog) : List (FixedBytes 40 × EventLogPointer) :=
  events.flatMap fun log => log.topics.map fun topic =>
    (topicBucketKey topic log.daaScore, log.pointer acceptingBlockHash)

section

variable {acceptingBlockHash : Hash}

theorem foldl_push_topics (log : EventLog) (topics : List EventTopic) (byTopic : BucketAccess) :
    topics.foldl (fun byTopic topic => byTopic.push (topicBucketKey topic log.daaScore)
        (log.pointer acceptingBlockHash)) byTopic =
      byTopic.pushAll (topics.map fun topic =>
        (topicBucketKey topic log.daaScore, log.pointer acceptingBlockHash)) := by
  induction topics generalizing byTopic with
  | nil => rfl
  | cons topic rest ih =>
    rw [foldl_cons, ih]
    rfl

theorem foldl_indexPointers (events : List EventLog) (store : EventStore) :
    events.foldl (EventStore.indexPointers acceptingBlockHash) store = { store with
      byContract := store.byContract.pushAll (contractRows acceptingBlockHash events)
      byTopic := store.byTopic.pushAll (topicRows acceptingBlockHash events) } := by
  induction events generalizing store with
  | nil => rfl
  | cons log rest ih =>
    have rows : topicRows acceptingBlockHash (log :: rest) = (log.topics.map fun topic =>
          (topicBucketKey topic log.daaScore, log.pointer acceptingBlockHash)) ++
        topicRows acceptingBlockHash rest :=
      flatMap_cons
    rw [foldl_cons, ih, rows, pushAll_append, ← foldl_push_topics]
    rfl

def blockRows (acceptingBlockHash : Hash) (events : List EventLog) : List (Hash × List EventLog) :=
  if events.isEmpty then [] else [(acceptingBlockHash, events)]

theorem indexEvents_eq (store : EventStore) (acceptingBlockHash : Hash) (events : List EventLog) :
    store.indexEvents acceptingBlockHash events =
      ⟨store.byBlock.writeAll (blockRows acceptingBlockHash events),
        store.byTx.writeAll (groupByTx none events),
        store.byContract.pushAll (contractRows acceptingBlockHash events),
        store.byTopic.pushAll (topicRows acceptingBlockHash events)⟩ := by
  rw [EventStore.indexEvents, blockRows]
  split
  · rename_i isEmpty
    rw [isEmpty_iff.mp isEmpty]
    rfl
  · exact foldl_indexPointers events _

/-- The caches of the two bucket stores agree with the database, and no batch
is open. -/
structure EventStore.Settled (store : EventStore) : Prop where
  contractCache : store.byContract.Coherent
  topicCache : store.byTopic.Coherent
  noBatch : store.byContract.batch = [] ∧ store.byTopic.batch = []

def gained (key : FixedBytes 40) (rows : List (FixedBytes 40 × EventLogPointer)) :
    List EventLogPointer :=
  (rows.filter fun row => row.1 = key).map Prod.snd

section

variable {access : BucketAccess} (coherent : access.Coherent) (noBatch : access.batch = [])
include noBatch

theorem grown_of_noBatch : access.Grown := by
  intro key touched
  rw [noBatch] at touched
  cases touched

include coherent

/-- Each flushed bucket has gained its pointers exactly when the cache has
retained those of the batch. -/
theorem db_flush_pushAll_iff {rows : List (FixedBytes 40 × EventLogPointer)} :
    (∀ key, ((access.pushAll rows).flush.db key).getD [] =
      (access.db key).getD [] ++ gained key rows) ↔ access.Retains rows := by
  rw [← staged_of_noBatch noBatch]
  refine ⟨fun each => ?_, fun retained => bucket_pushAll coherent retained⟩
  refine (length_bucket_pushAll coherent (grown_of_noBatch noBatch) rows).2 fun key => ?_
  have appended := congrArg List.length (each key)
  rwa [length_append, gained, length_map] at appended

/-- The rows stay as they are only when no pointer is pushed. -/
theorem db_flush_pushAll_eq_iff {rows : List (FixedBytes 40 × EventLogPointer)} :
    (access.pushAll rows).flush.db = access.db ↔ rows = [] := by
  refine ⟨fun same => ?_, fun none => ?_⟩
  · by_contra nonempty
    obtain ⟨row, mem⟩ := exists_mem_of_ne_nil rows nonempty
    have longer := length_lt_bucket_pushAll coherent (grown_of_noBatch noBatch) rows row.1
      (mem_append_right _ (List.mem_map_of_mem mem))
    rw [← same] at longer
    exact Nat.lt_irrefl _ longer
  · subst none
    exact staged_of_noBatch noBatch

end

theorem EventStore.Settled.indexEvents {store : EventStore} (settled : store.Settled)
    (events : List EventLog) : (store.indexEvents acceptingBlockHash events).flush.Settled := by
  rw [indexEvents_eq]
  exact ⟨(settled.contractCache.pushAll _).flush, (settled.topicCache.pushAll _).flush, rfl, rfl⟩

/-- The flushed buckets hold what they held and one pointer for each event, and
for each topic of each event, exactly when no bucket of the batch leaves its
cache before it is read again. -/
theorem indexEvents_keeps_pointers (store : EventStore) (acceptingBlockHash : Hash)
    (events : List EventLog) (settled : store.Settled) :
    let flushed := (store.indexEvents acceptingBlockHash events).flush
    (((∀ key, (flushed.byContract.db key).getD [] = (store.byContract.db key).getD [] ++
        gained key (contractRows acceptingBlockHash events)) ∧
      ∀ key, (flushed.byTopic.db key).getD [] = (store.byTopic.db key).getD [] ++
        gained key (topicRows acceptingBlockHash events)) ↔
      store.byContract.Retains (contractRows acceptingBlockHash events) ∧
        store.byTopic.Retains (topicRows acceptingBlockHash events)) ∧
      flushed.Settled := by
  refine ⟨?_, settled.indexEvents events⟩
  rw [indexEvents_eq]
  exact and_congr (db_flush_pushAll_iff settled.contractCache settled.noBatch.1)
    (db_flush_pushAll_iff settled.topicCache settled.noBatch.2)

end

/-- The pointers of a range of scores. A row that is read may enter the cache,
which the reads after it do not notice. -/
def BucketAccess.range (access : BucketAccess) (key : UInt64 → FixedBytes 40)
    (fromDaa toDaa : UInt64) : List EventLogPointer :=
  if toDaa < fromDaa then
    []
  else
    (List.range' (daaBucket fromDaa).toNat
        ((daaBucket toDaa).toNat + 1 - (daaBucket fromDaa).toNat)).flatMap fun bucket =>
      (access.read (key (UInt64.ofNat bucket * eventsByContractBucketSize))).1.getD []

def EventStore.pointersByContractRange (store : EventStore) (contractId : ContractId) :
    UInt64 → UInt64 → List EventLogPointer :=
  store.byContract.range (contractBucketKey contractId)

def EventStore.pointersByTopicRange (store : EventStore) (topic : EventTopic) :
    UInt64 → UInt64 → List EventLogPointer :=
  store.byTopic.range (topicBucketKey topic)

/-- The caches of the rows agree with the database, and no batch is open. -/
structure EventStore.AtRest (store : EventStore) : Prop where
  blockCache : store.byBlock.Coherent
  txCache : store.byTx.Coherent
  noBatch : store.byBlock.batch = [] ∧ store.byTx.batch = []

theorem EventStore.AtRest.indexEvents {store : EventStore} (atRest : store.AtRest) (block : Hash)
    (events : List EventLog) : (store.indexEvents block events).flush.AtRest := by
  rw [indexEvents_eq]
  exact ⟨(atRest.blockCache.writeAll _).flush, (atRest.txCache.writeAll _).flush, rfl, rfl⟩

/-- The row of a block, read through the cache, is the one that the commit of a
chain block writes. -/
theorem EventStore.AtRest.byBlock_indexEvents {store : EventStore} (atRest : store.AtRest)
    (block : Hash) (events : List EventLog) :
    (fun hash => ((store.indexEvents block events).flush.byBlock.read hash).1.getD []) =
      Sophis.indexEvents (fun hash => (store.byBlock.read hash).1.getD []) block events := by
  have rests := atRest.indexEvents block events
  funext hash
  rw [read_of_noBatch rests.blockCache rests.noBatch.1, indexEvents_eq, Sophis.indexEvents,
    blockRows]
  change ((store.byBlock.writeAll _).staged hash).getD [] = _
  rw [staged_writeAll, staged_of_noBatch atRest.noBatch.1]
  split
  · simp [applyRows, read_of_noBatch atRest.blockCache atRest.noBatch.1]
  · by_cases eq : hash = block
    · simp [applyRows, eq]
    · simp [applyRows, eq, read_of_noBatch atRest.blockCache atRest.noBatch.1]

/-- A second call with the same events leaves the rows of the blocks and of the
transactions as they are. It leaves the buckets as they are only when there are
no events, whatever the caches keep. -/
theorem indexEvents_again (store : EventStore) (settled : store.Settled) (atRest : store.AtRest)
    (block : Hash) (events : List EventLog) :
    let once := (store.indexEvents block events).flush
    let twice := (once.indexEvents block events).flush
    (∀ hash, (twice.byBlock.read hash).1 = (once.byBlock.read hash).1) ∧
      (∀ txId, (twice.byTx.read txId).1 = (once.byTx.read txId).1) ∧
      (((∀ key, (twice.byContract.read key).1 = (once.byContract.read key).1) ∧
        ∀ key, (twice.byTopic.read key).1 = (once.byTopic.read key).1) ↔ events = []) := by
  intro once twice
  have rests : once.AtRest := atRest.indexEvents block events
  have settles : once.Settled := settled.indexEvents events
  have restsTwice : twice.AtRest := rests.indexEvents block events
  have settlesTwice : twice.Settled := settles.indexEvents events
  have written : once = _ := congrArg EventStore.flush (indexEvents_eq store block events)
  have rewritten : twice = _ := congrArg EventStore.flush (indexEvents_eq once block events)
  refine ⟨fun hash => ?_, fun txId => ?_, ?_⟩
  · rw [read_of_noBatch restsTwice.blockCache restsTwice.noBatch.1,
      read_of_noBatch rests.blockCache rests.noBatch.1, rewritten, written]
    exact congrFun (writeAll_twice _ _) hash
  · rw [read_of_noBatch restsTwice.txCache restsTwice.noBatch.2,
      read_of_noBatch rests.txCache rests.noBatch.2, rewritten, written]
    exact congrFun (writeAll_twice _ _) txId
  simp only [read_of_noBatch settlesTwice.contractCache settlesTwice.noBatch.1,
    read_of_noBatch settles.contractCache settles.noBatch.1,
    read_of_noBatch settlesTwice.topicCache settlesTwice.noBatch.2,
    read_of_noBatch settles.topicCache settles.noBatch.2, ← funext_iff]
  rw [rewritten]
  have contracts := @db_flush_pushAll_eq_iff _ settles.contractCache settles.noBatch.1
    (contractRows block events)
  have topics := @db_flush_pushAll_eq_iff _ settles.topicCache settles.noBatch.2
    (topicRows block events)
  refine (and_congr contracts topics).trans ⟨fun none => map_eq_nil_iff.mp none.1, ?_⟩
  rintro rfl
  exact ⟨rfl, rfl⟩

section

/-- Drops the rows of a block and of all transactions that its row names. -/
def EventStore.forgetBlockIndex (store : EventStore) (blockHash : Hash) : EventStore :=
  match store.byBlock.read blockHash with
  | (none, byBlock) => { store with byBlock }
  | (some logs, byBlock) => { store with
    byBlock := byBlock.delete blockHash
    byTx := store.byTx.deleteExisting (logs.map EventLog.txId).dedup }

/-- The calls that change the event store. -/
inductive EventCall where
  | index (blockHash : Hash) (events : List EventLog)
  | forget (blockHash : Hash)
  deriving Repr, DecidableEq

def EventStore.call (store : EventStore) : EventCall → EventStore
  | .index blockHash events => (store.indexEvents blockHash events).flush
  | .forget blockHash => store.forgetBlockIndex blockHash

/-- The block that indexed a transaction most recently. -/
def lastIndexedBy (txId : TransactionId) : List EventCall → Option Hash → Option Hash
  | [], last => last
  | .index blockHash events :: rest, last =>
    lastIndexedBy txId rest (if txId ∈ events.map EventLog.txId then some blockHash else last)
  | .forget _ :: rest, last => lastIndexedBy txId rest last

variable {store : EventStore} (atRest : store.AtRest)
include atRest

/-- A forgotten block takes the rows of its transactions with it and no other
row. -/
theorem EventStore.AtRest.forget (blockHash : Hash) : (store.forgetBlockIndex blockHash).AtRest ∧
    (∀ other ≠ blockHash, (store.forgetBlockIndex blockHash).byBlock.db other =
      store.byBlock.db other) ∧
    ∀ txId, (∀ logs, store.byBlock.db blockHash = some logs → txId ∉ logs.map EventLog.txId) →
      (store.forgetBlockIndex blockHash).byTx.db txId = store.byTx.db txId := by
  have row := read_of_noBatch atRest.blockCache atRest.noBatch.1 blockHash
  obtain ⟨sameDb, sameBatch, missing⟩ := read_store store.byBlock blockHash
  obtain ⟨sameStaged, disabled, agrees⟩ := read_frame atRest.blockCache blockHash
  rw [forgetBlockIndex]
  cases got : store.byBlock.read blockHash with
  | mk logs byBlock =>
    rw [got] at row sameDb sameBatch missing sameStaged disabled agrees
    cases logs with
    | none =>
      cases missing rfl
      exact ⟨⟨atRest.blockCache, atRest.txCache, atRest.noBatch⟩, fun _ _ => rfl, fun _ _ => rfl⟩
    | some logs =>
      have noBatch := sameBatch.trans atRest.noBatch.1
      obtain ⟨coherent, unbatched, deleted⟩ := deleteExisting_spec
        atRest.noBatch.2 atRest.txCache (logs.map EventLog.txId).dedup
      refine ⟨⟨coherent_delete noBatch disabled (sameStaged ▸ agrees), coherent,
        noBatch, unbatched⟩, fun other ne => ?_, fun txId foreign => ?_⟩
      · exact (Function.update_of_ne ne ..).trans (congrFun sameDb other)
      · rw [deleted, if_neg (mt mem_dedup.mp (foreign logs row.symm))]

theorem EventStore.AtRest.call (call : EventCall) : (store.call call).AtRest := by
  cases call with
  | index blockHash events => exact atRest.indexEvents blockHash events
  | forget blockHash => exact (atRest.forget blockHash).1

end

/-- After any calls, forgetting a block keeps the rows of the other blocks. When no
other block has indexed one of its transactions since, it also keeps the rows of
all transactions that were indexed by others. -/
theorem forgetBlockIndex_frame (start : EventStore) (atRest : start.AtRest) (calls : List EventCall)
    (blockHash : Hash) :
    let store := calls.foldl EventStore.call start
    let forgotten := store.forgetBlockIndex blockHash
    (∀ other ≠ blockHash, (forgotten.byBlock.read other).1 = (store.byBlock.read other).1) ∧
      ((∀ logs, (store.byBlock.read blockHash).1 = some logs → ∀ log ∈ logs,
          lastIndexedBy log.txId calls none = some blockHash) →
        ∀ txId, lastIndexedBy txId calls none ≠ some blockHash →
          (forgotten.byTx.read txId).1 = (store.byTx.read txId).1) := by
  intro store forgotten
  have rests : store.AtRest := by
    clear forgotten
    induction calls generalizing start with
    | nil => exact atRest
    | cons call rest ih => exact ih _ (atRest.call call)
  obtain ⟨forgottenRests, blocks, txs⟩ := rests.forget blockHash
  refine ⟨fun other ne => ?_, fun own txId foreign => ?_⟩
  · rw [read_of_noBatch forgottenRests.blockCache forgottenRests.noBatch.1,
      read_of_noBatch rests.blockCache rests.noBatch.1, blocks other ne]
  · rw [read_of_noBatch forgottenRests.txCache forgottenRests.noBatch.2,
      read_of_noBatch rests.txCache rests.noBatch.2]
    refine txs txId fun logs row mem => ?_
    obtain ⟨log, isLog, rfl⟩ := List.mem_map.mp mem
    rw [read_of_noBatch rests.blockCache rests.noBatch.1] at own
    exact foreign (own logs row log isLog)

def freshEventStore (policy : CachePolicy) : EventStore where
  byBlock := ⟨policy, List.length, fun _ => none, [], ⟨[], 0⟩, []⟩
  byTx := ⟨policy, List.length, fun _ => none, [], ⟨[], 0⟩, []⟩
  byContract := ⟨policy, List.length, fun _ => none, [], ⟨[], 0⟩, []⟩
  byTopic := ⟨policy, List.length, fun _ => none, [], ⟨[], 0⟩, []⟩

theorem freshEventStore_settled (policy : CachePolicy) : (freshEventStore policy).Settled where
  contractCache := ⟨fun _ => rfl, forall_mem_nil _⟩
  topicCache := ⟨fun _ => rfl, forall_mem_nil _⟩
  noBatch := ⟨rfl, rfl⟩

theorem freshEventStore_atRest (policy : CachePolicy) : (freshEventStore policy).AtRest where
  blockCache := ⟨fun _ => rfl, forall_mem_nil _⟩
  txCache := ⟨fun _ => rfl, forall_mem_nil _⟩
  noBatch := ⟨rfl, rfl⟩

def contractEvent (logIndex : UInt32) : EventLog where
  contractId := FixedBytes.replicate 32 7
  topics := [FixedBytes.replicate topicLen 3]
  data := []
  blockHash := FixedBytes.replicate 32 1
  txId := FixedBytes.replicate 32 2
  txIndex := 0
  logIndex
  daaScore := 100

def eventBlock : Hash := FixedBytes.replicate 32 1

def contractEventKey : FixedBytes 40 := contractBucketKey (FixedBytes.replicate 32 7) 100

theorem countedCache_keeps_pointers : ((((freshEventStore (.count 64)).indexEvents eventBlock
      [contractEvent 0, contractEvent 1]).flush).byContract.db contractEventKey).getD [] =
    [⟨eventBlock, 0⟩, ⟨eventBlock, 1⟩] :=
  (((indexEvents_keeps_pointers (freshEventStore (.count 64)) eventBlock
    [contractEvent 0, contractEvent 1] (freshEventStore_settled _)).1.mpr
    ⟨⟨by decide, by decide, trivial⟩, ⟨by decide, by decide, trivial⟩⟩).1
    contractEventKey).trans (by decide)

/-- Without a cache the second event of a contract overwrites the pointer to
the first. -/
theorem disabledCache_loses_pointer :
    (freshEventStore .empty).Settled ∧ ((((freshEventStore .empty).indexEvents eventBlock
      [contractEvent 0, contractEvent 1]).flush).byContract.db contractEventKey).getD [] =
      [⟨eventBlock, 1⟩] :=
  ⟨freshEventStore_settled _, by decide⟩

def indexedStore : EventStore :=
  ((freshEventStore (.count 64)).indexEvents eventBlock [contractEvent 0]).flush

theorem indexedStore_rows_again :
    ((indexedStore.indexEvents eventBlock [contractEvent 0]).flush.byTx.read
      (contractEvent 0).txId).1 = some [contractEvent 0] :=
  ((indexEvents_again _ (freshEventStore_settled _) (freshEventStore_atRest _) eventBlock
    [contractEvent 0]).2.1 _).trans (by decide)

/-- A block that is accepted again leaves each of its pointers twice. -/
theorem indexedStore_pointers_repeated :
    let again := (indexedStore.indexEvents eventBlock [contractEvent 0]).flush
    again.pointersByContractRange (FixedBytes.replicate 32 7) 0 100 =
        [⟨eventBlock, 0⟩, ⟨eventBlock, 0⟩] ∧
      again.pointersByTopicRange (FixedBytes.replicate topicLen 3) 0 100 =
        [⟨eventBlock, 0⟩, ⟨eventBlock, 0⟩] := by
  decide

def siblingBlock : Hash := FixedBytes.replicate 32 9

theorem forgetting_sibling :
    ((((freshEventStore (.count 64)).call (.index eventBlock [contractEvent 0])).forgetBlockIndex
      siblingBlock).byTx.read (contractEvent 0).txId).1 = some [contractEvent 0] :=
  ((forgetBlockIndex_frame _ (freshEventStore_atRest _) [.index eventBlock [contractEvent 0]]
    siblingBlock).2 (by decide) _ (by decide)).trans (by decide)

/-- The row of a transaction that was accepted again by a sibling is lost with the
first block. -/
theorem forgetting_first_acceptance :
    let calls := [.index eventBlock [contractEvent 0], .index siblingBlock [contractEvent 0]]
    let store := calls.foldl EventStore.call (freshEventStore (.count 64))
    lastIndexedBy (contractEvent 0).txId calls none = some siblingBlock ∧
      (store.byTx.read (contractEvent 0).txId).1 = some [contractEvent 0] ∧
      ((store.forgetBlockIndex eventBlock).byTx.read (contractEvent 0).txId).1 = none := by
  decide

end Sophis
