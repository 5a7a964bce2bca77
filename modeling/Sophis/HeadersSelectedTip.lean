import Mathlib.Data.List.Lex
import Mathlib.Data.Prod.Lex
import Mathlib.Order.Bounds.Basic
import Sophis.Transaction

namespace Sophis

open ByteCodec List

/-!
# The selected tip of the headers

`commit_header` makes a header the selected tip when it is heavier than the
old one, has the pruning point on its selected chain and reaches two floors.
The second floor is raised by `commit_virtual_state` to the work of virtual, a
block that no header describes.
-/

/-- A block with its blue work, a 192-bit number that is only compared
here. -/
structure SortableBlock where
  hash : Hash
  blueWork : Nat
  deriving Repr, DecidableEq

/-- Blocks are compared by blue work, then by the bytes of their hash. -/
def SortableBlock.key (block : SortableBlock) : Nat ×ₗ List Nat :=
  toLex (block.blueWork, block.hash.bytes.map UInt8.toNat)

instance : Preorder SortableBlock := Preorder.lift SortableBlock.key

instance (first second : SortableBlock) : Decidable (first < second) :=
  inferInstanceAs (Decidable (first.key < second.key))

theorem SortableBlock.le_of_not_lt {first second : SortableBlock} (notBelow : ¬ first < second) :
    second ≤ first :=
  not_lt.mp (show ¬ first.key < second.key from notBelow)

/-- A header that was processed. -/
structure CommittedHeader where
  hash : Hash
  selectedParent : Hash
  blueWork : Nat
  deriving Repr, DecidableEq

def CommittedHeader.sortable (header : CommittedHeader) : SortableBlock :=
  ⟨header.hash, header.blueWork⟩

/-- The committed headers, latest first, with the selected tip and the highest
work of a committed virtual state. -/
structure HeaderStores where
  headers : List CommittedHeader
  headersSelectedTip : SortableBlock
  maxChainWorkSeen : Nat
  deriving Repr, DecidableEq

def HeaderStores.hashes (stores : HeaderStores) : List Hash :=
  stores.headers.map CommittedHeader.hash

/-- Walks the selected chain of a header down to an ancestor. A parent is
committed before its children, so it is further down the list. -/
def isChainAncestorOf : List CommittedHeader → Hash → Hash → Bool
  | [], ancestor, queried => queried = ancestor
  | header :: older, ancestor, queried =>
    if queried = ancestor then true
    else if header.hash = queried then
      isChainAncestorOf older ancestor header.selectedParent
    else
      isChainAncestorOf older ancestor queried

variable (pruningPoint : Hash) (minChainWork : Nat)

def HeaderStores.commitHeader (stores : HeaderStores) (header : CommittedHeader) : HeaderStores :=
  let committed := { stores with headers := header :: stores.headers }
  if stores.headersSelectedTip < header.sortable ∧
      isChainAncestorOf committed.headers pruningPoint header.hash then
    if header.blueWork < minChainWork then committed
    else if header.blueWork < stores.maxChainWorkSeen then committed
    else { committed with headersSelectedTip := header.sortable }
  else
    committed

def updateMax (current candidate : Nat) : Nat := if candidate > current then candidate else current

def HeaderStores.commitVirtualState (stores : HeaderStores) (blueWork : Nat) : HeaderStores :=
  { stores with
    maxChainWorkSeen := updateMax stores.maxChainWorkSeen blueWork }

/-- What happens to the header stores. -/
inductive HeaderEvent where
  | commitHeader (header : CommittedHeader)
  | commitVirtualState (blueWork : Nat)
  deriving Repr, DecidableEq

def HeaderStores.step (stores : HeaderStores) : HeaderEvent → HeaderStores
  | .commitHeader header => stores.commitHeader pruningPoint minChainWork header
  | .commitVirtualState blueWork => stores.commitVirtualState blueWork

/-- A header is committed once, after its selected parent. -/
def HeaderEvent.Valid (stores : HeaderStores) : HeaderEvent → Prop
  | .commitHeader header => header.hash ∉ stores.hashes ∧ header.selectedParent ∈ stores.hashes
  | .commitVirtualState _ => True

/-- The interleavings of the commits of both processors. -/
inductive HeaderRun (start : HeaderStores) : List HeaderEvent → HeaderStores → Prop where
  | start : HeaderRun start [] start
  | step {history : List HeaderEvent} {stores : HeaderStores}
    (event : HeaderEvent) :
    HeaderRun start history stores →
    event.Valid stores →
    HeaderRun start (history ++ [event]) (stores.step pruningPoint minChainWork event)

variable {pruningPoint : Hash} {minChainWork : Nat} {start stores : HeaderStores}
  {history : List HeaderEvent}

@[simp] theorem HeaderStores.headers_commitHeader (stores : HeaderStores)
    (header : CommittedHeader) :
    (stores.commitHeader pruningPoint minChainWork header).headers = header :: stores.headers := by
  unfold commitHeader
  dsimp only
  split
  · split
    · rfl
    · split <;> rfl
  · rfl

@[simp] theorem HeaderStores.maxChainWorkSeen_commitHeader (stores : HeaderStores)
    (header : CommittedHeader) :
    (stores.commitHeader pruningPoint minChainWork
      header).maxChainWorkSeen = stores.maxChainWorkSeen := by
  unfold commitHeader
  dsimp only
  split
  · split
    · rfl
    · split <;> rfl
  · rfl

theorem updateMax_le_iff {current candidate bound : Nat} :
    updateMax current candidate ≤ bound ↔ current ≤ bound ∧ candidate ≤ bound := by
  unfold updateMax
  split <;> omega

open HeaderStores

theorem HeaderRun.maxChainWorkSeen_le_iff
    (run : HeaderRun pruningPoint minChainWork start history stores) (bound : Nat) :
    stores.maxChainWorkSeen ≤ bound ↔ start.maxChainWorkSeen ≤ bound ∧
      ∀ work, .commitVirtualState work ∈ history → work ≤ bound := by
  induction run with
  | start => simp
  | step event prior valid ih =>
    cases event with
    | commitHeader header => simp [HeaderStores.step, ih]
    | commitVirtualState blueWork =>
      simp only [HeaderStores.step, HeaderStores.commitVirtualState, updateMax_le_iff, ih,
        mem_append, mem_singleton, HeaderEvent.commitVirtualState.injEq]
      constructor
      · rintro ⟨⟨before, works⟩, last⟩
        refine ⟨before, fun work mem => ?_⟩
        rcases mem with listed | rfl
        · exact works work listed
        · exact last
      · rintro ⟨before, works⟩
        exact ⟨⟨before, fun work listed => works work (.inl listed)⟩, works blueWork (.inr rfl)⟩

variable {header : CommittedHeader}

theorem HeaderRun.hash_mem (run : HeaderRun pruningPoint minChainWork start history stores)
    (committed : .commitHeader header ∈ history) : header.hash ∈ stores.hashes := by
  induction run with
  | start => cases committed
  | step event prior valid ih =>
    rcases mem_append.mp committed with old | new
    · have kept := ih old
      cases event with
      | commitHeader later =>
        simp only [HeaderStores.step, HeaderStores.hashes,
          HeaderStores.headers_commitHeader, map_cons]
        exact mem_cons_of_mem _ kept
      | commitVirtualState blueWork => exact kept
    · cases mem_singleton.mp new
      simp [HeaderStores.step, HeaderStores.hashes]

theorem isChainAncestorOf_cons_of_ne {headers : List CommittedHeader} {ancestor queried : Hash}
    (ne : header.hash ≠ queried) :
    isChainAncestorOf (header :: headers) ancestor queried =
      isChainAncestorOf headers ancestor queried := by
  rw [isChainAncestorOf, if_neg ne]
  split
  · rename_i eq
    subst eq
    cases headers <;> simp [isChainAncestorOf]
  · rfl

section

/-- The headers committed in a history that have the pruning point on their
chain and reached both floors when they were committed: the configured one and
the work of every virtual state committed before. -/
def Promotable (pruningPoint : Hash) (minChainWork : Nat)
    (start stores : HeaderStores) (history : List HeaderEvent) :
    Set SortableBlock :=
  { block | ∃ before header after, history = before ++ .commitHeader header :: after ∧
    block = header.sortable ∧
    isChainAncestorOf stores.headers pruningPoint header.hash = true ∧
    minChainWork ≤ header.blueWork ∧
    start.maxChainWorkSeen ≤ header.blueWork ∧
    ∀ work, .commitVirtualState work ∈ before → work ≤ header.blueWork }

theorem HeaderStores.headersSelectedTip_commitHeader (stores : HeaderStores)
    (header : CommittedHeader) :
    (stores.commitHeader pruningPoint minChainWork header).headersSelectedTip =
      if stores.headersSelectedTip < header.sortable ∧
          isChainAncestorOf (header :: stores.headers) pruningPoint header.hash = true ∧
          minChainWork ≤ header.blueWork ∧
          stores.maxChainWorkSeen ≤ header.blueWork then
        header.sortable
      else
        stores.headersSelectedTip := by
  unfold commitHeader
  dsimp only
  by_cases heavier : stores.headersSelectedTip < header.sortable
  · by_cases onChain : isChainAncestorOf (header :: stores.headers) pruningPoint header.hash = true
    · by_cases configured : header.blueWork < minChainWork
      · simp [heavier, onChain, configured, Nat.not_le.mpr configured]
      · by_cases seen : header.blueWork < stores.maxChainWorkSeen
        · simp [heavier, onChain, configured, seen, Nat.not_le.mpr seen]
        · simp [heavier, onChain, configured, seen,
            Nat.le_of_not_lt configured, Nat.le_of_not_lt seen]
    · simp [onChain]
  · simp [heavier]

theorem mem_promotable_append {event : HeaderEvent} {block : SortableBlock} :
    block ∈ Promotable pruningPoint minChainWork start stores (history ++ [event]) ↔
      block ∈ Promotable pruningPoint minChainWork start stores history ∨
        ∃ header, event = .commitHeader header ∧ block = header.sortable ∧
          isChainAncestorOf stores.headers pruningPoint header.hash = true ∧
          minChainWork ≤ header.blueWork ∧
          start.maxChainWorkSeen ≤ header.blueWork ∧
          ∀ work, .commitVirtualState work ∈ history → work ≤ header.blueWork := by
  constructor
  · rintro ⟨before, header, after, split, eq, floors⟩
    rcases eq_nil_or_concat after with rfl | ⟨prior, last, rfl⟩
    · obtain ⟨rfl, new⟩ := append_inj' split rfl
      exact .inr ⟨header, head_eq_of_cons_eq new, eq, floors⟩
    · rw [concat_eq_append, ← cons_append, ← append_assoc] at split
      obtain ⟨rfl, -⟩ := append_inj' split rfl
      exact .inl ⟨before, header, prior, rfl, eq, floors⟩
  · rintro (⟨before, header, after, rfl, eq, floors⟩ | ⟨header, rfl, eq, floors⟩)
    · exact ⟨before, header, after ++ [event], by simp, eq, floors⟩
    · exact ⟨history, header, [], rfl, eq, floors⟩

variable {header : CommittedHeader}

theorem HeaderRun.promotable_commitHeader
    (run : HeaderRun pruningPoint minChainWork start history stores)
    (fresh : header.hash ∉ stores.hashes) :
    Promotable pruningPoint minChainWork start
        (stores.commitHeader pruningPoint minChainWork header) history =
      Promotable pruningPoint minChainWork start stores history := by
  ext block
  refine exists_congr fun before => exists_congr fun other =>
    exists_congr fun after => and_congr_right fun split => ?_
  have listed : .commitHeader other ∈ history := by simp [split]
  have kept := run.hash_mem listed
  have ne : header.hash ≠ other.hash := by
    rintro eq
    exact fresh (eq ▸ kept)
  rw [headers_commitHeader, isChainAncestorOf_cons_of_ne ne]

theorem isGreatest_commitVirtualState (blueWork : Nat)
    (greatest : IsGreatest (insert start.headersSelectedTip
        (Promotable pruningPoint minChainWork start stores history))
      stores.headersSelectedTip) :
    IsGreatest (insert start.headersSelectedTip (Promotable pruningPoint minChainWork start
        (stores.commitVirtualState blueWork) (history ++ [.commitVirtualState blueWork])))
      (stores.commitVirtualState blueWork).headersSelectedTip := by
  have eq : Promotable pruningPoint minChainWork start (stores.commitVirtualState blueWork)
        (history ++ [.commitVirtualState blueWork]) =
      Promotable pruningPoint minChainWork start stores history := by
    ext block
    rw [mem_promotable_append]
    simp [commitVirtualState, Promotable]
  rw [eq]
  exact greatest

theorem HeaderRun.isGreatest_commitHeader
    (run : HeaderRun pruningPoint minChainWork start history stores)
    (fresh : header.hash ∉ stores.hashes)
    (greatest : IsGreatest (insert start.headersSelectedTip
        (Promotable pruningPoint minChainWork start stores history))
      stores.headersSelectedTip) :
    IsGreatest (insert start.headersSelectedTip (Promotable pruningPoint minChainWork start
        (stores.commitHeader pruningPoint minChainWork header) (history ++ [.commitHeader header])))
      (stores.commitHeader pruningPoint minChainWork header).headersSelectedTip := by
  obtain ⟨mem, above⟩ := greatest
  have grown (block : SortableBlock) : block ∈ Promotable pruningPoint minChainWork start
        (stores.commitHeader pruningPoint minChainWork header)
        (history ++ [.commitHeader header]) ↔
      block ∈ Promotable pruningPoint minChainWork start stores history ∨
        block = header.sortable ∧ isChainAncestorOf (header :: stores.headers) pruningPoint
            header.hash = true ∧
          minChainWork ≤ header.blueWork ∧
          stores.maxChainWorkSeen ≤ header.blueWork := by
    rw [mem_promotable_append, run.promotable_commitHeader fresh,
      run.maxChainWorkSeen_le_iff header.blueWork]
    simp
  rw [headersSelectedTip_commitHeader]
  split
  · rename_i promoted
    refine ⟨.inr ((grown _).mpr (.inr ⟨rfl, promoted.2⟩)), ?_⟩
    rintro block (first | listed)
    · exact (above (.inl first)).trans promoted.1.le
    · rcases (grown block).mp listed with old | ⟨rfl, -⟩
      · exact (above (.inr old)).trans promoted.1.le
      · exact le_rfl
  · rename_i refused
    refine ⟨mem.imp_right fun old => (grown _).mpr (.inl old), ?_⟩
    rintro block (first | listed)
    · exact above (.inl first)
    · rcases (grown block).mp listed with old | ⟨rfl, floors⟩
      · exact above (.inr old)
      · exact SortableBlock.le_of_not_lt fun heavier => refused ⟨heavier, floors⟩

/-- After every interleaving the selected tip is the greatest of the first tip
and the promotable headers. -/
theorem headersSelectedTip_isGreatest (pruningPoint : Hash) (minChainWork : Nat)
    (start stores : HeaderStores) (history : List HeaderEvent)
    (run : HeaderRun pruningPoint minChainWork start history stores) :
    IsGreatest (insert start.headersSelectedTip
        (Promotable pruningPoint minChainWork start stores history))
      stores.headersSelectedTip := by
  induction run with
  | start =>
    refine ⟨Set.mem_insert _ _, fun block mem => ?_⟩
    rcases Set.mem_insert_iff.mp mem with rfl | ⟨_, _, _, split, _⟩
    · exact le_rfl
    · simp at split
  | step event prior valid ih =>
    cases event with
    | commitHeader header => exact prior.isGreatest_commitHeader valid.1 ih
    | commitVirtualState blueWork => exact isGreatest_commitVirtualState blueWork ih

end

/-!
Two tips on the genesis block that virtual merges, with blocks of one unit of
work each: virtual counts both, a block on one of them only that one.
-/

def headerHash (number : Nat) : Hash := FixedBytes.replicate 32 (UInt8.ofNat number)

def freshStores : HeaderStores where
  headers := [⟨headerHash 0, headerHash 255, 0⟩]
  headersSelectedTip := ⟨headerHash 0, 0⟩
  maxChainWorkSeen := 0

def mergedTips : List HeaderEvent := [.commitHeader ⟨headerHash 1, headerHash 0, 1⟩,
    .commitHeader ⟨headerHash 2, headerHash 0, 1⟩,
    .commitVirtualState 3]

def HeaderStores.afterAll (stores : HeaderStores) (history : List HeaderEvent) : HeaderStores :=
  history.foldl (HeaderStores.step (headerHash 0) 0) stores

theorem mergedTips_run :
    HeaderRun (headerHash 0) 0 freshStores mergedTips (freshStores.afterAll mergedTips) :=
  .step (.commitVirtualState 3) (.step (.commitHeader ⟨headerHash 2, headerHash 0, 1⟩)
      (.step (.commitHeader ⟨headerHash 1, headerHash 0, 1⟩) .start
        ⟨by decide +kernel, by decide +kernel⟩)
      ⟨by decide +kernel, by decide +kernel⟩)
    trivial

/-- A block that merges both tips carries the work of virtual and becomes the
selected tip. -/
theorem mergingHeader_selected : (freshStores.afterAll (mergedTips ++
        [.commitHeader ⟨headerHash 3, headerHash 2, 3⟩])).headersSelectedTip =
      ⟨headerHash 3, 3⟩ ∧
    IsGreatest (insert ⟨headerHash 0, 0⟩ (Promotable (headerHash 0) 0 freshStores
        (freshStores.afterAll (mergedTips ++ [.commitHeader ⟨headerHash 3, headerHash 2, 3⟩]))
        (mergedTips ++ [.commitHeader ⟨headerHash 3, headerHash 2, 3⟩])))
      ⟨headerHash 3, 3⟩ :=
  ⟨by decide +kernel, headersSelectedTip_isGreatest (headerHash 0) 0 freshStores _ _
    (.step _ mergedTips_run ⟨by decide +kernel, by decide +kernel⟩)⟩

/-- A block on one of the tips is heavier than the selected tip, and is
ignored. -/
theorem heavierHeader_ignored : HeaderRun (headerHash 0) 0 freshStores
      (mergedTips ++ [.commitHeader ⟨headerHash 3, headerHash 2, 2⟩])
      (freshStores.afterAll (mergedTips ++ [.commitHeader ⟨headerHash 3, headerHash 2, 2⟩])) ∧
    isChainAncestorOf (freshStores.afterAll (mergedTips ++
        [.commitHeader ⟨headerHash 3, headerHash 2, 2⟩])).headers
      (headerHash 0) (headerHash 3) = true ∧
    (freshStores.afterAll (mergedTips ++ [.commitHeader
        ⟨headerHash 3, headerHash 2, 2⟩])).headersSelectedTip <
      ⟨headerHash 3, 2⟩ :=
  ⟨.step _ mergedTips_run ⟨by decide +kernel, by decide +kernel⟩,
    by decide +kernel, by decide +kernel⟩

end Sophis
