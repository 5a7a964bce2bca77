import Sophis.ScoredPatch
import Sophis.UtxoDiff

namespace Sophis

open AList ExceptLoop FiniteLedger Option ScoredPatch UtxoCollection UtxoDiff UtxoEntry

/-!
# The algebra of UTXO differences

`with_diff_in_place` and `diff_from` of `consensus/core/src/utxo/utxo_diff.rs`
with the collection operations of `utxo_collection.rs`. The operations tell
the entries of one outpoint apart by their DAA scores.
-/

namespace UtxoCollection

variable (this other result remainder : UtxoCollection)

def intersects : Bool :=
  if this.entries.length ≤ other.entries.length then
    this.keys.any fun outpoint => outpoint ∈ other
  else
    other.keys.any fun outpoint => outpoint ∈ this

/-- The first outpoint of both collections that satisfies a rule. The shorter
collection is searched. -/
def intersectsWithRule (rule : TransactionOutpoint → UtxoEntry → UtxoEntry → Bool) :
    Option TransactionOutpoint :=
  if this.entries.length ≤ other.entries.length then
    (this.entries.find? fun item => (other.lookup item.1).any (rule item.1 item.2)).map Sigma.fst
  else
    (other.entries.find? fun item =>
      (this.lookup item.1).any fun own => rule item.1 own item.2).map Sigma.fst

def removeCollection : UtxoCollection :=
  eraseAll this other

/-- Whether the other collection has the outpoint of an entry with its DAA
score. -/
def alsoIn (outpoint : TransactionOutpoint) (entry : UtxoEntry) : Bool :=
  other.containsWithDaaScore outpoint entry.blockDaaScore

def intersectionWithRemainderHavingDaaScore : UtxoCollection × UtxoCollection :=
  insertPartition (alsoIn other) this result remainder

def subtractionHavingDaaScore : UtxoCollection :=
  insertWhere (fun outpoint entry => !alsoIn other outpoint entry) this result

def subtractionWithRemainderHavingDaaScore : UtxoCollection × UtxoCollection :=
  insertPartition (fun outpoint entry => !alsoIn other outpoint entry) this result remainder

end UtxoCollection

/-- Stops at an offending outpoint. -/
def failOn (offending : Option TransactionOutpoint)
    (error : TransactionOutpoint → UtxoAlgebraError) :
    Except UtxoAlgebraError Unit :=
  match offending with
  | some outpoint => .error (error outpoint)
  | none => .ok ()

namespace UtxoDiff

/-- The difference read backwards. -/
def asReversed (diff : UtxoDiff) : UtxoDiff :=
  ⟨diff.remove, diff.add⟩

variable (self other : UtxoDiff)

/-- Applies another difference on top of this one. -/
def withDiffInPlace : Except UtxoAlgebraError UtxoDiff := do
  failOn
    (other.remove.intersectsWithRule self.remove fun outpoint entryToAdd _ =>
      !self.add.containsWithDaaScore outpoint entryToAdd.blockDaaScore)
    .duplicateRemovePoint
  failOn
    (other.add.intersectsWithRule self.add fun outpoint _ existingEntry =>
      !other.remove.containsWithDaaScore outpoint existingEntry.blockDaaScore)
    .duplicateAddPoint
  -- What is neither in `add` nor in `remove` goes to `remove`.
  let (intersection, remove) :=
    other.remove.intersectionWithRemainderHavingDaaScore self.add ∅ self.remove
  let add := self.add.removeCollection intersection
  -- What is not in `remove` with the same score goes to `add`.
  let (intersection, add) := other.add.intersectionWithRemainderHavingDaaScore remove ∅ add
  let remove := remove.removeCollection intersection
  return ⟨add, remove⟩

/-- The difference that leads from this difference to another one of the same
base. -/
def diffFrom : Except UtxoAlgebraError UtxoDiff := do
  failOn
    (self.remove.intersectsWithRule other.add fun outpoint thisEntry otherEntry =>
      !(otherEntry.blockDaaScore ≠ thisEntry.blockDaaScore &&
        (self.add.containsWithDaaScore outpoint otherEntry.blockDaaScore ||
          other.remove.containsWithDaaScore outpoint thisEntry.blockDaaScore)))
    (.diffIntersectionPoint · "both in self.add and in other.remove")
  failOn
    (self.add.intersectsWithRule other.remove fun outpoint thisEntry otherEntry =>
      !(otherEntry.blockDaaScore ≠ thisEntry.blockDaaScore &&
        (self.remove.containsWithDaaScore outpoint otherEntry.blockDaaScore ||
          other.add.containsWithDaaScore outpoint thisEntry.blockDaaScore)))
    (.diffIntersectionPoint · "both in self.remove and in other.add")
  failOn
    (self.remove.intersectsWithRule other.remove fun _ thisEntry otherEntry =>
      otherEntry.blockDaaScore ≠ thisEntry.blockDaaScore)
    (.diffIntersectionPoint ·
      "both in self.remove and other.remove with different DAA scores, with no corresponding entry in self.add")
  let (remove, inBothToAdd) := self.add.subtractionWithRemainderHavingDaaScore other.add ∅ ∅
  reject (inBothToAdd.intersects self.remove ≠ inBothToAdd.intersects other.remove) (.general
      "diff_from: outpoint both in self.add, other.add, and only one of self.remove and other.remove")
  let remove := other.remove.subtractionHavingDaaScore self.remove remove
  let add := self.remove.subtractionHavingDaaScore other.remove ∅
  let add := other.add.subtractionHavingDaaScore self.add add
  return ⟨add, remove⟩

end UtxoDiff

/-- What a difference does at one outpoint. -/
def UtxoDiff.cell (diff : UtxoDiff) (outpoint : TransactionOutpoint) : Patch UtxoEntry :=
  ⟨diff.add.lookup outpoint, diff.remove.lookup outpoint⟩

theorem UtxoSet.lookup_withDiff_cell (base : UtxoSet) (diff : UtxoDiff)
    (key : TransactionOutpoint) :
    (base.withDiff diff).lookup key = (diff.cell key).apply (base.lookup key) := by
  simp only [UtxoSet.lookup_withDiff, compose, Patch.apply, cell]
  cases diff.add.lookup key with
  | some entry => rfl
  | none => exact if_congr lookup_isSome.symm rfl rfl

variable {this other : UtxoCollection}

theorem UtxoCollection.containsWithDaaScore_eq (collection : UtxoCollection)
    (key : TransactionOutpoint) (entry : UtxoEntry) :
    collection.containsWithDaaScore key entry.blockDaaScore =
      sameScore blockDaaScore (some entry) (collection.lookup key) :=
  rfl

theorem UtxoCollection.intersectsWithRule_eq_none_iff
    {rule : TransactionOutpoint → UtxoEntry → UtxoEntry → Bool} :
    this.intersectsWithRule other rule = none ↔
      ∀ key own foreign, this.lookup key = some own →
        other.lookup key = some foreign → rule key own foreign = false := by
  rw [intersectsWithRule]
  split
  · rw [map_eq_none_iff, find_entries_eq_none_iff]
    constructor
    · intro fails key own foreign got foundOther
      simpa [foundOther] using fails key own got
    · intro fails key own got
      cases foundOther : other.lookup key with
      | none => rfl
      | some foreign => exact fails key own foreign got foundOther
  · rw [map_eq_none_iff, find_entries_eq_none_iff]
    constructor
    · intro fails key own foreign got foundOther
      simpa [got] using fails key foreign foundOther
    · intro fails key foreign foundOther
      cases got : this.lookup key with
      | none => rfl
      | some own => exact fails key own foreign got foundOther

theorem UtxoCollection.intersects_eq_true_iff :
    this.intersects other = true ↔ ∃ key ∈ this, key ∈ other := by
  rw [intersects]
  split
  · simp [mem_keys]
  · simp [mem_keys, and_comm]

theorem failOn_eq_ok_iff {offending : Option TransactionOutpoint}
    {error : TransactionOutpoint → UtxoAlgebraError} :
    failOn offending error = .ok () ↔ offending = none := by
  cases offending <;> simp [failOn]

section

variable {self other : UtxoDiff}

/-- The collections after the two loops of `with_diff_in_place`. -/
def UtxoDiff.merged (self other : UtxoDiff) : UtxoDiff :=
  let (intersection, remove) :=
    other.remove.intersectionWithRemainderHavingDaaScore self.add ∅ self.remove
  let add := self.add.removeCollection intersection
  let (intersection, add) := other.add.intersectionWithRemainderHavingDaaScore remove ∅ add
  ⟨add, remove.removeCollection intersection⟩

theorem UtxoCollection.filter_not_alsoIn (this other : UtxoCollection)
    (key : TransactionOutpoint) :
    (this.lookup key).filter (fun entry => !alsoIn other key entry) =
      if sameScore blockDaaScore (this.lookup key) (other.lookup key) then none
      else this.lookup key := by
  cases this.lookup key with
  | none => rfl
  | some entry =>
    change (if (!alsoIn other key entry) = true then some entry else none) =
      if alsoIn other key entry = true then none else some entry
    cases alsoIn other key entry <;> rfl

theorem UtxoCollection.lookup_intersection (this other remainder : UtxoCollection)
    (key : TransactionOutpoint) : let split :=
      this.intersectionWithRemainderHavingDaaScore other ∅ remainder
    let shared := sameScore blockDaaScore (this.lookup key) (other.lookup key)
    (other.removeCollection split.1).lookup key = (if shared then none else other.lookup key) ∧
      split.2.lookup key = if shared then remainder.lookup key
        else (this.lookup key).or (remainder.lookup key) := by
  simp only [intersectionWithRemainderHavingDaaScore, insertPartition_eq,
    removeCollection, lookup_eraseAll, ← lookup_isSome,
    lookup_insertWhere, lookup_empty, or_none, isSome_filter, filter_not_alsoIn]
  refine ⟨rfl, ?_⟩
  split <;> rfl

theorem UtxoDiff.cell_merged (self other : UtxoDiff) (key : TransactionOutpoint) :
    (self.merged other).cell key = (self.cell key).compose blockDaaScore
      (other.cell key) := by
  obtain ⟨firstAdd, firstRemove⟩ := lookup_intersection other.remove self.add self.remove key
  obtain ⟨secondRemove, secondAdd⟩ := lookup_intersection other.add
      (other.remove.intersectionWithRemainderHavingDaaScore self.add ∅ self.remove).2
      (self.add.removeCollection (other.remove.intersectionWithRemainderHavingDaaScore self.add ∅
        self.remove).1)
      key
  rw [firstRemove] at secondRemove secondAdd
  rw [firstAdd] at secondAdd
  exact congrArg₂ Patch.mk secondAdd secondRemove

/-- The checks of `with_diff_in_place`, at every outpoint. -/
theorem UtxoDiff.withDiffInPlace_eq_ok_iff {composed : UtxoDiff} :
    self.withDiffInPlace other = .ok composed ↔
      (∀ key, (self.cell key).Composable blockDaaScore
        (other.cell key)) ∧ composed = self.merged other := by
  have unfolded : self.withDiffInPlace other = (failOn _ _ >>= fun _ => failOn _ _ >>= fun _ =>
      Except.ok (self.merged other)) :=
    rfl
  simp only [unfolded, bind_eq_ok, check_eq_ok, failOn_eq_ok_iff,
    intersectsWithRule_eq_none_iff, containsWithDaaScore_eq,
    Bool.not_eq_false', Except.ok.injEq]
  constructor
  · rintro ⟨removals, additions, eq⟩
    refine ⟨fun key => ⟨fun removes removed => ?_, fun adds added => ?_⟩, eq.symm⟩
    · obtain ⟨entry, got⟩ := isSome_iff_exists.mp removes
      obtain ⟨old, foundOld⟩ := isSome_iff_exists.mp removed
      rw [got]
      exact removals key entry old got foundOld
    · obtain ⟨entry, got⟩ := isSome_iff_exists.mp adds
      obtain ⟨old, foundOld⟩ := isSome_iff_exists.mp added
      rw [foundOld]
      exact additions key entry old got foundOld
  · rintro ⟨composable, rfl⟩
    refine ⟨fun key entry old got foundOld => ?_, fun key entry old got foundOld => ?_, rfl⟩
    · have shared := (composable key).removals (isSome_of_eq_some got) (isSome_of_eq_some foundOld)
      rwa [cell, got] at shared
    · have shared := (composable key).additions (isSome_of_eq_some got) (isSome_of_eq_some foundOld)
      rwa [cell, foundOld] at shared

end

section

/-- The entries of both added collections, with one score. -/
def UtxoDiff.inBothToAdd (self other : UtxoDiff) : UtxoCollection :=
  (self.add.subtractionWithRemainderHavingDaaScore other.add ∅ ∅).2

/-- The collections that `diff_from` fills. -/
def UtxoDiff.separated (self other : UtxoDiff) : UtxoDiff where
  add := other.add.subtractionHavingDaaScore self.add
    (self.remove.subtractionHavingDaaScore other.remove ∅)
  remove := other.remove.subtractionHavingDaaScore self.remove
    (self.add.subtractionWithRemainderHavingDaaScore other.add ∅ ∅).1

theorem UtxoDiff.cell_separated (self other : UtxoDiff) (key : TransactionOutpoint) :
    (self.separated other).cell key = (self.cell key).difference blockDaaScore
      (other.cell key) := by
  have first : (self.add.subtractionWithRemainderHavingDaaScore other.add ∅ ∅).1 =
      self.add.subtractionHavingDaaScore other.add ∅ := by
    rw [subtractionWithRemainderHavingDaaScore, insertPartition_eq, subtractionHavingDaaScore]
  rw [cell, separated, first]
  simp only [subtractionHavingDaaScore, lookup_insertWhere,
    filter_not_alsoIn, lookup_empty, or_none]
  rfl

variable {self other : UtxoDiff}

theorem UtxoDiff.mem_inBothToAdd_iff {key : TransactionOutpoint} :
    key ∈ self.inBothToAdd other ↔ sameScore blockDaaScore (self.cell key).add
      (other.cell key).add = true := by
  rw [inBothToAdd, subtractionWithRemainderHavingDaaScore, insertPartition_eq,
    ← lookup_isSome, lookup_insertWhere, lookup_empty, or_none, isSome_filter, cell]
  simp only [Bool.not_not]
  rfl

theorem UtxoDiff.diffFrom_eq_ok_iff {result : UtxoDiff} : self.diffFrom other = .ok result ↔
    (∀ key, (self.cell key).Separable blockDaaScore (other.cell key)) ∧
    (self.inBothToAdd other).intersects self.remove =
      (self.inBothToAdd other).intersects other.remove ∧
    result = self.separated other := by
  have unfolded : self.diffFrom other =
      (failOn _ _ >>= fun _ => failOn _ _ >>= fun _ => failOn _ _ >>= fun _ =>
        reject ((self.inBothToAdd other).intersects self.remove ≠
          (self.inBothToAdd other).intersects other.remove) _ >>= fun _ =>
            Except.ok (self.separated other)) :=
    rfl
  simp only [unfolded, bind_eq_ok, check_eq_ok, failOn_eq_ok_iff, reject_eq_ok,
    intersectsWithRule_eq_none_iff, containsWithDaaScore_eq,
    Bool.not_eq_false', Bool.and_eq_true, Bool.or_eq_true, decide_eq_true_eq,
    decide_eq_false_iff_not, ne_eq, not_not, Except.ok.injEq]
  constructor
  · rintro ⟨removedAdded, addedRemoved, removals, mixed, eq⟩
    exact ⟨fun key => ⟨removedAdded key, addedRemoved key, removals key⟩, mixed, eq.symm⟩
  · rintro ⟨separable, mixed, eq⟩
    exact ⟨fun key => (separable key).removed_added, fun key => (separable key).added_removed,
      fun key => (separable key).removals, mixed, eq.symm⟩

end

/-- A difference that can be applied to a set: what it removes is there with
the same DAA score, and what it adds is not, once the removals are done. -/
structure UtxoDiff.Applicable (diff : UtxoDiff) (base : UtxoSet) : Prop where
  removed_present : ∀ outpoint removed, diff.remove.lookup outpoint = some removed →
    ∃ held, base.lookup outpoint = some held ∧ held.blockDaaScore = removed.blockDaaScore
  added_absent : ∀ outpoint ∈ diff.add, outpoint ∉ spend base diff.remove.keys

instance (diff : UtxoDiff) (base : UtxoSet) : Decidable (diff.Applicable base) :=
  decidable_of_iff ((∀ item ∈ diff.remove.entries, ∃ held ∈ base.lookup item.1,
        held.blockDaaScore = item.2.blockDaaScore) ∧
      ∀ outpoint ∈ diff.add.keys, outpoint ∉ spend base diff.remove.keys)
    ⟨fun checks => ⟨fun _ _ removes => checks.1 _ (AList.mem_lookup_iff.mp removes), checks.2⟩,
      fun fits => ⟨fun item member =>
        fits.removed_present item.1 item.2 (AList.mem_lookup_iff.mpr member),
        fits.added_absent⟩⟩

variable {diff : UtxoDiff} {base : UtxoSet}

theorem UtxoDiff.applicable_iff : diff.Applicable base ↔
    ∀ key, (diff.cell key).Applicable blockDaaScore (base.lookup key) := by
  have absent_iff (key : TransactionOutpoint) : key ∉ spend base diff.remove.keys ↔
      (diff.remove.lookup key = none → base.lookup key = none) := by
    rw [mem_spend, lookup_eq_none, Finmap.lookup_eq_none, mem_keys]
    tauto
  constructor
  · intro fits key
    refine ⟨fits.removed_present key, fun entry adds keeps => ?_⟩
    have added : key ∈ diff.add := lookup_isSome.mp (isSome_of_eq_some adds)
    exact (absent_iff key).mp (fits.added_absent key added) keeps
  · intro fits
    refine ⟨fun key => (fits key).removed_present, fun key added => (absent_iff key).mpr ?_⟩
    obtain ⟨entry, adds⟩ := isSome_iff_exists.mp (lookup_isSome.mpr added)
    exact (fits key).added_absent entry adds

/-- An entry that a difference adds under an outpoint of the base with the DAA
score of the base is the entry of the base. -/
def UtxoDiff.FaithfulTo (diff : UtxoDiff) (base : UtxoSet) : Prop :=
  ∀ outpoint held entry, base.lookup outpoint = some held → diff.add.lookup outpoint = some entry →
    held.blockDaaScore = entry.blockDaaScore → held = entry

/-- What a fitting difference does to each outpoint. -/
theorem UtxoDiff.Applicable.transition (fits : diff.Applicable base)
    (key : TransactionOutpoint) :
    Patch.Transition blockDaaScore (diff.cell key)
      (base.lookup key) ((base.withDiff diff).lookup key) := by
  rw [UtxoSet.lookup_withDiff_cell]
  exact (applicable_iff.mp fits key).transition

theorem UtxoDiff.applicable_of_transition {result : UtxoSet} (steps : ∀ key,
      Patch.Transition blockDaaScore (diff.cell key)
        (base.lookup key) (result.lookup key)) :
    diff.Applicable base ∧ base.withDiff diff = result := by
  refine ⟨applicable_iff.mpr fun key =>
    (steps key).applicable, Finmap.ext_lookup fun key => ?_⟩
  rw [UtxoSet.lookup_withDiff_cell]
  exact (steps key).result_eq.symm

theorem UtxoDiff.withDiffInPlace_of_applicable {first second : UtxoDiff}
    (firstFits : first.Applicable base) (secondFits : second.Applicable (base.withDiff first)) :
    first.withDiffInPlace second = .ok (first.merged second) ∧
      (first.merged second).Applicable base ∧ (base.withDiff (first.merged second) =
          (base.withDiff first).withDiff second ↔
        second.FaithfulTo base) := by
  have steps (key : TransactionOutpoint) :=
    (firstFits.transition key).compose (secondFits.transition key)
  refine ⟨withDiffInPlace_eq_ok_iff.mpr ⟨fun key =>
    (firstFits.transition key).composable (secondFits.transition key), rfl⟩, ?_, ?_⟩
  · refine applicable_iff.mpr fun key => ?_
    obtain ⟨outcome, step, -⟩ := steps key
    rw [cell_merged]
    exact step.applicable
  · have lookups (key : TransactionOutpoint) : (base.withDiff (first.merged second)).lookup key =
            ((base.withDiff first).withDiff second).lookup key ↔
          Patch.Faithful blockDaaScore (base.lookup key) (second.cell key) := by
      obtain ⟨outcome, step, exact_iff⟩ := steps key
      rw [UtxoSet.lookup_withDiff_cell, cell_merged, ← step.result_eq]
      exact exact_iff
    constructor
    · intro eq key
      exact (lookups key).mp (congrArg (Finmap.lookup key) eq)
    · intro faithful
      exact Finmap.ext_lookup fun key => (lookups key).mpr (faithful key)

theorem UtxoDiff.withDiffInPlace_asReversed (diff : UtxoDiff) :
    diff.withDiffInPlace diff.asReversed = .ok (diff.merged diff.asReversed) ∧
      ∀ key, (diff.merged diff.asReversed).cell key = ⟨none, none⟩ := by
  have reversed (key : TransactionOutpoint) : diff.asReversed.cell key = (diff.cell key).reverse :=
    rfl
  refine ⟨withDiffInPlace_eq_ok_iff.mpr ⟨fun key => ?_, rfl⟩, fun key => ?_⟩
  · rw [reversed]
    exact Patch.composable_reverse _
  · rw [cell_merged, reversed]
    exact Patch.compose_reverse _

/-- Composition of differences. -/
theorem withDiff_composition (base : UtxoSet) (first second : UtxoDiff)
    (firstFits : first.Applicable base) (secondFits : second.Applicable (base.withDiff first)) :
    (∃ composed, first.withDiffInPlace second = .ok composed ∧ composed.Applicable base ∧
        (base.withDiff composed = (base.withDiff first).withDiff second ↔ second.FaithfulTo base)) ∧
      ∃ undone, first.withDiffInPlace first.asReversed = .ok undone ∧
        undone.Applicable base ∧ base.withDiff undone = base := by
  refine ⟨⟨_, withDiffInPlace_of_applicable firstFits secondFits⟩, ?_⟩
  obtain ⟨succeeds, empty⟩ := first.withDiffInPlace_asReversed
  refine ⟨_, succeeds, applicable_of_transition fun key => ?_⟩
  rw [empty]
  exact .keep _

/-- The only outpoint of the examples below. -/
def soleOutpoint : TransactionOutpoint := ⟨zeroHash, 0⟩

def plainEntry (amount blockDaaScore : UInt64) : UtxoEntry :=
  ⟨amount, ⟨0, []⟩, blockDaaScore, false⟩

/-- The collection with one entry under that outpoint. -/
def soleEntry (entry : UtxoEntry) : UtxoCollection :=
  AList.singleton soleOutpoint entry

/-- A removal and a new creation with a later score. -/
theorem recreation_composes : ∃ composed, UtxoDiff.withDiffInPlace ⟨∅, soleEntry (plainEntry 1 5)⟩
      ⟨soleEntry (plainEntry 1 7), ∅⟩ = .ok composed ∧
    composed.Applicable (soleEntry (plainEntry 1 5)).toFinmap := by
  obtain ⟨⟨composed, succeeds, fits, -⟩, -⟩ :=
    withDiff_composition (soleEntry (plainEntry 1 5)).toFinmap ⟨∅, soleEntry (plainEntry 1 5)⟩
      ⟨soleEntry (plainEntry 1 7), ∅⟩ (by decide) (by decide)
  exact ⟨composed, succeeds, fits⟩

/-- A removal and a new creation with the same score and another amount cancel,
although they change the set. -/
theorem revaluation_lost : UtxoDiff.Applicable ⟨∅, soleEntry (plainEntry 1 5)⟩
      (soleEntry (plainEntry 1 5)).toFinmap ∧
    UtxoDiff.Applicable ⟨soleEntry (plainEntry 2 5), ∅⟩
      (UtxoSet.withDiff (soleEntry (plainEntry 1 5)).toFinmap ⟨∅, soleEntry (plainEntry 1 5)⟩) ∧
    UtxoDiff.withDiffInPlace ⟨∅, soleEntry (plainEntry 1 5)⟩
      ⟨soleEntry (plainEntry 2 5), ∅⟩ = .ok ⟨∅, ∅⟩ ∧
    UtxoSet.withDiff (soleEntry (plainEntry 1 5)).toFinmap ⟨∅, ∅⟩ ≠
      (UtxoSet.withDiff (soleEntry (plainEntry 1 5)).toFinmap
        ⟨∅, soleEntry (plainEntry 1 5)⟩).withDiff ⟨soleEntry (plainEntry 2 5), ∅⟩ := by
  refine ⟨by decide, by decide, rfl, ?_⟩
  exact mt (congrArg (Finmap.lookup soleOutpoint)) (by decide)

/-- One difference removes an outpoint that the other adds with the same DAA
score. -/
def UtxoDiff.Crosses (this other : UtxoDiff) : Prop :=
  ∃ outpoint, (this.cell outpoint).Crossing UtxoEntry.blockDaaScore (other.cell outpoint)

/-- The entries of one outpoint with one DAA score are the same, in a set and
two differences. -/
def ScoresDetermineEntries (base : UtxoSet) (this other : UtxoDiff) : Prop :=
  ∀ outpoint, Patch.Determined UtxoEntry.blockDaaScore
    [base.lookup outpoint, this.add.lookup outpoint, this.remove.lookup outpoint,
      other.add.lookup outpoint, other.remove.lookup outpoint]

def UtxoDiff.BothAdd (this other : UtxoDiff) (outpoint : TransactionOutpoint) : Prop :=
  ∃ own, this.add.lookup outpoint = some own ∧ ∃ foreign, other.add.lookup outpoint = some foreign ∧
    own.blockDaaScore = foreign.blockDaaScore

variable {this other : UtxoDiff}

theorem UtxoDiff.intersects_inBothToAdd_iff {collection : UtxoCollection} :
    (this.inBothToAdd other).intersects collection = true ↔
      ∃ key, this.BothAdd other key ∧ key ∈ collection := by
  rw [intersects_eq_true_iff]
  exact exists_congr fun key =>
    and_congr_left' (mem_inBothToAdd_iff.trans sameScore_eq_true_iff)

section

variable (thisFits : this.Applicable base) (otherFits : other.Applicable base)
include thisFits otherFits

theorem UtxoDiff.intersects_inBothToAdd : (this.inBothToAdd other).intersects this.remove =
    (this.inBothToAdd other).intersects other.remove := by
  rw [Bool.eq_iff_iff, intersects_inBothToAdd_iff, intersects_inBothToAdd_iff]
  refine exists_congr fun key => and_congr_right fun ⟨_, adds, _, adds', _⟩ => ?_
  rw [← lookup_isSome, ← lookup_isSome]
  exact Bool.eq_iff_iff.mp ((thisFits.transition key).removes_of_added
    (otherFits.transition key) (isSome_of_eq_some adds) (isSome_of_eq_some adds'))

theorem UtxoDiff.diffFrom_of_applicable {result : UtxoDiff} :
    this.diffFrom other = .ok result ↔ ¬ this.Crosses other ∧ result = this.separated other := by
  rw [diffFrom_eq_ok_iff, Crosses, not_exists]
  have separable (key : TransactionOutpoint) := (thisFits.transition key).separable_iff
      (otherFits.transition key)
  simp only [separable, intersects_inBothToAdd thisFits otherFits, true_and]

theorem UtxoDiff.separated_transition (determined : ScoresDetermineEntries base this other) :
    (this.separated other).Applicable (base.withDiff this) ∧
      (base.withDiff this).withDiff (this.separated other) = base.withDiff other := by
  refine applicable_of_transition fun key => ?_
  rw [cell_separated]
  exact (thisFits.transition key).difference (otherFits.transition key) (determined key)

end

theorem UtxoDiff.faithfulTo_separated (determined : ScoresDetermineEntries base this other) :
    (this.separated other).FaithfulTo base := by
  intro key held entry got adds eq
  have added := (congrArg Patch.add (cell_separated this other key)).symm.trans adds
  refine determined key held entry (by simp [got]) ?_ eq
  rcases Patch.add_of_difference added with own | restored
  · change other.add.lookup key = some entry at own
    simp [own]
  · change this.remove.lookup key = some entry at restored
    simp [restored]

/-- The difference of differences. -/
theorem diffFrom_difference (base : UtxoSet) (this other : UtxoDiff)
    (thisFits : this.Applicable base) (otherFits : other.Applicable base) :
    ((∃ result, this.diffFrom other = .ok result) ↔ ¬ this.Crosses other) ∧
      ∀ result, this.diffFrom other = .ok result → ScoresDetermineEntries base this other →
        result.Applicable (base.withDiff this) ∧
        (base.withDiff this).withDiff result = base.withDiff other ∧
        ∃ composed, this.withDiffInPlace result = .ok composed ∧ composed.Applicable base ∧
          base.withDiff composed = base.withDiff other := by
  constructor
  · constructor
    · rintro ⟨result, succeeds⟩
      exact ((diffFrom_of_applicable thisFits otherFits).mp succeeds).1
    · intro apart
      exact ⟨_, (diffFrom_of_applicable thisFits otherFits).mpr ⟨apart, rfl⟩⟩
  · intro result succeeds determined
    obtain ⟨-, rfl⟩ := (diffFrom_of_applicable thisFits otherFits).mp succeeds
    obtain ⟨fits, reached⟩ := separated_transition thisFits otherFits determined
    obtain ⟨composes, composedFits, exact_iff⟩ := withDiffInPlace_of_applicable thisFits fits
    refine ⟨fits, reached, _, composes, composedFits, ?_⟩
    rw [exact_iff.mpr (faithfulTo_separated determined), reached]

/-- From a later creation back to a plain removal. -/
theorem recreation_withdrawn : ∃ result, UtxoDiff.diffFrom
      ⟨soleEntry (plainEntry 1 7), soleEntry (plainEntry 1 5)⟩
      ⟨∅, soleEntry (plainEntry 1 5)⟩ = .ok result ∧
    result.Applicable (UtxoSet.withDiff (soleEntry (plainEntry 1 5)).toFinmap
      ⟨soleEntry (plainEntry 1 7), soleEntry (plainEntry 1 5)⟩) := by
  obtain ⟨-, leads⟩ := diffFrom_difference (soleEntry (plainEntry 1 5)).toFinmap
      ⟨soleEntry (plainEntry 1 7), soleEntry (plainEntry 1 5)⟩
      ⟨∅, soleEntry (plainEntry 1 5)⟩ (by decide) (by decide)
  refine ⟨_, rfl, (leads _ rfl fun key => ?_).1⟩
  intro value other mem otherMember eq
  by_cases here : key = soleOutpoint
  · subst here
    have amounts (entry : UtxoEntry) (listed : some entry ∈
          [some (plainEntry 1 5), some (plainEntry 1 7), some (plainEntry 1 5),
            none, some (plainEntry 1 5)]) :
        entry = plainEntry 1 entry.blockDaaScore := by
      have oneOf : entry = plainEntry 1 5 ∨ entry = plainEntry 1 7 ∨ entry = plainEntry 1 5 := by
        simpa using listed
      rcases oneOf with rfl | rfl | rfl <;> rfl
    rw [amounts value mem, amounts other otherMember, eq]
  · have elsewhere (entry : UtxoEntry) : (soleEntry entry).lookup key = none :=
      List.dlookup_cons_ne (β := fun _ => UtxoEntry) [] ⟨soleOutpoint, entry⟩ here
    simp [Finmap.lookup_toFinmap, elsewhere] at mem

/-- Differences of one base that cross, and differences that add different
entries with one score. -/
theorem diffFrom_fails : (UtxoDiff.Applicable ⟨∅, soleEntry (plainEntry 1 5)⟩
        (soleEntry (plainEntry 1 5)).toFinmap ∧
      UtxoDiff.Applicable ⟨soleEntry (plainEntry 1 5), soleEntry (plainEntry 1 5)⟩
        (soleEntry (plainEntry 1 5)).toFinmap ∧
      UtxoDiff.diffFrom ⟨∅, soleEntry (plainEntry 1 5)⟩
          ⟨soleEntry (plainEntry 1 5), soleEntry (plainEntry 1 5)⟩ =
        .error (.diffIntersectionPoint soleOutpoint "both in self.add and in other.remove")) ∧
    UtxoDiff.Applicable ⟨soleEntry (plainEntry 1 5), ∅⟩ ∅ ∧
      UtxoDiff.Applicable ⟨soleEntry (plainEntry 2 5), ∅⟩ ∅ ∧
      UtxoDiff.diffFrom ⟨soleEntry (plainEntry 1 5), ∅⟩
        ⟨soleEntry (plainEntry 2 5), ∅⟩ = .ok ⟨∅, ∅⟩ ∧
      (UtxoSet.withDiff ∅ ⟨soleEntry (plainEntry 1 5), ∅⟩).withDiff ⟨∅, ∅⟩ ≠
        UtxoSet.withDiff ∅ ⟨soleEntry (plainEntry 2 5), ∅⟩ := by
  refine ⟨⟨by decide, by decide, rfl⟩, by decide, by decide, rfl, ?_⟩
  exact mt (congrArg (Finmap.lookup soleOutpoint)) (by decide)

/-- At an outpoint two differences cannot have one base: both add it with one
score and one of them removes it, or they remove it with different scores. -/
inductive UtxoDiff.Conflicts (this other : UtxoDiff) (outpoint : TransactionOutpoint) : Prop
  | removedByOne (added : this.BothAdd other outpoint)
    (differs : outpoint ∈ this.remove ↔ outpoint ∉ other.remove)
  | removals (own foreign : UtxoEntry) (removed : this.remove.lookup outpoint = some own)
    (alsoRemoved : other.remove.lookup outpoint = some foreign)
    (differs : own.blockDaaScore ≠ foreign.blockDaaScore)

/-- Not both differences remove outpoints that both add with one score. -/
def UtxoDiff.OneSided (this other : UtxoDiff) : Prop :=
  (∀ outpoint, this.BothAdd other outpoint → outpoint ∉ this.remove) ∨
    ∀ outpoint, this.BothAdd other outpoint → outpoint ∉ other.remove

/-- Some outpoint fails one of the checks that are made of each outpoint. -/
def UtxoDiff.Inseparable (this other : UtxoDiff) : Prop :=
  ∃ outpoint, ¬ (this.cell outpoint).Separable blockDaaScore (other.cell outpoint)

/-- When one of two differences removes an outpoint that both add, the check of
the two intersections passes exactly when both are there. -/
theorem UtxoDiff.intersects_eq_iff_not_oneSided {outpoint : TransactionOutpoint}
    (added : this.BothAdd other outpoint)
    (differs : outpoint ∈ this.remove ↔ outpoint ∉ other.remove) :
    (this.inBothToAdd other).intersects this.remove =
      (this.inBothToAdd other).intersects other.remove ↔ ¬ this.OneSided other := by
  rw [Bool.eq_iff_iff, intersects_inBothToAdd_iff, intersects_inBothToAdd_iff, OneSided, not_or]
  simp only [not_forall, not_not, exists_prop]
  constructor
  · intro mixed
    by_cases removed : outpoint ∈ this.remove
    · exact ⟨⟨outpoint, added, removed⟩, mixed.mp ⟨outpoint, added, removed⟩⟩
    · have removed := not_not.mp (mt differs.mpr removed)
      exact ⟨mixed.mpr ⟨outpoint, added, removed⟩, outpoint, added, removed⟩
  · rintro ⟨own, foreign⟩
    exact iff_of_true own foreign

/-- A conflict is found exactly when not both sides remove outpoints that both
add, or another check fails. -/
theorem diffFrom_rejects (this other : UtxoDiff) (outpoint : TransactionOutpoint)
    (conflicts : this.Conflicts other outpoint) :
    (∃ error, this.diffFrom other = .error error) ↔
      this.OneSided other ∨ this.Inseparable other := by
  have fails : (∃ error, this.diffFrom other = .error error) ↔
      ¬ ∃ result, this.diffFrom other = .ok result := by
    cases this.diffFrom other with
    | error error => simp
    | ok result => simp
  have succeeds : (∃ result, this.diffFrom other = .ok result) ↔ ¬ this.Inseparable other ∧
      (this.inBothToAdd other).intersects this.remove =
        (this.inBothToAdd other).intersects other.remove := by
    simp [diffFrom_eq_ok_iff, UtxoDiff.Inseparable]
  rw [fails, succeeds]
  cases conflicts with
  | removedByOne added differs =>
    rw [intersects_eq_iff_not_oneSided added differs, not_and_or, not_not, not_not, or_comm]
  | removals own foreign removed alsoRemoved differs =>
    have inseparable : this.Inseparable other := ⟨outpoint, fun separable =>
      differs (separable.removals own foreign removed alsoRemoved).symm⟩
    exact iff_of_true (fun found => found.1 inseparable) (.inr inseparable)

/-- A creation with a later score that only one difference precedes by the
removal. -/
theorem recreation_rejected : ∃ error, UtxoDiff.diffFrom
    ⟨soleEntry (plainEntry 1 7), soleEntry (plainEntry 1 5)⟩ ⟨soleEntry (plainEntry 1 7), ∅⟩ =
      .error error :=
  (diffFrom_rejects _ _ soleOutpoint (.removedByOne ⟨_, rfl, _, rfl, rfl⟩ (by decide))).mpr
    (.inl (.inr fun _ _ => notMem_empty _))

/-- Each difference removes one of two outpoints that both create again. -/
theorem recreations_accepted :
    let created := (soleEntry (plainEntry 1 7)).insert ⟨zeroHash, 1⟩ (plainEntry 1 7)
    let this : UtxoDiff := ⟨created, soleEntry (plainEntry 1 5)⟩
    let other : UtxoDiff := ⟨created, singleton ⟨zeroHash, 1⟩ (plainEntry 1 5)⟩
    this.Conflicts other soleOutpoint ∧ ∃ result, this.diffFrom other = .ok result :=
  ⟨.removedByOne ⟨_, rfl, _, rfl, rfl⟩ (by decide), _, rfl⟩

end Sophis
