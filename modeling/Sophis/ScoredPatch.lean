import Mathlib.Data.List.AList

/-!
# Patches of a keyed collection, one cell at a time

A patch may remove what a cell holds and may put a value into it. Values are
told apart by a score only: a removal and an addition with the same score are
taken to be of the same value and cancel.
-/

namespace ScoredPatch

open List

variable {V S : Type*}

/-- What happens to one cell. -/
structure Patch (V : Type*) where
  add : Option V
  remove : Option V

namespace Patch

def apply (patch : Patch V) (cell : Option V) : Option V :=
  match patch.add with
  | some value => some value
  | none => if patch.remove.isSome then none else cell

variable (score : V → S)

/-- The four things that a fitting patch does: what it removes is there with
the same score, and what it adds finds the cell empty. -/
inductive Transition : Patch V → Option V → Option V → Prop where
  | keep (cell : Option V) :
    Transition ⟨none, none⟩ cell cell
  | create (value : V) :
    Transition ⟨some value, none⟩ none (some value)
  | delete {held removed : V} :
    score held = score removed →
    Transition ⟨none, some removed⟩ (some held) none
  | replace {held removed : V} (value : V) :
    score held = score removed →
    Transition ⟨some value, some removed⟩ (some held) (some value)

/-- A patch removes what is there and adds what is not. -/
structure Applicable (patch : Patch V) (cell : Option V) : Prop where
  removed_present : ∀ removed, patch.remove = some removed →
    ∃ held, cell = some held ∧ score held = score removed
  added_absent : ∀ value, patch.add = some value → patch.remove = none → cell = none

variable {score} {patch : Patch V} {cell result : Option V}

theorem Transition.applicable (step : Transition score patch cell result) :
    patch.Applicable score cell := by
  cases step with
  | keep => exact ⟨fun _ removes => (nomatch removes), fun _ adds => (nomatch adds)⟩
  | create => exact ⟨fun _ removes => (nomatch removes), fun _ _ _ => rfl⟩
  | delete same =>
    refine ⟨fun _ removes => ?_, fun _ adds => (nomatch adds)⟩
    cases removes
    exact ⟨_, rfl, same⟩
  | replace value same =>
    refine ⟨fun _ removes => ?_, fun _ _ keeps => (nomatch keeps)⟩
    cases removes
    exact ⟨_, rfl, same⟩

theorem Transition.result_eq (step : Transition score patch cell result) :
    result = patch.apply cell := by
  cases step <;> rfl

theorem Applicable.transition (fits : patch.Applicable score cell) :
    Transition score patch cell (patch.apply cell) := by
  rcases patch with ⟨_ | value, _ | removed⟩
  · exact .keep cell
  · obtain ⟨held, rfl, same⟩ := fits.removed_present removed rfl
    exact .delete same
  · cases fits.added_absent value rfl rfl
    exact .create value
  · obtain ⟨held, rfl, same⟩ := fits.removed_present removed rfl
    exact .replace value same

end Patch

section

variable [DecidableEq S] (score : V → S)

/-- Whether both values are there, with one score. -/
def sameScore (first second : Option V) : Bool :=
  first.any fun value => second.any fun other => score other = score value

@[simp] theorem sameScore_none_left (second : Option V) : sameScore score none second = false :=
  rfl

@[simp] theorem sameScore_none_right (first : Option V) : sameScore score first none = false := by
  cases first <;> rfl

@[simp] theorem sameScore_some (value other : V) :
    sameScore score (some value) (some other) = decide (score other = score value) :=
  rfl

theorem sameScore_eq_true_iff {score : V → S} {first second : Option V} :
    sameScore score first second = true ↔ ∃ value, first = some value ∧
      ∃ other, second = some other ∧ score value = score other := by
  cases first with
  | none => simp
  | some value =>
    cases second with
    | none => simp
    | some other => simp [eq_comm]

namespace Patch

/-- One patch for two in a row: first what the second one removes is taken
from the additions of the first or becomes a removal, then what it adds
cancels a removal or becomes an addition. -/
def compose (first second : Patch V) : Patch V :=
  let cancelled := sameScore score second.remove first.add
  let remove :=
    if cancelled then first.remove else second.remove.or first.remove
  let add := if cancelled then none else first.add
  let restored := sameScore score second.add remove
  { add := if restored then add else second.add.or add
    remove := if restored then none else remove }

/-- Two removals need an addition between them, and two additions a
removal. -/
structure Composable (first second : Patch V) : Prop where
  removals : second.remove.isSome = true → first.remove.isSome = true →
    sameScore score second.remove first.add = true
  additions : second.add.isSome = true → first.add.isSome = true →
    sameScore score first.add second.remove = true

variable {score} {first second : Patch V} {cell middle result : Option V}

theorem Transition.composable (firstStep : Transition score first cell middle)
    (secondStep : Transition score second middle result) : first.Composable score second := by
  cases firstStep with
  | keep => exact ⟨fun _ removes => (nomatch removes), fun _ adds => (nomatch adds)⟩
  | create value =>
    refine ⟨fun _ removes => (nomatch removes), fun adds _ => ?_⟩
    cases secondStep with
    | keep => cases adds
    | delete same => simp [same]
    | replace _ same => simp [same]
  | delete _ =>
    refine ⟨fun removes _ => ?_, fun _ adds => (nomatch adds)⟩
    cases secondStep <;> cases removes
  | replace value _ =>
    cases secondStep with
    | keep => exact ⟨fun removes => (nomatch removes), fun adds => (nomatch adds)⟩
    | delete same => exact ⟨fun _ _ => by simp [same], fun adds => (nomatch adds)⟩
    | replace _ same => exact ⟨fun _ _ => by simp [same], fun _ _ => by simp [same]⟩

/-- The values with which a patch could be mistaken for undoing a removal: it
adds another value with the score of what the cell holds. -/
def Faithful (score : V → S) (cell : Option V) (patch : Patch V) : Prop :=
  ∀ held value, cell = some held → patch.add = some value → score held = score value → held = value

variable {removed : V}

open Transition

private theorem restore {held : V} (same : score held = score removed) (value : V) : ∃ outcome,
    Transition score
        { add := if score removed = score value then none else some value
          remove := if score removed = score value then none
            else some removed }
        (some held) outcome ∧
      (outcome = some value ↔ (score held = score value → held = value)) := by
  by_cases undone : score removed = score value
  · refine ⟨some held, ?_, ?_⟩
    · simpa [undone] using keep _
    · simp [same, undone]
  · refine ⟨some value, ?_, ?_⟩
    · simpa [undone] using replace _ same
    · simp [same, undone]

open Patch

/-- The composed patch fits where the two in a row do, and does the same
exactly when the additions of the second are faithful. -/
theorem Transition.compose (firstStep : Transition score first cell middle)
    (secondStep : Transition score second middle result) :
    ∃ outcome, Transition score (first.compose score second) cell outcome ∧
      (outcome = result ↔ Faithful score cell second) := by
  cases firstStep with
  | keep cell =>
    cases secondStep with
    | keep => exact ⟨_, .keep _, by simp [Faithful]⟩
    | create value => exact ⟨_, .create _, by simp [Faithful]⟩
    | delete same => exact ⟨_, .delete same, by simp [Faithful]⟩
    | replace value same => simpa [compose, Faithful] using restore same value
  | create added =>
    cases secondStep with
    | keep => exact ⟨_, .create added, by simp [Faithful]⟩
    | delete same =>
      refine ⟨none, ?_, by simp [Faithful]⟩
      simpa [compose, same] using keep none
    | replace value same =>
      refine ⟨some value, ?_, by simp [Faithful]⟩
      simpa [compose, same] using create value
  | @delete held removed gone =>
    cases secondStep with
    | keep => exact ⟨_, .delete gone, by simp [Faithful]⟩
    | create value => simpa [compose, Faithful] using restore gone value
  | @replace held removed added gone =>
    cases secondStep with
    | keep => exact ⟨_, .replace added gone, by simp [Faithful]⟩
    | delete same =>
      refine ⟨none, ?_, by simp [Faithful]⟩
      simpa [compose, same] using delete gone
    | replace value same => simpa [compose, Faithful, same] using restore gone value

def reverse (patch : Patch V) : Patch V :=
  ⟨patch.remove, patch.add⟩

theorem composable_reverse (patch : Patch V) : patch.Composable score patch.reverse := by
  rcases patch with ⟨_ | value, _ | removed⟩
  · exact ⟨fun removes => (nomatch removes), fun adds => (nomatch adds)⟩
  · exact ⟨fun removes => (nomatch removes), fun _ adds => (nomatch adds)⟩
  · exact ⟨fun _ removes => (nomatch removes), fun adds => (nomatch adds)⟩
  · exact ⟨fun _ _ => by simp [reverse], fun _ _ => by simp [reverse]⟩

/-- A patch followed by its reverse cancels. -/
theorem compose_reverse (patch : Patch V) : patch.compose score patch.reverse = ⟨none, none⟩ := by
  rcases patch with ⟨_ | value, _ | removed⟩ <;> simp [compose, reverse]

/-- The patch from the outcome of one patch to the outcome of another. -/
def difference (score : V → S) (this other : Patch V) : Patch V where
  add :=
    (if sameScore score other.add this.add then none else other.add).or
      (if sameScore score this.remove other.remove then none
        else this.remove)
  remove :=
    (if sameScore score other.remove this.remove then none
      else other.remove).or
      (if sameScore score this.add other.add then none else this.add)

variable {value : V}

/-- What the difference adds is an addition of the one or a removal of the
other. -/
theorem add_of_difference {this other : Patch V}
    (adds : (this.difference score other).add = some value) :
    other.add = some value ∨ this.remove = some value := by
  rcases Option.or_eq_some_iff.mp adds with added | ⟨-, restored⟩
  · split at added
    · cases added
    · exact .inl added
  · split at restored
    · cases restored
    · exact .inr restored

/-- One patch removes what the other adds, as far as scores tell. -/
def Crossing (score : V → S) (this other : Patch V) : Prop :=
  sameScore score this.remove other.add = true ∨ sameScore score this.add other.remove = true

/-- What the difference asks of two patches: a value that one removes and the
other adds has two scores, and one of the patches replaces it; and both remove
the same. -/
structure Separable (score : V → S) (this other : Patch V) : Prop where
  removed_added : ∀ removed value, this.remove = some removed → other.add = some value →
    score value ≠ score removed ∧ (sameScore score (some value) this.add = true ∨
      sameScore score (some removed) other.remove = true)
  added_removed : ∀ value removed, this.add = some value → other.remove = some removed →
    score removed ≠ score value ∧ (sameScore score (some removed) this.remove = true ∨
      sameScore score (some value) other.add = true)
  removals : ∀ removed removed', this.remove = some removed →
    other.remove = some removed' → score removed' = score removed

/-- Values with one score are the same. -/
def Determined (score : V → S) (values : List (Option V)) : Prop :=
  ∀ value other, some value ∈ values → some other ∈ values →
    score value = score other → value = other

section

variable [DecidableEq V]

/-- The patch from one content of a cell to another that changes nothing more
than it has to. -/
def between (cell result : Option V) : Patch V :=
  if cell = result then ⟨none, none⟩ else ⟨result, cell⟩

omit [DecidableEq S] in
theorem transition_between (score : V → S) (cell result : Option V) :
    Transition score (between cell result) cell result := by
  by_cases same : cell = result
  · rw [between, if_pos same, same]
    exact .keep result
  · rw [between, if_neg same]
    cases cell with
    | none =>
      cases result with
      | none => exact absurd rfl same
      | some value => exact .create value
    | some held =>
      cases result with
      | none => exact .delete rfl
      | some value => exact .replace value rfl

theorem reverse_between (cell result : Option V) :
    (between cell result).reverse = between result cell := by
  by_cases same : cell = result
  · simp [between, same, reverse]
  · simp [between, same, Ne.symm same, reverse]

/-- Where values with one score are the same, two such patches in a row are
one again. -/
theorem compose_between (determined : Determined score [cell, middle, result]) :
    (between cell middle).compose score (between middle result) = between cell result := by
  have apart {value other : V} (listed : some value ∈ [cell, middle, result])
      (otherListed : some other ∈ [cell, middle, result])
      (differ : value ≠ other) :
      score value ≠ score other :=
    fun same => differ (determined value other listed otherListed same)
  by_cases last : middle = result
  · subst last
    simp [between, compose]
  by_cases first : cell = middle
  · subst first
    cases cell with
    | none => simp [between, compose, last]
    | some held =>
      cases result with
      | none => simp [between, compose]
      | some value =>
        have scores := apart (by simp) (by simp) fun same => last (congrArg some same)
        simp [between, compose, last, scores]
  · -- Both patches change the cell.
    rw [between, if_neg first, between, if_neg last]
    cases cell with
    | none =>
      cases middle with
      | none => exact absurd rfl first
      | some other => cases result <;> simp [between, compose]
    | some held =>
      cases result with
      | none =>
        cases middle with
        | none => exact absurd rfl last
        | some other => simp [between, compose]
      | some value =>
        by_cases back : held = value
        · cases middle <;> simp [between, compose, back]
        · have scores := apart (by simp) (by simp) back
          cases middle <;> simp [between, compose, back, scores]

end

variable {this other : Patch V}

theorem Applicable.sameScore_of_added {patch : Patch V} (fits : patch.Applicable score cell)
    (adds : patch.add = some value)
    (present : ∃ held, cell = some held ∧ score held = score removed) :
    sameScore score (some removed) patch.remove = true := by
  obtain ⟨held, got, same⟩ := present
  cases removes : patch.remove with
  | none => cases got.symm.trans (fits.added_absent value adds removes)
  | some removed' =>
    obtain ⟨held', found', same'⟩ := fits.removed_present removed' removes
    cases got.symm.trans found'
    simp [← same, ← same']

variable (thisStep : Transition score this cell middle)
  (otherStep : Transition score other cell result)
include thisStep otherStep

omit [DecidableEq S] in
/-- Two patches that add to one cell both remove from it or neither does. -/
theorem Transition.removes_of_added (adds : this.add.isSome = true)
    (otherAdds : other.add.isSome = true) : this.remove.isSome = other.remove.isSome := by
  cases thisStep with
  | keep => cases adds
  | delete _ => cases adds
  | create _ =>
    cases otherStep with
    | keep => cases otherAdds
    | create _ => rfl
  | replace _ _ =>
    cases otherStep with
    | keep => cases otherAdds
    | delete _ => cases otherAdds
    | replace _ _ => rfl

/-- Of two patches of one cell only crossing ones are refused. -/
theorem Transition.separable_iff : this.Separable score other ↔ ¬ this.Crossing score other := by
  have thisFits := thisStep.applicable
  have otherFits := otherStep.applicable
  constructor
  · rintro ⟨removed_added, added_removed, -⟩ (crossing | crossing)
    · obtain ⟨removed, removes, added, adds, same⟩ := sameScore_eq_true_iff.mp crossing
      exact (removed_added removed added removes adds).1 same.symm
    · obtain ⟨added, adds, removed, removes, same⟩ := sameScore_eq_true_iff.mp crossing
      exact (added_removed added removed adds removes).1 same.symm
  · intro apart
    refine ⟨fun removed value removes adds => ⟨fun same => apart (.inl ?_),
      .inr ?_⟩, fun value removed adds removes => ⟨fun same =>
        apart (.inr ?_), .inl ?_⟩, fun removed removed' removes removes' => ?_⟩
    · exact sameScore_eq_true_iff.mpr ⟨removed, removes, value, adds, same.symm⟩
    · exact otherFits.sameScore_of_added adds (thisFits.removed_present removed removes)
    · exact sameScore_eq_true_iff.mpr ⟨value, adds, removed, removes, same.symm⟩
    · exact thisFits.sameScore_of_added adds (otherFits.removed_present removed removes)
    · obtain ⟨held, got, same⟩ := thisFits.removed_present removed removes
      obtain ⟨held', found', same'⟩ := otherFits.removed_present removed' removes'
      cases got.symm.trans found'
      exact same'.symm.trans same

theorem Transition.difference
    (determined : Determined score [cell, this.add, this.remove, other.add, other.remove]) :
    Transition score (this.difference score other) middle result := by
  cases thisStep with
  | keep =>
    cases otherStep with
    | keep => exact .keep _
    | create value => exact .create value
    | delete same => exact .delete same
    | replace value same => exact .replace value same
  | create value =>
    cases otherStep with
    | keep => exact .delete rfl
    | create value' =>
      by_cases equal : score value = score value'
      · cases determined value value' (by simp) (by simp) equal
        simpa [difference] using keep (some value)
      · simpa [difference, equal, Ne.symm equal] using replace value' rfl
  | @delete held removed same =>
    have original : held = removed := determined held removed (by simp) (by simp) same
    cases otherStep with
    | keep =>
      cases original
      exact .create held
    | @delete _ removed' same' =>
      have equal : score removed' = score removed := same'.symm.trans same
      simpa [difference, equal] using keep none
    | @replace _ removed' value same' =>
      have equal : score removed' = score removed := same'.symm.trans same
      simpa [difference, equal] using create value
  | @replace held removed value same =>
    have original : held = removed := determined held removed (by simp) (by simp) same
    cases otherStep with
    | keep =>
      cases original
      exact .replace held rfl
    | @delete _ removed' same' =>
      have equal : score removed' = score removed := same'.symm.trans same
      simpa [difference, equal] using delete rfl
    | @replace _ removed' value' same' =>
      have removals : score removed' = score removed := same'.symm.trans same
      by_cases equal : score value = score value'
      · cases determined value value' (by simp) (by simp) equal
        simpa [difference, removals] using keep (some value)
      · simpa [difference, removals, equal, Ne.symm equal] using replace value' rfl

end Patch

end

variable {K : Type*} [DecidableEq K]

/-- Copies the entries that pass a test into a collection. -/
def insertWhere (keep : K → V → Bool) (source target : AList fun _ : K => V) :
    AList fun _ : K => V :=
  source.entries.foldl
    (fun current item =>
      if keep item.1 item.2 then current.insert item.1 item.2 else current)
    target

/-- Copies the entries that pass a test into one collection and the others
into a second. -/
def insertPartition (keep : K → V → Bool) (source kept dropped : AList fun _ : K => V) :
    (AList fun _ : K => V) × AList fun _ : K => V :=
  source.entries.foldl
    (fun current item =>
      if keep item.1 item.2 then
        (current.1.insert item.1 item.2, current.2)
      else
        (current.1, current.2.insert item.1 item.2))
    (kept, dropped)

/-- Deletes the keys of a collection from another. -/
def eraseAll (collection removed : AList fun _ : K => V) : AList fun _ : K => V :=
  removed.keys.foldl (fun current key => current.erase key) collection

variable {keep : K → V → Bool}

private theorem lookup_foldl_insert {items : List (Sigma fun _ : K => V)}
    (nodup : items.NodupKeys) (target : AList fun _ : K => V) (key : K) :
    (items.foldl (fun current item =>
          if keep item.1 item.2 then current.insert item.1 item.2
          else current)
        target).lookup key =
      ((items.dlookup key).filter (keep key)).or (target.lookup key) := by
  induction items generalizing target with
  | nil => rfl
  | cons item rest ih =>
    obtain ⟨absent, restDistinct⟩ := nodupKeys_cons.mp nodup
    rw [foldl_cons, ih restDistinct]
    by_cases same : key = item.1
    · subst same
      rw [dlookup_eq_none.mpr absent, dlookup_cons_eq]
      by_cases kept : keep item.1 item.2
      · simp [kept, Option.filter]
      · simp [kept, Option.filter]
    · rw [dlookup_cons_ne _ _ same]
      by_cases kept : keep item.1 item.2
      · simp [kept, AList.lookup_insert_ne same]
      · simp [kept]

/-- A copied entry is the one of the source; the others stay. -/
theorem lookup_insertWhere (source target : AList fun _ : K => V) (key : K) :
    (insertWhere keep source target).lookup key =
      ((source.lookup key).filter (keep key)).or (target.lookup key) :=
  lookup_foldl_insert source.nodupKeys target key

theorem insertPartition_eq (source kept dropped : AList fun _ : K => V) :
    insertPartition keep source kept dropped = (insertWhere keep source kept,
      insertWhere (fun key value => !keep key value) source dropped) := by
  unfold insertPartition insertWhere
  induction source.entries generalizing kept dropped with
  | nil => rfl
  | cons item rest ih =>
    simp only [foldl_cons]
    by_cases passes : keep item.1 item.2 = true
    · rw [if_pos passes, if_pos passes, if_neg (by simp [passes])]
      exact ih _ _
    · rw [if_neg passes, if_neg passes, if_pos (by simp [passes])]
      exact ih _ _

theorem lookup_eraseAll (collection removed : AList fun _ : K => V) (key : K) :
    (eraseAll collection removed).lookup key =
      if key ∈ removed then none else collection.lookup key := by
  have erased (keys : List K) (current : AList fun _ : K => V) :
      (keys.foldl (fun current key => current.erase key) current).lookup key =
        if key ∈ keys then none else current.lookup key := by
    induction keys generalizing current with
    | nil => simp
    | cons head rest ih =>
      rw [foldl_cons, ih]
      by_cases same : key = head
      · subst same
        simp
      · simp [same, AList.lookup_erase_ne same]
  rw [eraseAll, erased]
  exact if_congr AList.mem_keys.symm rfl rfl

/-- A search through a collection finds nothing when no entry passes. -/
theorem find_entries_eq_none_iff {collection : AList fun _ : K => V}
    {test : (Sigma fun _ : K => V) → Bool} :
    collection.entries.find? test = none ↔ ∀ key value, collection.lookup key = some value →
      test ⟨key, value⟩ = false := by
  rw [find?_eq_none]
  constructor
  · intro fails key value got
    exact eq_false_of_ne_true (fails ⟨key, value⟩ (AList.mem_lookup_iff.mp got))
  · intro fails item mem
    exact Bool.eq_false_iff.mp (fails item.1 item.2 (AList.mem_lookup_iff.mpr mem))

end ScoredPatch
