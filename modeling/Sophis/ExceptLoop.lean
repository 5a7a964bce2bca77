import Mathlib.Tactic.Common

namespace ExceptLoop

open List

/-!
# Sequenced checks and loops with early return

A validator is a sequence of fallible checks, some of which walk a list with a
running index and an accumulator. When such a sequence succeeds is said once, so
that later proofs need not unfold the monad.
-/

variable {ε ε' α β : Type}

@[simp] theorem ok_bind (value : α) (next : α → Except ε β) :
    (Except.ok value >>= next) = next value :=
  rfl

@[simp] theorem error_bind (error : ε) (next : α → Except ε β) :
    ((Except.error error : Except ε α) >>= next) = Except.error error :=
  rfl

variable {first : Except ε α} {next : α → Except ε β} {result : β}

theorem bind_eq_ok :
    (first >>= next) = .ok result ↔ ∃ value, first = .ok value ∧ next value = .ok result := by
  cases first with
  | error error => simp
  | ok value => simp

theorem bind_congr_ok {other : α → Except ε β}
    (eq : ∀ value, first = .ok value → next value = other value) :
    first >>= next = first >>= other := by
  cases first with
  | error error => rfl
  | ok value => exact eq value rfl

variable {error : ε}

theorem bind_eq_error : (first >>= next) = .error error ↔ first = .error error ∨
    ∃ value, first = .ok value ∧ next value = .error error := by
  cases first with
  | error error => simp
  | ok value => simp

variable {check : Except ε Unit}

/-- A check has one way to succeed, so the value it passes on needs no
name. -/
theorem check_eq_ok {property : Unit → Prop} :
    (∃ value, check = .ok value ∧ property value) ↔ check = .ok () ∧ property () := by
  constructor
  · rintro ⟨⟨⟩, passed, holds⟩
    exact ⟨passed, holds⟩
  · rintro ⟨passed, holds⟩
    exact ⟨(), passed, holds⟩

@[simp] theorem exists_eq_ok_unit : (∃ value, check = .ok value) ↔ check = .ok () := by
  constructor
  · rintro ⟨⟨⟩, passed⟩
    exact passed
  · intro passed
    exact ⟨(), passed⟩

def reject (condition : Prop) [Decidable condition] (error : ε) : Except ε Unit :=
  if condition then .error error else .ok ()

variable {condition : Prop}

@[simp] theorem reject_eq_ok [Decidable condition] :
    reject condition error = .ok () ↔ ¬ condition := by
  unfold reject
  by_cases raised : condition <;> simp [raised]

theorem reject_eq_error [Decidable condition] {raised : ε} :
    reject condition error = .error raised ↔ condition ∧ error = raised := by
  unfold reject
  by_cases holds : condition <;> simp [holds]

variable {rename : ε → ε'} {value : α}

@[simp] theorem mapError_eq_ok : first.mapError rename = .ok value ↔ first = .ok value := by
  cases first <;> simp [Except.mapError]

/-- A renamed error was raised under its old name. -/
theorem mapError_eq_error {error : ε'} : first.mapError rename = .error error ↔
    ∃ original, first = .error original ∧ rename original = error := by
  cases first <;> simp [Except.mapError]

/-- What must be there. -/
def unwrapOr {ε α : Type} (panic : ε) : Option α → Except ε α
  | some value => .ok value
  | none => .error panic

variable {panic : ε} {found : Option α}

theorem unwrapOr_eq_ok : unwrapOr panic found = .ok value ↔ found = some value := by
  cases found <;> simp [unwrapOr]

theorem unwrapOr_eq_error : unwrapOr panic found = .error error ↔ found = none ∧ panic = error := by
  cases found <;> simp [unwrapOr]

theorem toOption_eq_some_iff : first.toOption = some value ↔ first = .ok value := by
  cases first <;> simp [Except.toOption]

section

variable {ε α σ : Type}

/-- Runs a check on every element together with its index and stops at the
first error. -/
def forEachFrom (check : Nat → α → Except ε Unit) : Nat → List α → Except ε Unit
  | _, [] => .ok ()
  | index, item :: rest => do
    check index item
    forEachFrom check (index + 1) rest

def forEach (check : Nat → α → Except ε Unit) (items : List α) : Except ε Unit :=
  forEachFrom check 0 items

variable {check : Nat → α → Except ε Unit}

/-- A checking loop succeeds exactly when every iteration succeeds. -/
theorem forEachFrom_eq_ok_iff (start : Nat) (items : List α) :
    forEachFrom check start items = .ok () ↔ ∀ offset item, items[offset]? = some item →
      check (start + offset) item = .ok () := by
  induction items generalizing start with
  | nil => simp [forEachFrom]
  | cons head rest ih =>
    rw [forEachFrom, bind_eq_ok, check_eq_ok, ih]
    constructor
    · rintro ⟨headPasses, restPass⟩ offset item found
      cases offset with
      | zero =>
        simp only [getElem?_cons_zero, Option.some.injEq] at found
        simpa [← found] using headPasses
      | succ offset =>
        simp only [getElem?_cons_succ] at found
        have passes := restPass offset item found
        rwa [Nat.add_right_comm] at passes
    · intro pass
      refine ⟨by simpa using pass 0 head rfl, ?_⟩
      intro offset item found
      have passes := pass (offset + 1) item (by simpa using found)
      rwa [← Nat.add_assoc, Nat.add_right_comm] at passes

variable {property : α → Prop}

theorem forEach_eq_ok_iff_forall (spec : ∀ index item, check index item = .ok () ↔ property item)
    (items : List α) : forEach check items = .ok () ↔ ∀ item ∈ items, property item := by
  rw [forEach, forEachFrom_eq_ok_iff]
  simp only [spec]
  constructor
  · intro pass item mem
    obtain ⟨offset, found⟩ := mem_iff_getElem?.mp mem
    exact pass offset item found
  · intro pass offset item found
    exact pass item (mem_of_getElem? found)

/-- Folds a fallible step over a list with a running index and stops at the
first error. -/
def foldEachFrom (step : Nat → σ → α → Except ε σ) : Nat → σ → List α → Except ε σ
  | _, state, [] => .ok state
  | index, state, item :: rest => do
    let next ← step index state item
    foldEachFrom step (index + 1) next rest

def foldEach (step : Nat → σ → α → Except ε σ) (initial : σ) (items : List α) : Except ε σ :=
  foldEachFrom step 0 initial items

variable {step : Nat → σ → α → Except ε σ}

section

variable (invariant : List α → σ → Prop)
  (preserved : ∀ index processed state item next, invariant processed state →
    step index state item = .ok next → invariant (processed ++ [item]) next)
include preserved

theorem foldEachFrom_invariant (start : Nat) (processed items : List α) (state final : σ)
    (initially : invariant processed state)
    (ran : foldEachFrom step start state items = .ok final) :
    invariant (processed ++ items) final := by
  induction items generalizing start processed state with
  | nil =>
    simp only [foldEachFrom, Except.ok.injEq] at ran
    simpa [← ran] using initially
  | cons head rest ih =>
    rw [foldEachFrom, bind_eq_ok] at ran
    obtain ⟨next, stepped, continued⟩ := ran
    have extended := ih (start + 1) (processed ++ [head]) next
        (preserved start processed state head next initially stepped) continued
    simpa using extended

/-- The invariant rule for a loop that starts on an empty prefix. -/
theorem foldEach_invariant {initial final : σ} {items : List α} (initially : invariant [] initial)
    (ran : foldEach step initial items = .ok final) : invariant items final := by
  simpa using foldEachFrom_invariant invariant preserved 0 [] items initial final initially ran

end

variable {initial final : σ} {items : List α}

theorem forall_of_foldEach
    (established : ∀ index state item next, step index state item = .ok next → property item)
    (ran : foldEach step initial items = .ok final) : ∀ item ∈ items, property item := by
  refine foldEach_invariant (fun processed _ => ∀ item ∈ processed, property item) ?_ (by simp) ran
  intro index processed state item next holds stepped other mem
  rcases mem_append.mp mem with prior | last
  · exact holds other prior
  · rw [mem_singleton.mp last]
    exact established index state item next stepped

/-- A loop whose steps leave the accumulator alone returns it. -/
theorem foldEachFrom_unchanged {state : σ}
    (eq : ∀ index, ∀ item ∈ items, step index state item = .ok state) (start : Nat) :
    foldEachFrom step start state items = .ok state := by
  induction items generalizing start with
  | nil => rfl
  | cons head rest ih =>
    rw [foldEachFrom, eq start head (by simp), ok_bind]
    exact ih (fun index item mem => eq index item (by simp [mem])) (start + 1)

/-- A run of a machine without errors in which every step is permitted. -/
def Permitted {τ : Type*} (permitted : τ → α → Prop) (advance : τ → α → τ) : τ → List α → Prop
  | _, [] => True
  | state, item :: rest =>
    permitted state item ∧ Permitted permitted advance (advance state item) rest

instance decidablePermitted {τ : Type*} {permitted : τ → α → Prop}
    [∀ state item, Decidable (permitted state item)]
    {advance : τ → α → τ} :
    ∀ state items, Decidable (Permitted permitted advance state items)
  | _, [] => .isTrue trivial
  | state, item :: rest =>
    have : Decidable (Permitted permitted advance (advance state item) rest) :=
      decidablePermitted (advance state item) rest
    inferInstanceAs (Decidable (_ ∧ _))

/-- A loop simulates a machine when each of its steps succeeds and matches a
permitted step of the machine. -/
theorem foldEachFrom_simulates {τ : Type*} {permitted : τ → α → Prop} {advance : τ → α → τ}
    (related : σ → τ → Prop)
    (matched : ∀ index concrete abstract item, related concrete abstract → permitted abstract item →
      ∃ next, step index concrete item = .ok next ∧ related next (advance abstract item))
    {concrete : σ} {abstract : τ} (initially : related concrete abstract)
    (allowed : Permitted permitted advance abstract items) (start : Nat) :
    ∃ final, foldEachFrom step start concrete items = .ok final ∧
      related final (items.foldl advance abstract) := by
  induction items generalizing concrete abstract start with
  | nil => exact ⟨concrete, rfl, initially⟩
  | cons head rest ih =>
    obtain ⟨headPermitted, restPermitted⟩ := allowed
    obtain ⟨next, stepped, stillRelated⟩ :=
      matched start concrete abstract head initially headPermitted
    obtain ⟨final, ran, atTheEnd⟩ := ih stillRelated restPermitted (start + 1)
    refine ⟨final, ?_, atTheEnd⟩
    rw [foldEachFrom, stepped, ok_bind, ran]

variable {position : Nat} {item : α} {replace replace' : α → α}

/-- A check that cannot tell two replacements of one element apart gives the
same verdict on both lists. -/
theorem forEachFrom_modify (found : items[position]? = some item)
    (eq : ∀ index, check index (replace item) = check index (replace' item)) (start : Nat) :
    forEachFrom check start (items.modify position replace) =
      forEachFrom check start (items.modify position replace') := by
  induction items generalizing position start with
  | nil => cases found
  | cons head rest ih =>
    cases position with
    | zero =>
      obtain rfl : head = item := by simpa using found
      simp only [modify_zero_cons, forEachFrom, eq]
    | succ position => simp only [modify_succ_cons, forEachFrom, ih (by simpa using found)]

/-- The same for a fold whose step cannot tell the replacements apart. -/
theorem foldEachFrom_modify (found : items[position]? = some item)
    (eq : ∀ index state, step index state (replace item) = step index state (replace' item))
    (start : Nat) (state : σ) :
    foldEachFrom step start state (items.modify position replace) =
      foldEachFrom step start state (items.modify position replace') := by
  induction items generalizing position start state with
  | nil => cases found
  | cons head rest ih =>
    cases position with
    | zero =>
      obtain rfl : head = item := by simpa using found
      simp only [modify_zero_cons, foldEachFrom, eq]
    | succ position => simp only [modify_succ_cons, foldEachFrom, ih (by simpa using found)]

/-- Raises an error at the first element that occurred before. -/
def rejectDuplicatesFrom [DecidableEq α] (error : α → ε) : List α → List α → Except ε Unit
  | _, [] => .ok ()
  | existing, item :: rest => do
    reject (item ∈ existing) (error item)
    rejectDuplicatesFrom error (item :: existing) rest

def rejectDuplicates [DecidableEq α] (error : α → ε) (items : List α) : Except ε Unit :=
  rejectDuplicatesFrom error [] items

theorem rejectDuplicates_eq_ok_iff [DecidableEq α] {error : α → ε} (items : List α) :
    rejectDuplicates error items = .ok () ↔ items.Nodup := by
  suffices general : ∀ existing : List α, rejectDuplicatesFrom error existing items = .ok () ↔
      items.Nodup ∧ ∀ item ∈ items, item ∉ existing by
    simpa [rejectDuplicates] using general []
  induction items with
  | nil => simp [rejectDuplicatesFrom]
  | cons head rest ih =>
    intro existing
    rw [rejectDuplicatesFrom, bind_eq_ok, check_eq_ok, reject_eq_ok, ih]
    simp only [List.nodup_cons, mem_cons, not_or, forall_eq_or_imp]
    constructor
    · rintro ⟨headFresh, restFresh, restSeparate⟩
      refine ⟨⟨?_, restFresh⟩, headFresh, fun item mem => (restSeparate item mem).2⟩
      intro headRepeats
      exact (restSeparate head headRepeats).1 rfl
    · rintro ⟨⟨headFresh, restFresh⟩, headSeparate, restSeparate⟩
      refine ⟨headSeparate, restFresh, fun item mem => ⟨?_, restSeparate item mem⟩⟩
      rintro rfl
      exact headFresh mem

end

variable {α σ : Type} {step : σ → α → Option σ} {items : List α} {state final : σ}
  (invariant : List α → σ → Prop)
  (preserved : ∀ processed state item next, invariant processed state →
    step state item = some next → invariant (processed ++ [item]) next)

include preserved

theorem foldlM_some_invariant_from {processed : List α} (initially : invariant processed state)
    (ran : items.foldlM step state = some final) : invariant (processed ++ items) final := by
  induction items generalizing processed state with
  | nil =>
    cases ran
    rwa [append_nil]
  | cons head rest ih =>
    rw [foldlM_cons, Option.bind_eq_bind, Option.bind_eq_some_iff] at ran
    obtain ⟨next, stepped, continued⟩ := ran
    have extended := ih (preserved processed state head next initially stepped) continued
    rwa [append_assoc, singleton_append] at extended

end ExceptLoop
