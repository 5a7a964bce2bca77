import Mathlib.Data.Nat.Bitwise

namespace BitRegroup

open List

/-!
# Regrouping the bits of symbols

A list of symbols of one width is read as a stream of bits, highest bit first,
and cut into symbols of another width. What is left at the end is padded with
zeros or dropped.
-/

/-- The low bits of a number, highest first. -/
def bitsOf : Nat → Nat → List Bool
  | 0, _ => []
  | width + 1, value => value.testBit width :: bitsOf width value

@[simp] theorem length_bitsOf (width value : Nat) : (bitsOf width value).length = width := by
  induction width with
  | zero => rfl
  | succ width ih => rw [bitsOf, length_cons, ih]

variable {width first second : Nat}

theorem bitsOf_eq_iff : bitsOf width first = bitsOf width second ↔
    ∀ index < width, first.testBit index = second.testBit index := by
  induction width with
  | zero => simp [bitsOf]
  | succ width ih =>
    rw [bitsOf, bitsOf, List.cons.injEq, ih]
    constructor
    · rintro ⟨top, below⟩ index inside
      rcases Nat.lt_succ_iff_lt_or_eq.mp inside with less | rfl
      · exact below index less
      · exact top
    · intro eq
      exact ⟨eq width (Nat.lt_succ_self width),
        fun index inside => eq index (Nat.lt_succ_of_lt inside)⟩

theorem bitsOf_inj (firstFits : first < 2 ^ width) (secondFits : second < 2 ^ width)
    (eq : bitsOf width first = bitsOf width second) : first = second := by
  apply Nat.eq_of_testBit_eq
  intro index
  rcases Nat.lt_or_ge index width with inside | outside
  · exact bitsOf_eq_iff.mp eq index inside
  · have larger : 2 ^ width ≤ 2 ^ index := Nat.pow_le_pow_right Nat.two_pos outside
    rw [Nat.testBit_lt_two_pow (firstFits.trans_le larger),
      Nat.testBit_lt_two_pow (secondFits.trans_le larger)]

theorem bitsOf_add (high low value : Nat) :
    bitsOf (high + low) value = bitsOf high (value / 2 ^ low) ++ bitsOf low value := by
  induction high with
  | zero =>
    rw [Nat.zero_add]
    rfl
  | succ high ih =>
    rw [Nat.succ_add, bitsOf, ih, bitsOf, Nat.testBit_div_two_pow]
    rfl

theorem bitsOf_mod {bound value : Nat} (inside : width ≤ bound) :
    bitsOf width (value % 2 ^ bound) = bitsOf width value := by
  rw [bitsOf_eq_iff]
  intro index less
  rw [Nat.testBit_mod_two_pow, decide_eq_true (Nat.lt_of_lt_of_le less inside), Bool.true_and]

@[simp] theorem bitsOf_zero (width : Nat) : bitsOf width 0 = List.replicate width false := by
  induction width with
  | zero => rfl
  | succ width ih => rw [bitsOf, ih, Nat.zero_testBit, replicate_succ]

theorem bitsOf_shiftLeft_or {bits width buffer symbol : Nat} (fits : symbol < 2 ^ width) :
    bitsOf (bits + width) (buffer <<< width ||| symbol) =
      bitsOf bits buffer ++ bitsOf width symbol := by
  have high : (buffer <<< width ||| symbol) / 2 ^ width = buffer := by
    rw [← Nat.shiftLeft_add_eq_or_of_lt fits, Nat.shiftLeft_eq, Nat.mul_comm,
      Nat.mul_add_div (Nat.two_pow_pos width), Nat.div_eq_of_lt fits, Nat.add_zero]
  have low : (buffer <<< width ||| symbol) % 2 ^ width = symbol := by
    rw [← Nat.shiftLeft_add_eq_or_of_lt fits, Nat.shiftLeft_eq,
      Nat.mul_comm, Nat.mul_add_mod, Nat.mod_eq_of_lt fits]
  rw [bitsOf_add, high, ← bitsOf_mod (Nat.le_refl width), low]

theorem shiftLeft_or_lt {bits buffer symbol : Nat} (bufferFits : buffer < 2 ^ bits)
    (fits : symbol < 2 ^ width) : buffer <<< width ||| symbol < 2 ^ (bits + width) := by
  rw [← Nat.shiftLeft_add_eq_or_of_lt fits, Nat.shiftLeft_eq, Nat.pow_add]
  calc buffer * 2 ^ width + symbol < buffer * 2 ^ width + 2 ^ width := Nat.add_lt_add_left fits _
    _ = (buffer + 1) * 2 ^ width := (Nat.succ_mul _ _).symm
    _ ≤ 2 ^ bits * 2 ^ width := Nat.mul_le_mul_right _ bufferFits

def stream (width : Nat) (symbols : List Nat) : List Bool := symbols.flatMap (bitsOf width)

@[simp] theorem stream_nil (width : Nat) : stream width [] = [] :=
  rfl

@[simp] theorem stream_cons (width symbol : Nat) (symbols : List Nat) :
    stream width (symbol :: symbols) = bitsOf width symbol ++ stream width symbols :=
  rfl

@[simp] theorem stream_append (width : Nat) (first second : List Nat) :
    stream width (first ++ second) = stream width first ++ stream width second :=
  flatMap_append

@[simp] theorem length_stream (width : Nat) (symbols : List Nat) :
    (stream width symbols).length = symbols.length * width := by
  induction symbols with
  | nil => simp
  | cons symbol symbols ih =>
    rw [stream_cons, length_append, length_bitsOf, ih, length_cons, Nat.succ_mul, Nat.add_comm]

theorem stream_inj {symbols others : List Nat} (sameLength : symbols.length = others.length)
    (symbolsFit : ∀ symbol ∈ symbols, symbol < 2 ^ width)
    (othersFit : ∀ symbol ∈ others, symbol < 2 ^ width)
    (eq : stream width symbols = stream width others) : symbols = others := by
  induction symbols generalizing others with
  | nil => exact (eq_nil_of_length_eq_zero sameLength.symm).symm
  | cons symbol symbols ih =>
    cases others with
    | nil => cases sameLength
    | cons other others =>
      rw [stream_cons, stream_cons] at eq
      obtain ⟨sameBits, sameRest⟩ := List.append_inj eq (by simp)
      rw [forall_mem_cons] at symbolsFit othersFit
      rw [bitsOf_inj symbolsFit.1 othersFit.1 sameBits,
        ih (Nat.succ.inj sameLength) symbolsFit.2 othersFit.2 sameRest]

/-- The symbols that were cut off, and the buffer with its number of bits. -/
structure Cut where
  symbols : List Nat
  buffer : Nat
  bits : Nat
  deriving Repr, DecidableEq

/-- Cuts symbols off the buffer while it holds enough bits. -/
def drain (target : Nat) : Nat → Nat → Nat → Cut
  | 0, buffer, bits => ⟨[], buffer, bits⟩
  | fuel + 1, buffer, bits =>
    if target ≤ bits then
      let rest := drain target fuel (buffer % 2 ^ (bits - target)) (bits - target)
      { rest with symbols := buffer >>> (bits - target) :: rest.symbols }
    else
      ⟨[], buffer, bits⟩

/-- Shifts the symbols into the buffer one by one and cuts off what is
full. -/
def regroup (source target : Nat) : Nat → Nat → List Nat → Cut
  | buffer, bits, [] => ⟨[], buffer, bits⟩
  | buffer, bits, symbol :: symbols =>
    let full := drain target (bits + source) (buffer <<< source ||| symbol) (bits + source)
    let rest := regroup source target full.buffer full.bits symbols
    { rest with symbols := full.symbols ++ rest.symbols }

/-- A cut holds a stream of bits, with less than a symbol in the buffer. -/
structure Cut.Holds (target : Nat) (bits : List Bool) (cut : Cut) : Prop where
  stream_eq : stream target cut.symbols ++ bitsOf cut.bits cut.buffer = bits
  bits_lt : cut.bits < target
  buffer_lt : cut.buffer < 2 ^ cut.bits
  symbols_lt : ∀ symbol ∈ cut.symbols, symbol < 2 ^ target

variable {target : Nat}

theorem drain_holds {fuel buffer bits : Nat} (pos : 0 < target) (enough : bits ≤ fuel)
    (fits : buffer < 2 ^ bits) :
    (drain target fuel buffer bits).Holds target (bitsOf bits buffer) := by
  induction fuel generalizing buffer bits with
  | zero =>
    cases Nat.le_zero.mp enough
    exact ⟨rfl, pos, fits, by simp [drain]⟩
  | succ fuel ih =>
    unfold drain
    split_ifs with full
    · have rest := @ih (buffer % 2 ^ (bits - target))
        (bits - target) (by omega) (Nat.mod_lt _ (Nat.two_pow_pos _))
      have split : bits = target + (bits - target) := by omega
      refine ⟨?_, rest.bits_lt, rest.buffer_lt, ?_⟩
      · rw [stream_cons, append_assoc, rest.stream_eq, bitsOf_mod (Nat.le_refl _),
          Nat.shiftRight_eq_div_pow, ← bitsOf_add, ← split]
      · rw [forall_mem_cons]
        refine ⟨?_, rest.symbols_lt⟩
        rw [Nat.shiftRight_eq_div_pow,
          Nat.div_lt_iff_lt_mul (Nat.two_pow_pos _), ← Nat.pow_add, ← split]
        exact fits
    · exact ⟨rfl, not_le.mp full, fits, by simp⟩

theorem regroup_holds {source target buffer bits : Nat} {symbols : List Nat}
    (bitsLt : bits < target) (fits : buffer < 2 ^ bits)
    (symbolsFit : ∀ symbol ∈ symbols, symbol < 2 ^ source) :
    (regroup source target buffer bits symbols).Holds target
      (bitsOf bits buffer ++ stream source symbols) := by
  induction symbols generalizing buffer bits with
  | nil => exact ⟨by simp [regroup], bitsLt, fits, by simp [regroup]⟩
  | cons symbol symbols ih =>
    rw [forall_mem_cons] at symbolsFit
    have full := drain_holds (Nat.zero_lt_of_lt bitsLt)
      (Nat.le_refl (bits + source)) (shiftLeft_or_lt fits symbolsFit.1)
    have rest := ih full.bits_lt full.buffer_lt symbolsFit.2
    unfold regroup
    refine ⟨?_, rest.bits_lt, rest.buffer_lt, ?_⟩
    · rw [stream_append, append_assoc, rest.stream_eq, ← append_assoc, full.stream_eq,
        bitsOf_shiftLeft_or symbolsFit.1, append_assoc, stream_cons]
    · exact forall_mem_append.mpr ⟨full.symbols_lt, rest.symbols_lt⟩

theorem Cut.Holds.length {bits : List Bool} {cut : Cut} (holds : cut.Holds target bits) :
    cut.symbols.length = bits.length / target ∧ cut.bits = bits.length % target := by
  have total := congrArg List.length holds.stream_eq
  rw [length_append, length_stream, length_bitsOf] at total
  rw [← total, Nat.add_comm, Nat.mul_comm]
  have pos := Nat.zero_lt_of_lt holds.bits_lt
  constructor
  · rw [Nat.add_mul_div_left _ _ pos, Nat.div_eq_of_lt holds.bits_lt, Nat.zero_add]
  · rw [Nat.add_mul_mod_self_left, Nat.mod_eq_of_lt holds.bits_lt]

/-- The symbols with what is left in the buffer as a last symbol, padded with
zeros. -/
def Cut.padded (target : Nat) (cut : Cut) : List Nat :=
  if 0 < cut.bits then
    cut.symbols ++ [cut.buffer <<< (target - cut.bits)]
  else
    cut.symbols

/-- How many zeros fill up the last symbol. -/
def padding (target length : Nat) : Nat := (target - length % target) % target

variable {target : Nat} {bits : List Bool} {cut : Cut}

theorem Cut.Holds.stream_padded (holds : cut.Holds target bits) :
    stream target (cut.padded target) =
      bits ++ List.replicate (padding target bits.length) false := by
  have left := holds.length.2
  have less := holds.bits_lt
  unfold Cut.padded padding
  rw [← left]
  split_ifs with some
  · have pad : (target - cut.bits) % target = target - cut.bits := Nat.mod_eq_of_lt (by omega)
    have split : target = cut.bits + (target - cut.bits) := by omega
    have last : bitsOf target (cut.buffer <<< (target - cut.bits)) = bitsOf cut.bits cut.buffer ++
        List.replicate (target - cut.bits) false := by
      have shifted := @bitsOf_shiftLeft_or cut.bits (target - cut.bits)
        cut.buffer 0 (Nat.two_pow_pos _)
      rwa [← split, Nat.or_zero, bitsOf_zero] at shifted
    rw [stream_append, stream_cons, stream_nil, append_nil, last, pad,
      ← append_assoc, holds.stream_eq]
  · have none : cut.bits = 0 := by omega
    have all := holds.stream_eq
    rw [none, bitsOf, append_nil] at all
    rw [none, Nat.sub_zero, Nat.mod_self, all, replicate_zero, append_nil]

theorem Cut.Holds.padded_lt (holds : cut.Holds target bits) :
    ∀ symbol ∈ cut.padded target, symbol < 2 ^ target := by
  have less := holds.bits_lt
  unfold Cut.padded
  split_ifs with some
  · intro symbol mem
    rcases mem_append.mp mem with whole | last
    · exact holds.symbols_lt symbol whole
    · cases mem_singleton.mp last
      rw [Nat.shiftLeft_eq]
      calc cut.buffer * 2 ^ (target - cut.bits) < 2 ^ cut.bits * 2 ^ (target - cut.bits) :=
          Nat.mul_lt_mul_of_pos_right holds.buffer_lt (Nat.two_pow_pos _)
        _ = 2 ^ target := by
          rw [← Nat.pow_add]
          congr 1
          omega
  · exact holds.symbols_lt

theorem padding_eq {width length dropped count : Nat} (total : length + dropped = count * width)
    (short : dropped < width) : padding width length = dropped := by
  unfold padding
  rcases Nat.eq_zero_or_pos dropped with rfl | some
  · rw [Nat.add_zero] at total
    rw [total, Nat.mul_mod_left, Nat.sub_zero, Nat.mod_self]
  · cases count with
    | zero => omega
    | succ count =>
      rw [Nat.succ_mul] at total
      have split : length = width * count + (width - dropped) := by
        rw [Nat.mul_comm]
        omega
      have left : length % width = width - dropped := by
        rw [split, Nat.mul_add_mod]
        exact Nat.mod_eq_of_lt (by omega)
      rw [left, Nat.sub_sub_self short.le, Nat.mod_eq_of_lt short]

variable {source : Nat} {symbols : List Nat}

theorem regroup_holds_stream (pos : 0 < target)
    (fits : ∀ symbol ∈ symbols, symbol < 2 ^ source) :
    (regroup source target 0 0 symbols).Holds target (stream source symbols) := by
  have holds := @regroup_holds source target 0 0 symbols pos (by decide) fits
  exact holds

/-- Narrow symbols with their padding give back the wide symbols. -/
theorem regroup_padded (pos : 0 < target) (narrower : target ≤ source)
    (fits : ∀ symbol ∈ symbols, symbol < 2 ^ source) :
    (regroup target source 0 0 ((regroup source target 0 0 symbols).padded target)).symbols =
      symbols := by
  have forth := regroup_holds_stream pos fits
  have back := regroup_holds_stream (Nat.lt_of_lt_of_le pos narrower) forth.padded_lt
  rw [forth.stream_padded] at back
  have short : padding target (stream source symbols).length < source :=
    Nat.lt_of_lt_of_le (Nat.mod_lt _ pos) narrower
  have count := back.length.1
  rw [length_append, length_stream, length_replicate,
    Nat.mul_comm, Nat.mul_add_div (by omega), ← Nat.mul_comm] at count
  rw [length_stream] at short
  rw [Nat.div_eq_of_lt short, Nat.add_zero] at count
  -- the first bits of both streams are the symbols
  obtain ⟨sameStream, -⟩ := List.append_inj back.stream_eq
    (by rw [length_stream, length_stream, count])
  exact stream_inj count back.symbols_lt fits sameStream

/-- Wide symbols give back the narrow symbols they were cut from, when what was
dropped is less than one symbol of zeros. -/
theorem padded_regroup (pos : 0 < source) (fits : ∀ symbol ∈ symbols, symbol < 2 ^ source)
    (targetPositive : 0 < target) (short : (regroup source target 0 0 symbols).bits < source)
    (zero : (regroup source target 0 0 symbols).buffer = 0) :
    (regroup target source 0 0 (regroup source target 0 0 symbols).symbols).padded source =
      symbols := by
  have forth := regroup_holds_stream targetPositive fits
  have back := regroup_holds_stream pos forth.symbols_lt
  have whole := forth.stream_eq
  rw [zero, bitsOf_zero] at whole
  have total := congrArg List.length whole
  rw [length_append, length_replicate, length_stream source] at total
  -- the zeros that were dropped are the ones that are put back
  have pad := padding_eq total short
  have sameStream := back.stream_padded
  rw [pad, whole] at sameStream
  refine stream_inj ?_ back.padded_lt fits sameStream
  have sameLength := congrArg List.length sameStream
  rw [length_stream, length_stream] at sameLength
  exact Nat.eq_of_mul_eq_mul_right pos sameLength

end BitRegroup
