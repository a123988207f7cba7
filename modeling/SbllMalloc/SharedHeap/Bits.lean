import Mathlib

/-!
# The holder bitmap and the page bit vectors

`sharingProcessesInfo` holds one entry per page index of the heap window: a `uint8_t` when
`numProc` is 8, a `uint16_t` when it is 16. Bit `myRank` of entry `i` says that the sibling of
that rank holds frame `i` of the backing file. A sibling reaches its bit through
`currProcMask = (0x01) << myRank` and `currProcMaskInverted = ~currProcMask`, an
`unsigned long`; every store narrows to the entry's width, which the model writes as
`% 2 ^ numProc`. The table is a function from page index to entry.

`CountSharingProcs` counts the bits of an entry with the loop `x &= (x - 1)`. It is `countBits`,
run with `x` rounds of fuel (each round lowers `x`), and `countBits_eq_pop` proves it equal to
`pop`, the number of one bits, which the counting arguments use.

`initializedPagesBV` and `zeroPagesBV` are byte arrays with one bit per page index
(`array[index >> 3]`, bit `index & 7`); the model reads them as functions from page index to
`Bool`. `SetMultiBits` keeps its whole-byte fast path.
-/

namespace SbllMalloc.SharedHeap

/-! ## Counting bits -/

/-- The loop of `CountSharingProcs`, `for (count = 0; x; count++) x &= (x - 1);`, for at most
`fuel` rounds. -/
def countBitsAux : Nat → Nat → Nat
  | 0, _ => 0
  | fuel + 1, x => if x = 0 then 0 else countBitsAux fuel (x &&& (x - 1)) + 1

/-- The count `CountSharingProcs` returns for an entry. -/
def countBits (x : Nat) : Nat := countBitsAux x x

/-- The number of one bits. -/
def pop (x : Nat) : Nat := if x = 0 then 0 else pop (x / 2) + x % 2
termination_by x
decreasing_by omega

theorem pop_eq (x : Nat) : pop x = pop (x / 2) + x % 2 := by
  rw [pop]; split_ifs with h
  · subst h; simp [pop]
  · rfl

@[simp] theorem pop_zero : pop 0 = 0 := by rw [pop]; simp

theorem mod_two_eq_of_testBit (x : Nat) : x % 2 = if x.testBit 0 then 1 else 0 := by
  simp only [Nat.testBit_zero, decide_eq_true_eq]; split_ifs <;> omega

theorem pop_or_two_pow : ∀ (j x : Nat), x.testBit j = false → pop (x ||| 2 ^ j) = pop x + 1
  | 0, x, h => by
    have hdiv : (x ||| 2 ^ 0) / 2 = x / 2 := Nat.eq_of_testBit_eq fun i => by
      simp only [Nat.testBit_div_two, Nat.testBit_or, Nat.testBit_two_pow]; simp
    have hbit : (x ||| 2 ^ 0).testBit 0 = true := by simp
    rw [pop_eq, hdiv, mod_two_eq_of_testBit, hbit, pop_eq x, mod_two_eq_of_testBit x, h]; rfl
  | j + 1, x, h => by
    have hdiv : (x ||| 2 ^ (j + 1)) / 2 = x / 2 ||| 2 ^ j := Nat.eq_of_testBit_eq fun i => by
      simp only [Nat.testBit_div_two, Nat.testBit_or, Nat.testBit_two_pow]; simp
    have hbit : (x ||| 2 ^ (j + 1)).testBit 0 = x.testBit 0 := by simp [Nat.testBit_two_pow]
    rw [pop_eq, hdiv, mod_two_eq_of_testBit, hbit,
      pop_or_two_pow j (x / 2) (by rwa [Nat.testBit_div_two]), pop_eq x, mod_two_eq_of_testBit x]
    omega

theorem and_pred_of_odd {x : Nat} (h : x % 2 = 1) : x &&& (x - 1) = x - 1 :=
  Nat.eq_of_testBit_eq fun i => by
    rcases i with _ | i
    · simp [Nat.testBit_zero]; omega
    · rw [Nat.testBit_and, Nat.testBit_succ, Nat.testBit_succ, show (x - 1) / 2 = x / 2 by omega,
        Bool.and_self]

theorem and_pred_of_even {x : Nat} (h : x % 2 = 0) (hx : 0 < x) :
    x &&& (x - 1) = 2 * (x / 2 &&& (x / 2 - 1)) :=
  Nat.eq_of_testBit_eq fun i => by
    rcases i with _ | i
    · simp [Nat.testBit_zero]; omega
    · rw [Nat.testBit_and, Nat.testBit_succ, Nat.testBit_succ, Nat.testBit_succ,
        show (x - 1) / 2 = x / 2 - 1 by omega, Nat.mul_div_cancel_left _ (by norm_num),
        Nat.testBit_and]

/-- One round of the loop clears exactly one bit. -/
theorem pop_and_pred (x : Nat) (hx : 0 < x) : pop (x &&& (x - 1)) + 1 = pop x := by
  induction x using Nat.strong_induction_on with
  | _ x ih =>
    rcases Nat.mod_two_eq_zero_or_one x with h | h
    · rw [and_pred_of_even h hx, pop_eq, Nat.mul_div_cancel_left _ (by norm_num), pop_eq x, h,
        Nat.mul_mod_right, ← ih (x / 2) (by omega) (by omega)]
    · rw [and_pred_of_odd h, pop_eq, pop_eq x, h, show (x - 1) / 2 = x / 2 by omega,
        show (x - 1) % 2 = 0 by omega]

theorem countBitsAux_eq : ∀ (fuel x : Nat), x ≤ fuel → countBitsAux fuel x = pop x
  | 0, x, h => by rw [Nat.le_zero.1 h]; simp [countBitsAux, pop]
  | fuel + 1, x, h => by
    simp only [countBitsAux]
    split_ifs with hx
    · subst hx; simp [pop]
    · rw [countBitsAux_eq fuel _ (by have := @Nat.and_le_right x (x - 1); omega),
        pop_and_pred x (by omega)]

theorem countBits_eq_pop (x : Nat) : countBits x = pop x := countBitsAux_eq x x le_rfl

example : countBits 0xb5 = 5 := by decide

theorem pop_eq_sum : ∀ (w x : Nat), x < 2 ^ w →
    pop x = ∑ j ∈ Finset.range w, if x.testBit j then 1 else 0
  | 0, x, h => by simp [show x = 0 by simpa using h, pop]
  | w + 1, x, h => by
    rw [Finset.sum_range_succ', pop_eq, pop_eq_sum w (x / 2) (by rw [pow_succ] at h; omega),
      mod_two_eq_of_testBit]
    simp only [Nat.testBit_div_two]

/-- An entry whose set bits all lie in `S` counts at most `S.card` holders. -/
theorem pop_le_card {w x : Nat} (hx : x < 2 ^ w) {S : Finset Nat}
    (hS : ∀ j, x.testBit j → j ∈ S) : pop x ≤ S.card := by
  rw [pop_eq_sum w x hx, ← Finset.card_filter]
  exact Finset.card_le_card fun j hj => hS j (Finset.mem_filter.1 hj).2

theorem testBit_of_lt {x w j : Nat} (hx : x < 2 ^ w) (hj : w ≤ j) : x.testBit j = false :=
  Nat.testBit_lt_two_pow (lt_of_lt_of_le hx (Nat.pow_le_pow_right (by norm_num) hj))

theorem ne_zero_iff_exists_testBit (x : Nat) : x ≠ 0 ↔ ∃ j, x.testBit j :=
  ⟨Nat.ne_zero_implies_bit_true, fun ⟨j, hj⟩ => by
    have := Nat.testBit_implies_ge hj; have := Nat.one_le_two_pow (n := j); omega⟩

theorem and_ne_zero_iff (x y : Nat) :
    (x &&& y != 0) = true ↔ ∃ j, x.testBit j ∧ y.testBit j := by
  simp [ne_zero_iff_exists_testBit]

/-! ## The holder table -/

/-- `currProcMask`: `(0x01) << myRank`. -/
def currProcMask (myRank : Nat) : Nat := 2 ^ myRank

/-- `currProcMaskInverted`: `~(currProcMask)` as a 64-bit `unsigned long`. -/
def currProcMaskInverted (myRank : Nat) : Nat := 2 ^ 64 - (currProcMask myRank + 1)

theorem testBit_currProcMaskInverted {r : Nat} (hr : r < 64) (j : Nat) :
    (currProcMaskInverted r).testBit j = (decide (j < 64) && !decide (r = j)) := by
  rw [currProcMaskInverted, currProcMask,
    Nat.testBit_two_pow_sub_succ (Nat.pow_lt_pow_right (by norm_num) hr), Nat.testBit_two_pow]

/-- `SetSharingBit`: `entry |= currProcMask`, narrowed to the entry's `numProc` bits. -/
def setSharingBit (numProc myRank : Nat) (info : Nat → Nat) (index : Nat) : Nat → Nat :=
  Function.update info index ((info index ||| currProcMask myRank) % 2 ^ numProc)

/-- `UnsetSharingBit`: `entry &= currProcMaskInverted`, narrowed to `numProc` bits. -/
def unsetSharingBit (numProc myRank : Nat) (info : Nat → Nat) (index : Nat) : Nat → Nat :=
  Function.update info index ((info index &&& currProcMaskInverted myRank) % 2 ^ numProc)

/-- `GetSharingBit`. -/
def getSharingBit (myRank : Nat) (info : Nat → Nat) (index : Nat) : Bool :=
  info index &&& currProcMask myRank != 0

/-- `IsOtherSharing`. -/
def isOtherSharing (myRank : Nat) (info : Nat → Nat) (index : Nat) : Bool :=
  info index &&& currProcMaskInverted myRank != 0

/-- `CountSharingProcs`. -/
def countSharingProcs (info : Nat → Nat) (index : Nat) : Nat := countBits (info index)

section Table

variable {w r : Nat} {info : Nat → Nat}

theorem getSharingBit_eq (r : Nat) (info : Nat → Nat) (i : Nat) :
    getSharingBit r info i = (info i).testBit r := by
  rw [Bool.eq_iff_iff, getSharingBit, and_ne_zero_iff]
  simp [currProcMask, Nat.testBit_two_pow]

theorem isOtherSharing_iff (hr : r < 64) {i : Nat} (hi : info i < 2 ^ 64) :
    isOtherSharing r info i = true ↔ ∃ j, j ≠ r ∧ (info i).testBit j := by
  rw [isOtherSharing, and_ne_zero_iff]
  simp only [testBit_currProcMaskInverted hr, Bool.and_eq_true, decide_eq_true_eq,
    Bool.not_eq_true', decide_eq_false_iff_not]
  constructor
  · rintro ⟨j, hj, -, hrj⟩; exact ⟨j, Ne.symm hrj, hj⟩
  · rintro ⟨j, hrj, hj⟩
    refine ⟨j, hj, ?_, Ne.symm hrj⟩
    by_contra h; rw [testBit_of_lt hi (by omega)] at hj; simp at hj

theorem countSharingProcs_eq (info : Nat → Nat) (i : Nat) :
    countSharingProcs info i = pop (info i) :=
  countBits_eq_pop _

theorem setSharingBit_testBit {i : Nat} (hw : info i < 2 ^ w) (hr : r < w) (k j : Nat) :
    (setSharingBit w r info i k).testBit j =
      ((info k).testBit j || (decide (k = i) && decide (j = r))) := by
  rcases eq_or_ne k i with rfl | hk
  · rw [setSharingBit, Function.update_same, currProcMask, Nat.mod_eq_of_lt
      (Nat.or_lt_two_pow hw (Nat.pow_lt_pow_right (by norm_num) hr))]
    simp [Nat.testBit_two_pow, eq_comm]
  · simp [setSharingBit, Function.update_noteq hk, hk]

theorem unsetSharingBit_testBit {i : Nat} (hw : info i < 2 ^ w) (hw64 : w ≤ 64) (hr : r < 64)
    (k j : Nat) :
    (unsetSharingBit w r info i k).testBit j =
      ((info k).testBit j && !(decide (k = i) && decide (j = r))) := by
  rcases eq_or_ne k i with rfl | hk
  · rw [unsetSharingBit, Function.update_same, Nat.testBit_mod_two_pow, Nat.testBit_and,
      testBit_currProcMaskInverted hr]
    by_cases hj : j < w
    · simp [hj, show j < 64 by omega, eq_comm]
    · simp [hj, testBit_of_lt hw (Nat.le_of_not_lt hj)]
  · simp [unsetSharingBit, Function.update_noteq hk, hk]

theorem setSharingBit_lt {k : Nat} (hw : info k < 2 ^ w) (r i : Nat) :
    setSharingBit w r info i k < 2 ^ w := by
  rcases eq_or_ne k i with rfl | hk
  · simp [setSharingBit, Nat.mod_lt]
  · simpa [setSharingBit, Function.update_noteq hk] using hw

theorem unsetSharingBit_lt {k : Nat} (hw : info k < 2 ^ w) (r i : Nat) :
    unsetSharingBit w r info i k < 2 ^ w := by
  rcases eq_or_ne k i with rfl | hk
  · simp [unsetSharingBit, Nat.mod_lt]
  · simpa [unsetSharingBit, Function.update_noteq hk] using hw

/-- Setting a clear bit adds one holder. -/
theorem pop_setSharingBit {i : Nat} (hw : info i < 2 ^ w) (hr : r < w)
    (hb : (info i).testBit r = false) : pop (setSharingBit w r info i i) = pop (info i) + 1 := by
  rw [setSharingBit, Function.update_same, currProcMask, Nat.mod_eq_of_lt
    (Nat.or_lt_two_pow hw (Nat.pow_lt_pow_right (by norm_num) hr)), pop_or_two_pow r _ hb]

/-- Clearing a set bit removes one holder. -/
theorem pop_unsetSharingBit {i : Nat} (hw : info i < 2 ^ w) (hw64 : w ≤ 64) (hr : r < 64)
    (hb : (info i).testBit r = true) : pop (unsetSharingBit w r info i i) + 1 = pop (info i) := by
  have hor : unsetSharingBit w r info i i ||| 2 ^ r = info i := Nat.eq_of_testBit_eq fun j => by
    rw [Nat.testBit_or, unsetSharingBit_testBit hw hw64 hr, Nat.testBit_two_pow]
    by_cases hj : j = r
    · subst hj; simp [hb]
    · simp [hj, Ne.symm hj]
  have hclear : (unsetSharingBit w r info i i).testBit r = false := by
    simp [unsetSharingBit_testBit hw hw64 hr]
  rw [← pop_or_two_pow r _ hclear, hor]

@[simp] theorem pop_two_pow (r : Nat) : pop (2 ^ r) = 1 := by
  simpa using pop_or_two_pow r 0 (Nat.zero_testBit r)

/-- A set bit is one holder at least. -/
theorem pop_pos_of_testBit : ∀ {j x : Nat}, x.testBit j = true → 0 < pop x
  | 0, x, h => by rw [pop_eq, mod_two_eq_of_testBit, h]; simp
  | j + 1, x, h => by
    have := pop_pos_of_testBit (x := x / 2) (by rwa [Nat.testBit_div_two])
    rw [pop_eq]; omega

/-- An entry with neither this sibling's bit nor another's is empty. -/
theorem eq_zero_of_not_isOtherSharing (hr : r < 64) {i : Nat} (hi : info i < 2 ^ 64)
    (hown : (info i).testBit r = false) (hoth : isOtherSharing r info i = false) : info i = 0 :=
  Nat.eq_of_testBit_eq fun j => by
    rw [Nat.zero_testBit]
    by_cases hj : j = r
    · rw [hj, hown]
    · cases h : (info i).testBit j
      · rfl
      · exact absurd ((isOtherSharing_iff hr hi).2 ⟨j, hj, h⟩) (by rw [hoth]; simp)

/-- Another sibling's bit is a holder. -/
theorem pop_pos_of_isOtherSharing (hr : r < 64) {i : Nat} (hi : info i < 2 ^ 64)
    (hoth : isOtherSharing r info i = true) : 0 < pop (info i) := by
  obtain ⟨j, -, hj⟩ := (isOtherSharing_iff hr hi).1 hoth
  exact pop_pos_of_testBit hj

/-- A rank at or above the entry width has no bit to set: the narrowing store drops it. -/
theorem setSharingBit_of_le (hr : w ≤ r) (hw : ∀ k, info k < 2 ^ w) (i : Nat) :
    setSharingBit w r info i = info := by
  funext k
  refine Nat.eq_of_testBit_eq fun j => ?_
  rcases eq_or_ne k i with rfl | hk
  · rw [setSharingBit, Function.update_same, Nat.testBit_mod_two_pow, Nat.testBit_or]
    by_cases hj : j < w
    · simp [hj, currProcMask, Nat.testBit_two_pow, show r ≠ j by omega]
    · simp [hj, testBit_of_lt (hw k) (Nat.le_of_not_lt hj)]
  · rw [setSharingBit, Function.update_noteq hk]

end Table

/-! ## Page bit vectors -/

/-- `SetAndReturnBit`: the old bit, and the array with the bit set. -/
def setAndReturnBit (array : Nat → Bool) (index : Nat) : Bool × (Nat → Bool) :=
  (array index, Function.update array index true)

/-- `ResetAndReturnBit`: the old bit, and the array with the bit cleared. -/
def resetAndReturnBit (array : Nat → Bool) (index : Nat) : Bool × (Nat → Bool) :=
  (array index, Function.update array index false)

/-- The loop of `SetMultiBits`, for at most `fuel` rounds: a whole byte
(`array[index >> 3] = 0xff`) when `index` is byte-aligned and eight bits remain, one bit
otherwise. -/
def setMultiBitsLoop : (fuel : Nat) → (array : Nat → Bool) → (index bsize : Nat) → Nat → Bool
  | 0, array, _, _ => array
  | fuel + 1, array, index, bsize =>
    if bsize = 0 then array
    else if index % 8 = 0 ∧ 8 ≤ bsize then
      setMultiBitsLoop fuel (fun j => array j || decide (j / 8 = index / 8)) (index + 8) (bsize - 8)
    else setMultiBitsLoop fuel (Function.update array index true) (index + 1) (bsize - 1)

/-- `SetMultiBits` over the `bsize` pages from page index `index`; each round lowers `bsize`. -/
def setMultiBits (array : Nat → Bool) (index bsize : Nat) : Nat → Bool :=
  setMultiBitsLoop bsize array index bsize

theorem setMultiBitsLoop_eq : ∀ (fuel : Nat) (array : Nat → Bool) (index bsize : Nat),
    bsize ≤ fuel →
      setMultiBitsLoop fuel array index bsize =
        fun j => array j || decide (index ≤ j ∧ j < index + bsize)
  | 0, array, index, bsize, h => by
    funext j; simp [setMultiBitsLoop, show bsize = 0 by omega]
  | fuel + 1, array, index, bsize, h => by
    funext j
    simp only [setMultiBitsLoop]
    split_ifs with h0 h8
    · subst h0; simp
    · rw [setMultiBitsLoop_eq fuel _ _ _ (by omega)]; beta_reduce
      rw [Bool.or_assoc, ← Bool.decide_or]; congr 1; rw [decide_eq_decide]; omega
    · rw [setMultiBitsLoop_eq fuel _ _ _ (by omega)]; beta_reduce
      rcases eq_or_ne j index with rfl | hj
      · simp [Nat.pos_of_ne_zero h0]
      · rw [Function.update_noteq hj]; congr 1; rw [decide_eq_decide]; omega

/-- Single-bit stores `array[j >> 3] |= (0x01 << (j & 0x07))` for each `j` of a range. -/
theorem foldl_update_range' (array : Nat → Bool) (index : Nat) : ∀ n : Nat,
    (List.range' index n).foldl (fun a j => Function.update a j true) array =
      fun j => array j || decide (index ≤ j ∧ j < index + n)
  | 0 => by funext j; simp
  | n + 1 => by
    rw [List.range'_concat, List.foldl_append, foldl_update_range' array index n]
    funext j
    rcases eq_or_ne j (index + 1 * n) with rfl | hj
    · simp
    · rw [List.foldl_cons, List.foldl_nil, Function.update_noteq hj]
      congr 1; rw [decide_eq_decide]; omega

/-- The whole-byte store `array[index >> 3] = 0xff` at a byte-aligned `index` sets the bits of
the eight single-bit stores from `index`. -/
theorem setByte_eq_setBits (array : Nat → Bool) {index : Nat} (h : index % 8 = 0) :
    (fun j => array j || decide (j / 8 = index / 8)) =
      (List.range' index 8).foldl (fun a j => Function.update a j true) array := by
  rw [foldl_update_range']; funext j; congr 1; rw [decide_eq_decide]; omega

/-- `SetMultiBits` sets exactly the bits of its range. -/
theorem setMultiBits_eq (array : Nat → Bool) (index bsize : Nat) :
    setMultiBits array index bsize = fun j => array j || decide (index ≤ j ∧ j < index + bsize) :=
  setMultiBitsLoop_eq bsize array index bsize le_rfl

end SbllMalloc.SharedHeap
