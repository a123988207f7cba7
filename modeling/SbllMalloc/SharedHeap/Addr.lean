import SbllMalloc.SharedHeap.State

/-!
# Addresses of the heap window

`Init_Heap_Boundary` maps two one-page probes and reads the kernel's placement from them: when
the second probe lies below the first the heap grows downwards and the 3 GiB window ends just
above the first probe, otherwise the window starts at the first probe. `TranslateMmapAddr` turns
an address strictly inside `(sharedHeapBottom, sharedHeapTop)` into its offset in the backing
file and calls `Fatal` on any other address (`none`). `Addr2PageIndex` shifts that offset right
by `log2PAGE_SIZE`, which `InitAddrSpace` sets to `CeilLog2(PAGE_SIZE)`. The mask tests of
`FloorLog2` read the low 32 bits of its `unsigned long` only: it computes `⌊log₂ n⌋` exactly below
`2 ^ 32` (`floorLog2_ceilLog2_exact_iff`), which covers every page size.

Everywhere else the model names a page by this index (`State.lean`); `Aligned.addr2PageIndex_page` is
the bridge: the address `sharedHeapBottom + j * PAGE_SIZE` has index `j` exactly when
`0 < j < Config.heapPages`. The bit routines that take an address, `SetBit` and `SetMultiBits`,
are stated here on addresses. `uintptr_t` and `unsigned long` arithmetic is modulo `2 ^ 64`.
-/

namespace SbllMalloc.SharedHeap

/-! ## `FloorLog2` and `CeilLog2` -/

/-- `FloorLog2(n)` of an `unsigned long`: `-1` for `0`, else the five mask tests of the source,
which look at the low 32 bits only. -/
def floorLog2 (n : Nat) : Int :=
  if n = 0 then -1
  else
    let (p, n) := if n &&& 0xffff0000 ≠ 0 then ((16 : Int), n >>> 16) else (0, n)
    let (p, n) := if n &&& 0x0000ff00 ≠ 0 then (p + 8, n >>> 8) else (p, n)
    let (p, n) := if n &&& 0x000000f0 ≠ 0 then (p + 4, n >>> 4) else (p, n)
    let (p, n) := if n &&& 0x0000000c ≠ 0 then (p + 2, n >>> 2) else (p, n)
    if n &&& 0x00000002 ≠ 0 then p + 1 else p

/-- `CeilLog2(n) = FloorLog2(n - 1) + 1`, the subtraction in `unsigned long`. -/
def ceilLog2 (n : Nat) : Int := floorLog2 ((n + (2 ^ 64 - 1)) % 2 ^ 64) + 1

/-! ### The mask cascade

Each test `if (n & mask) { p += k; n >>= k; }` looks at bits `k` to `2k - 1` of what is left of
`n`. On a value below `2 ^ 32` the five tests halve the width each time and end on the index of
the highest set bit (`floorLog2_of_lt`). The first mask is `0xffff0000`, though, so on a value
from `2 ^ 32` on the bits above `31` are never tested, and the count stays at most `31`
(`floorLog2_le`). -/

/-- One mask test of `FloorLog2`: `if (n & mask) { p += k; n >>= k; }`. -/
def maskStep (k mask : Nat) (st : Int × Nat) : Int × Nat :=
  if st.2 &&& mask ≠ 0 then (st.1 + k, st.2 >>> k) else st

/-- `FloorLog2` of a non-zero value: four mask tests that shift, then the test of bit `1`. -/
theorem floorLog2_eq {n : Nat} (h : n ≠ 0) :
    floorLog2 n =
      let st := maskStep 2 0xc (maskStep 4 0xf0 (maskStep 8 0xff00 (maskStep 16 0xffff0000 (0, n))))
      if st.2 &&& 0x2 ≠ 0 then st.1 + 1 else st.1 := by
  rw [floorLog2, if_neg h]
  rfl

theorem maskStep_fst_le (k mask : Nat) {st : Int × Nat} {c : Int} (h : st.1 ≤ c) :
    (maskStep k mask st).1 ≤ c + k := by
  unfold maskStep; split_ifs <;> (try dsimp only) <;> omega

/-- `FloorLog2` never returns more than `31 = 16 + 8 + 4 + 2 + 1`. -/
theorem floorLog2_le (n : Nat) : floorLog2 n ≤ 31 := by
  by_cases h : n = 0
  · simp [floorLog2, h]
  have hc : (maskStep 2 0xc (maskStep 4 0xf0 (maskStep 8 0xff00
      (maskStep 16 0xffff0000 (0, n))))).1 ≤ 0 + 16 + 8 + 4 + 2 :=
    maskStep_fst_le 2 0xc (maskStep_fst_le 4 0xf0 (maskStep_fst_le 8 0xff00
      (maskStep_fst_le 16 0xffff0000 le_rfl)))
  rw [floorLog2_eq h]
  dsimp only
  split_ifs <;> omega

/-- Below `2 ^ (2k)`, the mask of bits `k` to `2k - 1` meets `m` exactly when `m` reaches
`2 ^ k`. -/
theorem and_mask_ne_zero_iff {m k : Nat} (hm : m < 2 ^ (2 * k)) :
    m &&& (2 ^ k - 1) <<< k ≠ 0 ↔ 2 ^ k ≤ m := by
  rw [ne_zero_iff_exists_testBit]
  simp only [Nat.testBit_and, Nat.testBit_shiftLeft, Nat.testBit_two_pow_sub_one, Bool.and_eq_true,
    decide_eq_true_eq]
  constructor
  · rintro ⟨j, hj, hkj, -⟩
    exact (Nat.pow_le_pow_right two_pos hkj).trans (Nat.testBit_implies_ge hj)
  · intro h
    by_contra hne
    refine absurd (Nat.lt_pow_two_of_testBit m fun i hi => ?_) (not_lt.2 h)
    by_contra hb
    have hi2 : i < 2 * k := by
      by_contra hge; exact hb (testBit_of_lt hm (by omega))
    exact hne ⟨i, by simpa using hb, hi, by omega⟩

/-- `st` is a state of `FloorLog2` on `n` whose value is below `2 ^ w`: `n` shifted right by the
count `p`, and not zero. -/
def ScanState (n w : Nat) (st : Int × Nat) : Prop :=
  ∃ p : Nat, st = ((p : Int), n / 2 ^ p) ∧ 0 < n / 2 ^ p ∧ n / 2 ^ p < 2 ^ w

/-- The test of bits `k` to `2k - 1` halves the width: the count grows by `k` exactly when the
value reaches `2 ^ k`, and the value is shifted with it. -/
theorem ScanState.step {n k : Nat} {st : Int × Nat} (h : ScanState n (2 * k) st) :
    ScanState n k (maskStep k ((2 ^ k - 1) <<< k) st) := by
  obtain ⟨p, rfl, h0, hlt⟩ := h
  have hdiv : n / 2 ^ (p + k) = n / 2 ^ p / 2 ^ k := by rw [pow_add, Nat.div_div_eq_div_mul]
  unfold maskStep
  by_cases hk : 2 ^ k ≤ n / 2 ^ p
  · rw [if_pos ((and_mask_ne_zero_iff hlt).2 hk)]
    refine ⟨p + k, by simp [Nat.shiftRight_eq_div_pow, hdiv], ?_, ?_⟩
    · rw [hdiv]; exact Nat.div_pos hk (Nat.two_pow_pos k)
    · rw [hdiv, Nat.div_lt_iff_lt_mul (Nat.two_pow_pos k), ← pow_add, ← two_mul]; exact hlt
  · rw [if_neg (mt (and_mask_ne_zero_iff hlt).1 hk)]
    exact ⟨p, rfl, h0, by omega⟩

/-- The test of bit `1`, on a value below `4`, adds one exactly when the value is `2` or `3`: the
count is then `⌊log₂ n⌋`. -/
theorem ScanState.last_eq_log {n : Nat} {st : Int × Nat} (h : ScanState n 2 st) :
    (if st.2 &&& 0x2 ≠ 0 then st.1 + 1 else st.1) = Nat.log 2 n := by
  obtain ⟨p, rfl, h0, hlt⟩ := h
  have hhi := (Nat.div_lt_iff_lt_mul (Nat.two_pow_pos p)).1 hlt
  have hmask : n / 2 ^ p &&& 0x2 ≠ 0 ↔ 2 ≤ n / 2 ^ p := and_mask_ne_zero_iff (k := 1) hlt
  dsimp only
  by_cases h2 : 2 ≤ n / 2 ^ p
  · rw [if_pos (hmask.2 h2)]
    have hlo := (Nat.le_div_iff_mul_le (Nat.two_pow_pos p)).1 h2
    rw [Nat.log_eq_of_pow_le_of_lt_pow (m := p + 1) (by rw [pow_succ']; exact hlo)
      (by rw [show p + 1 + 1 = 2 + p by omega, pow_add]; exact hhi)]
    push_cast; rfl
  · rw [if_neg (mt hmask.1 h2)]
    have hlo := (Nat.le_div_iff_mul_le (Nat.two_pow_pos p)).1 h0
    rw [Nat.log_eq_of_pow_le_of_lt_pow (m := p) (by simpa using hlo)
      (by rw [pow_succ']; exact (Nat.div_lt_iff_lt_mul (Nat.two_pow_pos p)).1 (by omega))]

/-- From `1` to `2 ^ 32 - 1`, `FloorLog2` is `⌊log₂ n⌋`. -/
theorem floorLog2_of_lt {n : Nat} (h0 : 0 < n) (h : n < 2 ^ 32) : floorLog2 n = Nat.log 2 n := by
  have h₀ : ScanState n (2 * 16) (0, n) := ⟨0, by simp, by simpa, by simpa⟩
  rw [floorLog2_eq h0.ne']
  exact (((h₀.step.step (k := 8)).step (k := 4)).step (k := 2)).last_eq_log

theorem clog_eq_log_pred {n : Nat} (h : 2 ≤ n) : Nat.clog 2 n = Nat.log 2 (n - 1) + 1 :=
  le_antisymm
    ((Nat.le_pow_iff_clog_le one_lt_two).1 (by
      have := Nat.lt_pow_succ_log_self one_lt_two (n - 1); omega))
    ((Nat.pow_lt_iff_lt_clog one_lt_two).1 (by
      have := Nat.pow_log_le_self 2 (show n - 1 ≠ 0 by omega); omega))

/-- From `2` to `2 ^ 32`, `CeilLog2` is `⌈log₂ n⌉`. -/
theorem ceilLog2_of_le {n : Nat} (h2 : 2 ≤ n) (h : n ≤ 2 ^ 32) : ceilLog2 n = Nat.clog 2 n := by
  rw [ceilLog2, show (n + (2 ^ 64 - 1)) % 2 ^ 64 = n - 1 by omega,
    floorLog2_of_lt (by omega) (by omega), clog_eq_log_pred h2]
  push_cast; rfl

/-- `FloorLog2` computes `⌊log₂ n⌋` on the `unsigned long` values `n ≥ 1` exactly when
`n < 2 ^ 32`, and `CeilLog2` computes `⌈log₂ n⌉` on `n ≥ 2` exactly when `n ≤ 2 ^ 32`;
`CeilLog2(1) = 0`. -/
theorem floorLog2_ceilLog2_exact_iff :
    (∀ n, 1 ≤ n → n < 2 ^ 64 → (floorLog2 n = Nat.log 2 n ↔ n < 2 ^ 32)) ∧
    (∀ n, 2 ≤ n → n < 2 ^ 64 → (ceilLog2 n = Nat.clog 2 n ↔ n ≤ 2 ^ 32)) ∧
    ceilLog2 1 = 0 := by
  refine ⟨fun n h1 _ => ⟨fun he => ?_, floorLog2_of_lt h1⟩,
    fun n h2 h64 => ⟨fun he => ?_, ceilLog2_of_le h2⟩, by decide⟩
  · -- from `2 ^ 32` on, `⌊log₂ n⌋ ≥ 32`
    by_contra hge
    have := Nat.le_log_of_pow_le one_lt_two (not_lt.1 hge)
    have := floorLog2_le n
    omega
  · -- past `2 ^ 32`, `⌈log₂ n⌉ ≥ 33`
    by_contra hgt
    have := (Nat.pow_lt_iff_lt_clog one_lt_two).1 (not_le.1 hgt)
    have := floorLog2_le ((n + (2 ^ 64 - 1)) % 2 ^ 64)
    rw [ceilLog2] at he
    omega

/-- `FloorLog2(2 ^ 32) = 0`, not `32`, and `CeilLog2(2 ^ 32 + 1) = 1`, not `33`. -/
theorem floorLog2_ceilLog2_two_pow_32 :
    floorLog2 (2 ^ 32) = 0 ∧ floorLog2 (2 ^ 32) ≠ Nat.log 2 (2 ^ 32) ∧
      ceilLog2 (2 ^ 32 + 1) = 1 ∧ ceilLog2 (2 ^ 32 + 1) ≠ Nat.clog 2 (2 ^ 32 + 1) :=
  ⟨by decide,
    fun h => absurd ((floorLog2_ceilLog2_exact_iff.1 _ (by norm_num) (by norm_num)).1 h)
      (lt_irrefl _),
    by decide,
    fun h => absurd ((floorLog2_ceilLog2_exact_iff.2.1 _ (by norm_num) (by norm_num)).1 h)
      (by norm_num)⟩

/-- `log2PAGE_SIZE = CeilLog2(PAGE_SIZE)`. -/
def Config.log2PageSize (cfg : Config) : Int := ceilLog2 cfg.pageSize

theorem ceilLog2_two_pow : ∀ k : Nat, k ≤ 20 → ceilLog2 (2 ^ k) = k := by decide

/-- Every admissible page size is `2 ^ log2PAGE_SIZE`. -/
theorem Config.pageSize_eq_two_pow_log2 (cfg : Config) :
    cfg.pageSize = 2 ^ cfg.log2PageSize.toNat := by
  obtain ⟨k, hk⟩ := cfg.pageSize_pow
  have hk20 : k ≤ 20 := by
    have := cfg.pageSize_le; rw [hk] at this
    exact (Nat.pow_le_pow_iff_right (by norm_num)).1 this
  rw [Config.log2PageSize, hk, ceilLog2_two_pow k hk20, Int.toNat_ofNat]

theorem Config.pageSize_dvd_window (cfg : Config) : cfg.pageSize ∣ 0xc0000000 :=
  cfg.pageSize_dvd.trans (by norm_num [mmapBufferSize])

theorem Config.pageSize_dvd_word (cfg : Config) : cfg.pageSize ∣ 2 ^ 64 :=
  cfg.pageSize_dvd.trans (by norm_num [mmapBufferSize])

theorem Config.heapPages_mul (cfg : Config) : cfg.heapPages * cfg.pageSize = 0xc0000000 :=
  Nat.div_mul_cancel cfg.pageSize_dvd_window

/-! ## The window -/

/-- The bounds `Init_Heap_Boundary` stores. -/
structure HeapBounds where
  sharedHeapBottom : Nat
  sharedHeapTop : Nat
  deriving DecidableEq, Repr

/-- `Init_Heap_Boundary` with the probes at `ptr1` and `ptr2`. -/
def initHeapBoundary (pageSize ptr1 ptr2 : Nat) : HeapBounds :=
  if ptr1 > ptr2 then
    let top := (ptr1 + pageSize) % 2 ^ 64
    ⟨(top + (2 ^ 64 - 0xc0000000)) % 2 ^ 64, top⟩
  else ⟨ptr1, (ptr1 + 0xc0000000) % 2 ^ 64⟩

/-- A non-empty window of `Init_Heap_Boundary` spans 3 GiB: neither bound wrapped around. -/
theorem initHeapBoundary_span {pageSize ptr1 ptr2 : Nat}
    (hne : (initHeapBoundary pageSize ptr1 ptr2).sharedHeapBottom <
      (initHeapBoundary pageSize ptr1 ptr2).sharedHeapTop) :
    (initHeapBoundary pageSize ptr1 ptr2).sharedHeapTop =
      (initHeapBoundary pageSize ptr1 ptr2).sharedHeapBottom + 0xc0000000 := by
  unfold initHeapBoundary at hne ⊢
  split_ifs at hne ⊢ <;> dsimp only at hne ⊢ <;> omega

namespace HeapBounds

/-- `TranslateMmapAddr`: the file offset of an address strictly inside the window, `Fatal`
(`none`) for any other. -/
def translateMmapAddr (b : HeapBounds) (addr : Nat) : Option Nat :=
  if b.sharedHeapBottom < addr ∧ addr < b.sharedHeapTop then some (addr - b.sharedHeapBottom)
  else none

theorem translateMmapAddr_mk (lo hi addr : Nat) :
    (⟨lo, hi⟩ : HeapBounds).translateMmapAddr addr =
      if lo < addr ∧ addr < hi then some (addr - lo) else none := rfl

/-- `Addr2PageIndex`: `TranslateMmapAddr(address) >> log2PAGE_SIZE`. -/
def addr2PageIndex (b : HeapBounds) (cfg : Config) (address : Nat) : Option Nat :=
  (b.translateMmapAddr address).map (· >>> cfg.log2PageSize.toNat)

/-- A window that spans 3 GiB from a page-aligned bottom. -/
structure Aligned (b : HeapBounds) (cfg : Config) : Prop where
  span : b.sharedHeapTop = b.sharedHeapBottom + 0xc0000000
  dvd : cfg.pageSize ∣ b.sharedHeapBottom

/-- The page addresses of the window are the page indices `1 .. heapPages - 1`: the address
`j` pages above `sharedHeapBottom` has index `j` inside the window and makes every other index
fail. -/
theorem Aligned.addr2PageIndex_page {b : HeapBounds} {cfg : Config} (hb : b.Aligned cfg) (j : Nat) :
    b.addr2PageIndex cfg (b.sharedHeapBottom + j * cfg.pageSize) =
      if 0 < j ∧ j < cfg.heapPages then some j else none := by
  have hps := cfg.pageSize_pos
  have hw := cfg.heapPages_mul
  have hlt : j < cfg.heapPages ↔ j * cfg.pageSize < 0xc0000000 := by
    rw [← hw]; exact (Nat.mul_lt_mul_right hps).symm
  have hpos : 0 < j ↔ 0 < j * cfg.pageSize := (Nat.mul_pos_iff_of_pos_right hps).symm
  simp only [addr2PageIndex, translateMmapAddr, hb.span, Nat.add_sub_cancel_left,
    Nat.shiftRight_eq_div_pow, ← cfg.pageSize_eq_two_pow_log2]
  by_cases h : 0 < j ∧ j < cfg.heapPages
  · rw [if_pos (by omega), if_pos h, Option.map_some', Nat.mul_div_cancel _ hps]
  · rw [if_neg (by omega), if_neg h, Option.map_none']

/-- Inside an aligned window, a page-aligned address is a page address. -/
theorem Aligned.eq_page_of_dvd {b : HeapBounds} {cfg : Config} (hb : b.Aligned cfg) {a : Nat}
    (ha : cfg.pageSize ∣ a) (hlo : b.sharedHeapBottom < a) :
    a = b.sharedHeapBottom + (a - b.sharedHeapBottom) / cfg.pageSize * cfg.pageSize := by
  rw [Nat.div_mul_cancel (Nat.dvd_sub' ha hb.dvd)]; omega

/-- `SetBit(array, page_address)`. -/
def setBit (b : HeapBounds) (cfg : Config) (array : Nat → Bool) (pageAddress : Nat) :
    Option (Nat → Bool) :=
  (b.addr2PageIndex cfg pageAddress).map (Function.update array · true)

/-- `SetMultiBits(array, page_address, size)`: `bsize = size >> log2PAGE_SIZE` pages from the
first page's index (an `int`, which holds the page count of any region of the window). -/
def setMultiBits (b : HeapBounds) (cfg : Config) (array : Nat → Bool) (pageAddress size : Nat) :
    Option (Nat → Bool) :=
  (b.addr2PageIndex cfg pageAddress).map fun index =>
    SharedHeap.setMultiBits array index (size >>> cfg.log2PageSize.toNat)

/-- `SetBit` on each of the `size / PAGE_SIZE` pages from `start`, in order. -/
def setBitEachPage (b : HeapBounds) (cfg : Config) (array : Nat → Bool) (start size : Nat) :
    Option (Nat → Bool) :=
  (List.range (size / cfg.pageSize)).foldlM (fun a k => b.setBit cfg a (start + k * cfg.pageSize))
    array

section Window

variable {b : HeapBounds} {cfg : Config}

/-- An address `Addr2PageIndex` accepts lies inside the window. -/
theorem inside_of_addr2PageIndex {a i : Nat} (h : b.addr2PageIndex cfg a = some i) :
    b.sharedHeapBottom < a ∧ a < b.sharedHeapTop := by
  unfold addr2PageIndex translateMmapAddr at h
  split_ifs at h with hin
  · exact hin
  · cases h

/-- In a window that spans 3 GiB, the address `k` pages after one of index `idx` has index
`idx + k` while that index is inside the window, whether or not the address or
`sharedHeapBottom` is page-aligned. -/
theorem addr2PageIndex_add_pages (hspan : b.sharedHeapTop = b.sharedHeapBottom + 0xc0000000)
    {start idx k : Nat} (hidx : b.addr2PageIndex cfg start = some idx)
    (hk : idx + k < cfg.heapPages) :
    b.addr2PageIndex cfg (start + k * cfg.pageSize) = some (idx + k) := by
  have hps := cfg.pageSize_pos
  have hw := cfg.heapPages_mul
  have hin := inside_of_addr2PageIndex hidx
  simp only [addr2PageIndex, translateMmapAddr, if_pos hin, Option.map_some', Option.some.injEq,
    Nat.shiftRight_eq_div_pow, ← cfg.pageSize_eq_two_pow_log2] at hidx ⊢
  have hd : start - b.sharedHeapBottom < idx * cfg.pageSize + cfg.pageSize := by
    rw [← hidx]; exact Nat.lt_div_mul_add hps
  have hle : (idx + k + 1) * cfg.pageSize ≤ cfg.heapPages * cfg.pageSize :=
    Nat.mul_le_mul_right _ hk
  have hexp : (idx + k + 1) * cfg.pageSize =
      idx * cfg.pageSize + k * cfg.pageSize + cfg.pageSize := by ring
  rw [if_pos ⟨by omega, by omega⟩, Option.map_some',
    show start + k * cfg.pageSize - b.sharedHeapBottom = start - b.sharedHeapBottom + k * cfg.pageSize
      by omega, Nat.add_mul_div_right _ _ hps, hidx]

/-- In a window that spans 3 GiB, `SetMultiBits` sets the bits that `SetBit` sets page by page:
from the first page's index, one bit per page. -/
theorem setMultiBits_eq_setBitEachPage_of_span
    (hspan : b.sharedHeapTop = b.sharedHeapBottom + 0xc0000000) (array : Nat → Bool)
    {start size idx : Nat} (hidx : b.addr2PageIndex cfg start = some idx)
    (hend : idx + size / cfg.pageSize ≤ cfg.heapPages) :
    b.setMultiBits cfg array start size = b.setBitEachPage cfg array start size ∧
    b.setMultiBits cfg array start size =
      some (fun j => array j || decide (idx ≤ j ∧ j < idx + size / cfg.pageSize)) := by
  have hmulti : b.setMultiBits cfg array start size =
      some (fun j => array j || decide (idx ≤ j ∧ j < idx + size / cfg.pageSize)) := by
    rw [HeapBounds.setMultiBits, hidx, Option.map_some', SharedHeap.setMultiBits_eq,
      Nat.shiftRight_eq_div_pow, ← cfg.pageSize_eq_two_pow_log2]
  have hpages : ∀ n, n ≤ size / cfg.pageSize →
      (List.range n).foldlM (fun a k => b.setBit cfg a (start + k * cfg.pageSize)) array =
        some (fun j => array j || decide (idx ≤ j ∧ j < idx + n)) := by
    intro n
    induction n with
    | zero =>
      intro _
      show some array = _
      congr 1; funext j; rw [add_zero, decide_eq_false (by omega), Bool.or_false]
    | succ n ih =>
      intro hn
      rw [List.range_succ, List.foldlM_append, ih (by omega)]
      simp only [Option.bind_eq_bind, Option.some_bind, List.foldlM_cons, List.foldlM_nil, setBit,
        addr2PageIndex_add_pages hspan hidx (show idx + n < cfg.heapPages by omega),
        Option.map_some']
      congr 1; funext j
      rcases eq_or_ne j (idx + n) with rfl | hj
      · simp
      · rw [Function.update_noteq hj]; congr 1; rw [decide_eq_decide]; omega
  exact ⟨hmulti.trans (hpages _ le_rfl).symm, hmulti⟩

end Window

/-- With `4 KiB` pages, on the window `Init_Heap_Boundary` computes from any two probes, take a
start address of index `idx` and a size with `idx + size / PAGE_SIZE ≤ 786432`. `SetMultiBits`
returns the array `SetBit` gives page by page, with bits `idx` to `idx + size / PAGE_SIZE - 1` set
and every other bit as it was, and its whole-byte fast path sets the bits the per-bit path sets. -/
theorem setMultiBits_eq_setBitEachPage {cfg : Config} (h4k : cfg.pageSize = 4096)
    (ptr1 ptr2 : Nat) (array : Nat → Bool) {start size idx : Nat}
    (hidx : (initHeapBoundary cfg.pageSize ptr1 ptr2).addr2PageIndex cfg start = some idx)
    (hend : idx + size / cfg.pageSize ≤ 786432) :
    let b := initHeapBoundary cfg.pageSize ptr1 ptr2
    b.setMultiBits cfg array start size = b.setBitEachPage cfg array start size ∧
    b.setMultiBits cfg array start size =
      some (fun j => array j || decide (idx ≤ j ∧ j < idx + size / cfg.pageSize)) ∧
    ∀ (array : Nat → Bool) (index : Nat), index % 8 = 0 →
      (fun j => array j || decide (j / 8 = index / 8)) =
        (List.range' index 8).foldl (fun a j => Function.update a j true) array := by
  have hin := inside_of_addr2PageIndex hidx
  have hpages : cfg.heapPages = 786432 := by rw [Config.heapPages, h4k]
  obtain ⟨heach, hbits⟩ := setMultiBits_eq_setBitEachPage_of_span
    (initHeapBoundary_span (hin.1.trans hin.2)) array hidx (hpages ▸ hend)
  exact ⟨heach, hbits, fun array index h => setByte_eq_setBits array h⟩

/-- Twenty pages from page `5` of an upward window, over an array with bits `3` and `30` set. -/
theorem setMultiBits_eq_setBitEachPage_probe :
    let b := initHeapBoundary Config.page4k.pageSize 0x7f0000000000 0x7f0000001000
    Config.page4k.pageSize = 4096 ∧
    b.addr2PageIndex Config.page4k 0x7f0000005000 = some 5 ∧
    5 + 81920 / Config.page4k.pageSize ≤ 786432 ∧
    b.setMultiBits Config.page4k (fun j => j == 3 || j == 30) 0x7f0000005000 81920 =
      b.setBitEachPage Config.page4k (fun j => j == 3 || j == 30) 0x7f0000005000 81920 ∧
    b.setMultiBits Config.page4k (fun j => j == 3 || j == 30) 0x7f0000005000 81920 =
      some (fun j => (j == 3 || j == 30) ||
        decide (5 ≤ j ∧ j < 5 + 81920 / Config.page4k.pageSize)) ∧
    ∀ (array : Nat → Bool) (index : Nat), index % 8 = 0 →
      (fun j => array j || decide (j / 8 = index / 8)) =
        (List.range' index 8).foldl (fun a j => Function.update a j true) array :=
  ⟨rfl, by decide, by decide,
    setMultiBits_eq_setBitEachPage rfl _ _ _ (by decide) (by decide)⟩

end HeapBounds

/-- The window `Init_Heap_Boundary` computes is empty, or spans 3 GiB from an aligned bottom when
the first probe is page-aligned. -/
theorem initHeapBoundary_aligned (cfg : Config) {ptr1 : Nat} (ptr2 : Nat)
    (h1 : cfg.pageSize ∣ ptr1)
    (hne : (initHeapBoundary cfg.pageSize ptr1 ptr2).sharedHeapBottom <
      (initHeapBoundary cfg.pageSize ptr1 ptr2).sharedHeapTop) :
    (initHeapBoundary cfg.pageSize ptr1 ptr2).Aligned cfg := by
  refine ⟨initHeapBoundary_span hne, ?_⟩
  obtain ⟨w, hw⟩ := cfg.pageSize_dvd_window
  obtain ⟨m, hm⟩ := cfg.pageSize_dvd_word
  obtain ⟨x, rfl⟩ := h1
  unfold initHeapBoundary
  split_ifs with h
  · refine (Nat.dvd_mod_iff (Dvd.intro m hm.symm)).2 (Nat.dvd_add ?_ ?_)
    · exact (Nat.dvd_mod_iff (Dvd.intro m hm.symm)).2 (Dvd.intro (x + 1) (by ring))
    · rw [hm, show 0xc0000000 = cfg.pageSize * w from hw]
      exact Dvd.intro (m - w) (by rw [Nat.mul_sub])
  · exact Dvd.intro x rfl

/-- With `4 KiB ≤ PAGE_SIZE` and a page-aligned first probe, a page-aligned address strictly
inside the window has an index `i` whose frame starts at the address's file offset, with
`1 ≤ i < 786432`: its holder entry (`numProc / 8` bytes at `i * numProc / 8`) lies in the 3 MiB
metadata map, its byte of `initializedPagesBV` and `zeroPagesBV` in their 98304, and its frame
is not frame `0`. -/
theorem addr2PageIndex_in_window (cfg : Config) (hps : 4096 ≤ cfg.pageSize) {ptr1 : Nat}
    (ptr2 : Nat) (h1 : cfg.pageSize ∣ ptr1) {a : Nat} (ha : cfg.pageSize ∣ a)
    (hin : (initHeapBoundary cfg.pageSize ptr1 ptr2).sharedHeapBottom < a ∧
      a < (initHeapBoundary cfg.pageSize ptr1 ptr2).sharedHeapTop) :
    ∃ i, (initHeapBoundary cfg.pageSize ptr1 ptr2).addr2PageIndex cfg a = some i ∧
      (initHeapBoundary cfg.pageSize ptr1 ptr2).translateMmapAddr a = some (i * cfg.pageSize) ∧
      1 ≤ i ∧ i < 786432 ∧ (i + 1) * (cfg.numProc / 8) ≤ 3 * 2 ^ 20 ∧ i / 8 < 98304 := by
  set b := initHeapBoundary cfg.pageSize ptr1 ptr2
  have hb : b.Aligned cfg := initHeapBoundary_aligned cfg ptr2 h1 (hin.1.trans hin.2)
  have hj := hb.eq_page_of_dvd ha hin.1
  set j := (a - b.sharedHeapBottom) / cfg.pageSize
  have hps0 := cfg.pageSize_pos
  have hw := cfg.heapPages_mul
  have hpages : cfg.heapPages ≤ 786432 :=
    (Nat.div_le_div_left hps (by norm_num)).trans (by norm_num)
  have hjlt : j < cfg.heapPages := by
    have := hb.span; rw [← Nat.mul_lt_mul_right hps0, hw]; omega
  have hjpos : 0 < j := Nat.pos_of_ne_zero fun h0 => by rw [h0] at hj; omega
  have hnp : cfg.numProc / 8 ≤ 2 := by rcases cfg.numProc_eq with h | h <;> simp [h]
  refine ⟨j, ?_, ?_, hjpos, by omega, ?_, by omega⟩
  · rw [hj, hb.addr2PageIndex_page, if_pos ⟨hjpos, hjlt⟩]
  · rw [HeapBounds.translateMmapAddr, if_pos hin]; congr 1; omega
  · calc (j + 1) * (cfg.numProc / 8) ≤ 786432 * 2 := Nat.mul_le_mul (by omega) hnp
      _ ≤ 3 * 2 ^ 20 := by norm_num

theorem addr2PageIndex_in_window_probe :
    4096 ≤ Config.page4k.pageSize ∧ Config.page4k.pageSize ∣ 0x7f0000000000 ∧
    Config.page4k.pageSize ∣ 0x7f0000001000 ∧
    (initHeapBoundary Config.page4k.pageSize 0x7f0000000000 0x7f0000001000).sharedHeapBottom <
      0x7f0000001000 ∧
    0x7f0000001000 < (initHeapBoundary Config.page4k.pageSize 0x7f0000000000 0x7f0000001000).sharedHeapTop ∧
    ∃ i, (initHeapBoundary Config.page4k.pageSize 0x7f0000000000 0x7f0000001000).addr2PageIndex
        Config.page4k 0x7f0000001000 = some i ∧
      (initHeapBoundary Config.page4k.pageSize 0x7f0000000000 0x7f0000001000).translateMmapAddr
        0x7f0000001000 = some (i * Config.page4k.pageSize) ∧
      1 ≤ i ∧ i < 786432 ∧ (i + 1) * (Config.page4k.numProc / 8) ≤ 3 * 2 ^ 20 ∧ i / 8 < 98304 := by
  have hin : (initHeapBoundary Config.page4k.pageSize 0x7f0000000000 0x7f0000001000).sharedHeapBottom <
      0x7f0000001000 ∧
      0x7f0000001000 < (initHeapBoundary Config.page4k.pageSize 0x7f0000000000 0x7f0000001000).sharedHeapTop := by
    decide
  exact ⟨by decide, by decide, by decide, hin.1, hin.2,
    addr2PageIndex_in_window Config.page4k (by decide) _ (by decide) (by decide) hin⟩

/-! ## Where `Init_Heap_Boundary` puts the probes -/

/-- With both probes page-aligned, distinct, less than `3 GiB - PAGE_SIZE` apart and between
`3 GiB` and `2 ^ 47`, the window spans 3 GiB in both growth directions and `TranslateMmapAddr`
accepts the second probe. On downward growth it accepts the first probe too; on upward growth
the first probe is `sharedHeapBottom`, which the strict comparison rejects. -/
theorem initHeapBoundary_probes (cfg : Config) {ptr1 ptr2 : Nat} (hne : ptr1 ≠ ptr2)
    (hd : ptr1 < ptr2 + (0xc0000000 - cfg.pageSize) ∧ ptr2 < ptr1 + (0xc0000000 - cfg.pageSize))
    (hlo : 0xc0000000 ≤ ptr1 ∧ 0xc0000000 ≤ ptr2) (hhi : ptr1 < 2 ^ 47 ∧ ptr2 < 2 ^ 47) :
    let b := initHeapBoundary cfg.pageSize ptr1 ptr2
    b.sharedHeapTop = b.sharedHeapBottom + 0xc0000000 ∧
    (b.translateMmapAddr ptr2).isSome = true ∧
    (ptr2 < ptr1 → (b.translateMmapAddr ptr1).isSome = true) ∧
    (ptr1 < ptr2 → b.sharedHeapBottom = ptr1 ∧ b.translateMmapAddr ptr1 = none) := by
  have hps := cfg.pageSize_pos
  have hle : cfg.pageSize ≤ 2 ^ 20 := cfg.pageSize_le
  rcases Nat.lt_or_gt_of_ne hne with h | h
  · have hb : initHeapBoundary cfg.pageSize ptr1 ptr2 = ⟨ptr1, ptr1 + 0xc0000000⟩ := by
      rw [initHeapBoundary, if_neg (by omega), HeapBounds.mk.injEq]; omega
    dsimp only; rw [hb]; simp only [HeapBounds.translateMmapAddr_mk]
    exact ⟨trivial, by rw [if_pos (by omega)]; rfl, fun h' => absurd h' (by omega),
      fun _ => ⟨trivial, if_neg (by omega)⟩⟩
  · have hb : initHeapBoundary cfg.pageSize ptr1 ptr2 =
        ⟨ptr1 + cfg.pageSize - 0xc0000000, ptr1 + cfg.pageSize⟩ := by
      rw [initHeapBoundary, if_pos h, HeapBounds.mk.injEq]; omega
    dsimp only; rw [hb]; simp only [HeapBounds.translateMmapAddr_mk]
    exact ⟨by omega, by rw [if_pos (by omega)]; rfl, fun _ => by rw [if_pos (by omega)]; rfl,
      fun h' => absurd h' (by omega)⟩

/-- Two probes `Init_Heap_Boundary` may see on a kernel that places maps upwards. -/
theorem initHeapBoundary_probes_upward :
    let b := initHeapBoundary 4096 0x7f0000000000 0x7f0000001000
    b.sharedHeapTop = b.sharedHeapBottom + 0xc0000000 ∧
    (b.translateMmapAddr 0x7f0000001000).isSome = true ∧
    (0x7f0000001000 < 0x7f0000000000 → (b.translateMmapAddr 0x7f0000000000).isSome = true) ∧
    (0x7f0000000000 < 0x7f0000001000 →
      b.sharedHeapBottom = 0x7f0000000000 ∧ b.translateMmapAddr 0x7f0000000000 = none) :=
  initHeapBoundary_probes Config.page4k (by norm_num) (by norm_num [Config.page4k]) (by norm_num)
    (by norm_num)

end SbllMalloc.SharedHeap
