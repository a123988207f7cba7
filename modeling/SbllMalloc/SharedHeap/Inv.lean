import SbllMalloc.SharedHeap.Step

/-!
# The node invariant

`Inv` is what holds at every release of the semaphore. Each sibling's pages are in the state
their bits say (`SibOK`): a page of a live region is untouched, private, zero or shared
(`LiveState`), and a page outside every region has no bit and no mapping. Every set holder bit
is the bit of some sibling, and frame `0` stays zero. The statistics are the counts of pages
and frames by state (`Counted`), and every sibling's live pages read what the passthrough
allocator `Pass` holds (`Refines`).

Every operation is by one sibling `q` and changes only `q`'s pages, `q`'s holder bits, frames no
other sibling holds, and the counters. `Inv.update` takes such an update and the new facts about
`q` and gives the invariant for the whole node; `SibOK.update` and `Counted.update` reduce the
facts about `q` to the pages the operation touches.
-/

namespace SbllMalloc.SharedHeap

/-- Page `i` lies in one of the sibling's regions. -/
def Proc.Live (p : Proc) (i : Nat) : Prop :=
  ∃ b size, p.allocRecord b = some size ∧ InRange b size i

/-- The sibling's holder bit for frame `i`. -/
def Proc.Held (info : Nat → Nat) (p : Proc) (i : Nat) : Bool := (info i).testBit p.myRank

/-- The four states of a page of a live region, by its initialized bit, zero bit, holder bit
and mapping. -/
inductive LiveState (i : Nat) : Bool → Bool → Bool → Mapping → Prop
  | untouched : LiveState i false false false (.anon blankPage false)
  | priv (c : Page) : LiveState i true false false (.anon c true)
  | zero : LiveState i true true false (.file 0 false)
  | shared : LiveState i true false true (.file i false)

/-- The regions of the allocation index are non-empty, inside the heap window (page `0` is
`sharedHeapBottom`, which `TranslateMmapAddr` rejects) and pairwise disjoint. -/
structure RegionsOK (cfg : Config) (allocRecord : Nat → Option Nat) : Prop where
  bounds : ∀ b size, allocRecord b = some size → 0 < size ∧ 1 ≤ b ∧ b + size ≤ cfg.heapPages
  disjoint : ∀ b b' size size' i, allocRecord b = some size → allocRecord b' = some size' →
    InRange b size i → InRange b' size' i → b = b'

/-- Page `i` of the sibling is in the state its bits say. -/
def PageOK (info : Nat → Nat) (p : Proc) (i : Nat) : Prop :=
  (p.Live i → LiveState i (p.initializedPagesBV i) (p.zeroPagesBV i) (p.Held info i) (p.mem i)) ∧
  (¬p.Live i → p.initializedPagesBV i = false ∧ p.zeroPagesBV i = false ∧
    p.Held info i = false ∧ p.mem i = .unmapped)

/-- A sibling's state agrees with itself and with the holder table. Only `THRESHOLD` and
`ALLOC_FREQUENCY` run `MergeManyPages`, the only setter of zero bits, and a sibling that never
merges holds no frame. -/
structure SibOK (cfg : Config) (info : Nat → Nat) (p : Proc) : Prop where
  regions : RegionsOK cfg p.allocRecord
  pages : ∀ i, PageOK info p i
  noZero : p.mergeMetric = .buffered ∨ p.mergeMetric = .mergeDisabled →
    ∀ i, p.zeroPagesBV i = false
  noHeld : p.mergeMetric = .mergeDisabled → ∀ i, p.Held info i = false

/-! ## The passthrough allocator -/

/-- The passthrough allocator: each sibling's regions and the bytes of each of its pages. -/
structure Pass where
  regions : Nat → Nat → Option Nat
  bytes : Nat → Nat → Page

namespace Pass

/-- No region, every byte zero. -/
def init : Pass := ⟨fun _ _ => none, fun _ _ => blankPage⟩

/-- The passthrough allocator on one action: a new region is fresh and zero-filled, a store
writes its byte, and faults and merges change nothing. -/
def step (cfg : Config) (A : Pass) : Action → Pass
  | .malloc q sz base =>
    let size := mallocPages cfg sz
    if size = 0 ∨ (A.regions q base).isSome then A
    else ⟨Function.update A.regions q (Function.update (A.regions q) base (some size)),
      fun q' j => if q' = q ∧ InRange base size j then blankPage else A.bytes q' j⟩
  | .free q ptr => ⟨Function.update A.regions q (Function.update (A.regions q) ptr none), A.bytes⟩
  | .store q i o v =>
    ⟨A.regions, Function.update A.bytes q
      (Function.update (A.bytes q) i (Function.update (A.bytes q i) o v))⟩
  | .fault .. | .mergeNode .. | .mergePage .. => A

/-- The passthrough allocator after a program. -/
def run (cfg : Config) (acts : List Action) : Pass := acts.foldl (step cfg) init

end Pass

/-- Sibling `q`'s regions are the passthrough allocator's, and each live page reads, on its
`PAGE_SIZE` bytes, what the passthrough allocator holds. -/
structure Refines (cfg : Config) (frames : Nat → Page) (A : Pass) (q : Nat) (p : Proc) :
    Prop where
  regions : p.allocRecord = A.regions q
  bytes : ∀ i, p.Live i → ∃ c, (p.mem i).content frames = some c ∧
    ∀ o < cfg.pageSize, c o = A.bytes q i o

theorem Refines.readByte {cfg : Config} {A : Pass} {q : Nat} {s : Node}
    (h : Refines cfg s.shm.frames A q (s.procs q)) {i o : Nat} (hl : (s.procs q).Live i)
    (ho : o < cfg.pageSize) : s.readByte q i o = some (A.bytes q i o) := by
  obtain ⟨c, hc, hco⟩ := h.bytes i hl
  simp [Node.readByte, hc, hco o ho]

/-! ## The statistics -/

/-- The page indices of the heap window. -/
def Config.window (cfg : Config) : Finset Nat := Finset.range cfg.heapPages

/-- A private page: initialized, not zero, not held. -/
def Proc.IsPrivate (info : Nat → Nat) (p : Proc) (i : Nat) : Bool :=
  p.initializedPagesBV i && !p.zeroPagesBV i && !p.Held info i

/-- The number of private pages of a sibling. -/
def Proc.privateCount (cfg : Config) (info : Nat → Nat) (p : Proc) : Nat :=
  (cfg.window.filter fun i => p.IsPrivate info i).card

/-- The number of initialized pages of a sibling. -/
def Proc.initCount (cfg : Config) (p : Proc) : Nat :=
  (cfg.window.filter fun i => p.initializedPagesBV i).card

/-- The number of zero pages of a sibling. -/
def Proc.zeroCount (cfg : Config) (p : Proc) : Nat :=
  (cfg.window.filter fun i => p.zeroPagesBV i).card

/-- The number of frames whose holder count satisfies `P`. -/
def framesWith (cfg : Config) (info : Nat → Nat) (P : Nat → Prop) [DecidablePred P] : Nat :=
  (cfg.window.filter fun i => P (pop (info i))).card

/-- The statistics count the node's pages and frames: one shared frame for the zero page and
one per frame with at least two holders; 192 private pages for the metadata, one per private
page and one per frame with a single holder; one base page per initialized page; and each
sibling's zero pages. -/
structure Counted (cfg : Config) (n : Nat) (s : Node) : Prop where
  shared : s.shm.sharedPageCount = 1 + framesWith cfg s.shm.sharingProcessesInfo (2 ≤ ·)
  priv : s.shm.allProcPrivatePageCount = 192 +
    ∑ q ∈ Finset.range n, (s.procs q).privateCount cfg s.shm.sharingProcessesInfo +
    framesWith cfg s.shm.sharingProcessesInfo (· = 1)
  base : s.shm.baseCaseTotalPageCount = ∑ q ∈ Finset.range n, (s.procs q).initCount cfg
  zero : ∀ q < n, (s.procs q).zeroPageCount = (s.procs q).zeroCount cfg

/-! ## The invariant -/

/-- What holds between operations. -/
structure Inv (cfg : Config) (n : Nat) (A : Pass) (s : Node) : Prop where
  rank_lt : ∀ q < n, (s.procs q).myRank < cfg.numProc
  rank_inj : ∀ q < n, ∀ q' < n, (s.procs q).myRank = (s.procs q').myRank → q = q'
  alive : s.shm.aliveProcs = n
  frame0 : ∀ o < cfg.pageSize, s.shm.frames 0 o = 0
  entries : ∀ i, s.shm.sharingProcessesInfo i < 2 ^ cfg.numProc
  holders : ∀ i j, (s.shm.sharingProcessesInfo i).testBit j = true →
    ∃ q < n, (s.procs q).myRank = j
  sib : ∀ q < n, SibOK cfg s.shm.sharingProcessesInfo (s.procs q)
  counted : Counted cfg n s
  refines : ∀ q < n, Refines cfg s.shm.frames A q (s.procs q)

/-! ## Reading the invariant -/

theorem LiveState.content {i : Nat} {init zero held : Bool} {m : Mapping}
    (h : LiveState i init zero held m) (frames : Nat → Page) : ∃ c, m.content frames = some c := by
  cases h <;> simp

theorem LiveState.mapping {i : Nat} {init zero held : Bool} {m : Mapping}
    (h : LiveState i init zero held m) :
    (∃ c w, m = .anon c w) ∨ m = .file 0 false ∨ (m = .file i false ∧ held = true) := by
  cases h <;> simp

theorem LiveState.of_writable {i : Nat} {init zero held : Bool} {m : Mapping}
    (h : LiveState i init zero held m) (hw : m.writable = true) :
    ∃ c, m = .anon c true ∧ init = true ∧ zero = false ∧ held = false := by
  cases h <;> simp_all

theorem LiveState.of_faults {i : Nat} {init zero held : Bool} {m : Mapping}
    (h : LiveState i init zero held m) (hf : m.faultsOnWrite = true) :
    (init = false ∧ zero = false ∧ held = false ∧ m = .anon blankPage false) ∨
    (init = true ∧ zero = true ∧ held = false ∧ m = .file 0 false) ∨
    (init = true ∧ zero = false ∧ held = true ∧ m = .file i false) := by
  cases h <;> simp_all [Mapping.faultsOnWrite]

theorem LiveState.of_held {i : Nat} {init zero held : Bool} {m : Mapping}
    (h : LiveState i init zero held m) (hh : held = true) : init = true ∧ zero = false := by
  cases h <;> simp_all

theorem LiveState.zero_of_uninit {i : Nat} {init zero held : Bool} {m : Mapping}
    (h : LiveState i init zero held m) (hi : init = false) : zero = false := by
  cases h <;> simp_all

theorem LiveState.of_priv {i : Nat} {init zero held : Bool} {m : Mapping}
    (h : LiveState i init zero held m) (hi : init = true) (hz : zero = false) (hh : held = false) :
    ∃ c, m = .anon c true := by
  cases h <;> simp_all

theorem LiveState.mem_of_held {i : Nat} {init zero held : Bool} {m : Mapping}
    (h : LiveState i init zero held m) (hh : held = true) : m = .file i false := by
  cases h <;> simp_all

theorem PageOK.live_of_held {info : Nat → Nat} {p : Proc} {i : Nat} (h : PageOK info p i)
    (hh : p.Held info i = true) : p.Live i ∧ p.mem i = .file i false := by
  by_cases hl : p.Live i
  · exact ⟨hl, (h.1 hl).mem_of_held hh⟩
  · simp [(h.2 hl).2.2.1] at hh

theorem PageOK.live_of_mapped {info : Nat → Nat} {p : Proc} {i : Nat} (h : PageOK info p i)
    (hm : p.mem i ≠ .unmapped) : p.Live i :=
  Classical.byContradiction fun hl => hm (h.2 hl).2.2.2

theorem SibOK.congr_held {cfg : Config} {info info' : Nat → Nat} {p : Proc} (h : SibOK cfg info p)
    (hheld : ∀ i, p.Held info' i = p.Held info i) : SibOK cfg info' p where
  regions := h.regions
  pages i := by simpa only [PageOK, hheld] using h.pages i
  noZero := h.noZero
  noHeld hm i := by rw [hheld]; exact h.noHeld hm i

/-- An update of a sibling that keeps it consistent outside the pages `R` and restores it on
them. -/
theorem SibOK.update {cfg : Config} {info info' : Nat → Nat} {p p' : Proc} (h : SibOK cfg info p)
    (hmetric : p'.mergeMetric = p.mergeMetric) (hregions : RegionsOK cfg p'.allocRecord)
    (R : Nat → Prop)
    (hout : ∀ i, ¬R i → (p'.Live i ↔ p.Live i) ∧
      p'.initializedPagesBV i = p.initializedPagesBV i ∧ p'.zeroPagesBV i = p.zeroPagesBV i ∧
      p'.Held info' i = p.Held info i ∧ p'.mem i = p.mem i)
    (hin : ∀ i, R i → PageOK info' p' i)
    (hzero : ∀ i, R i → p'.zeroPagesBV i = true →
      p.mergeMetric = .threshold ∨ p.mergeMetric = .allocFrequency)
    (hheld : ∀ i, R i → p'.Held info' i = true → p.mergeMetric ≠ .mergeDisabled) :
    SibOK cfg info' p' where
  regions := hregions
  pages i := by
    by_cases hi : R i
    · exact hin i hi
    · obtain ⟨hl, h1, h2, h3, h4⟩ := hout i hi
      simpa only [PageOK, hl, h1, h2, h3, h4] using h.pages i
  noZero hm i := by
    by_cases hi : R i
    · cases hz : p'.zeroPagesBV i
      · rfl
      · rcases hzero i hi hz with h' | h' <;> rw [hmetric, h'] at hm <;> simp at hm
    · rw [(hout i hi).2.2.1]; exact h.noZero (hmetric ▸ hm) i
  noHeld hm i := by
    by_cases hi : R i
    · cases hz : p'.Held info' i
      · rfl
      · exact absurd (hmetric ▸ hm) (hheld i hi hz)
    · rw [(hout i hi).2.2.2.1]; exact h.noHeld (hmetric ▸ hm) i

/-! ## Counting -/

theorem sum_eq_add_sum_of_eqOn {S R : Finset Nat} (hR : R ⊆ S) {f g : Nat → Int}
    (h : ∀ i ∈ S, i ∉ R → g i = f i) :
    ∑ i ∈ S, g i = ∑ i ∈ S, f i + ∑ i ∈ R, (g i - f i) := by
  rw [← Finset.sum_sdiff hR, ← Finset.sum_sdiff hR, Finset.sum_sub_distrib,
    Finset.sum_congr rfl fun i hi => h i (Finset.mem_sdiff.1 hi).1 (Finset.mem_sdiff.1 hi).2]
  ring

theorem card_filter_eq_add {S R : Finset Nat} (hR : R ⊆ S) {P Q : Nat → Prop}
    [DecidablePred P] [DecidablePred Q] (h : ∀ i ∈ S, i ∉ R → (Q i ↔ P i)) :
    ((S.filter Q).card : Int) = (S.filter P).card +
      ∑ i ∈ R, ((if Q i then 1 else 0) - (if P i then 1 else 0)) := by
  rw [Finset.natCast_card_filter, Finset.natCast_card_filter]
  exact sum_eq_add_sum_of_eqOn hR fun i hi hiR => by simp only [h i hi hiR]

theorem framesWith_eq_add {cfg : Config} {info info' : Nat → Nat} {R : Finset Nat}
    (hR : R ⊆ cfg.window) (P : Nat → Prop) [DecidablePred P]
    (h : ∀ i ∈ cfg.window, i ∉ R → info' i = info i) :
    (framesWith cfg info' P : Int) = framesWith cfg info P +
      ∑ i ∈ R, ((if P (pop (info' i)) then 1 else 0) - (if P (pop (info i)) then 1 else 0)) :=
  card_filter_eq_add hR fun i hi hiR => by rw [h i hi hiR]

theorem sum_eq_add_sub_of_eqOn {S : Finset Nat} {q : Nat} (hq : q ∈ S) {f g : Nat → Int}
    (h : ∀ i ∈ S, i ≠ q → g i = f i) : ∑ i ∈ S, g i = ∑ i ∈ S, f i + (g q - f q) := by
  rw [sum_eq_add_sum_of_eqOn (Finset.singleton_subset_iff.2 hq)
    fun i hi hne => h i hi (by simpa using hne), Finset.sum_singleton]

/-- What frame `i` adds to `*sharedPageCount`. -/
def sharedTerm (info : Nat → Nat) (i : Nat) : Int := if 2 ≤ pop (info i) then 1 else 0

/-- What page `i` of the sibling and frame `i` add to `*allProcPrivatePageCount`. -/
def privTerm (info : Nat → Nat) (p : Proc) (i : Nat) : Int :=
  (if p.IsPrivate info i then 1 else 0) + (if pop (info i) = 1 then 1 else 0)

/-- What page `i` of the sibling adds to `*baseCaseTotalPageCount`. -/
def baseTerm (p : Proc) (i : Nat) : Int := if p.initializedPagesBV i then 1 else 0

/-- What page `i` of the sibling adds to its `zeroPageCount`. -/
def zeroTerm (p : Proc) (i : Nat) : Int := if p.zeroPagesBV i then 1 else 0

/-- The statistics after sibling `q` changes its bits and holder bits on the window pages `R`,
given the counters moved by the changes of the page states there. -/
theorem Counted.update {cfg : Config} {n : Nat} {s : Node} (hc : Counted cfg n s) {q : Nat}
    (hq : q < n) {p' : Proc} {shm' : Shm} (R : Finset Nat) (hR : R ⊆ cfg.window)
    (hrank : p'.myRank = (s.procs q).myRank)
    (hne : ∀ q' < n, q' ≠ q → (s.procs q').myRank ≠ (s.procs q).myRank)
    (hbits : ∀ i j, j ≠ (s.procs q).myRank →
      (shm'.sharingProcessesInfo i).testBit j = (s.shm.sharingProcessesInfo i).testBit j)
    (hout : ∀ i ∈ cfg.window, i ∉ R →
      p'.initializedPagesBV i = (s.procs q).initializedPagesBV i ∧
      p'.zeroPagesBV i = (s.procs q).zeroPagesBV i ∧
      shm'.sharingProcessesInfo i = s.shm.sharingProcessesInfo i)
    (hshared : shm'.sharedPageCount = s.shm.sharedPageCount +
      ∑ i ∈ R, (sharedTerm shm'.sharingProcessesInfo i - sharedTerm s.shm.sharingProcessesInfo i))
    (hpriv : shm'.allProcPrivatePageCount = s.shm.allProcPrivatePageCount +
      ∑ i ∈ R, (privTerm shm'.sharingProcessesInfo p' i -
        privTerm s.shm.sharingProcessesInfo (s.procs q) i))
    (hbase : shm'.baseCaseTotalPageCount = s.shm.baseCaseTotalPageCount +
      ∑ i ∈ R, (baseTerm p' i - baseTerm (s.procs q) i))
    (hzero : p'.zeroPageCount = (s.procs q).zeroPageCount +
      ∑ i ∈ R, (zeroTerm p' i - zeroTerm (s.procs q) i)) :
    Counted cfg n (s.setProc q p' shm') := by
  simp only [sharedTerm, privTerm, baseTerm, zeroTerm, add_sub_add_comm, Finset.sum_add_distrib]
    at hshared hpriv hbase hzero
  have hinfo : ∀ i ∈ cfg.window, i ∉ R →
      shm'.sharingProcessesInfo i = s.shm.sharingProcessesInfo i := fun i hi hiR =>
    (hout i hi hiR).2.2
  have hqn : q ∈ Finset.range n := Finset.mem_range.2 hq
  have hother : ∀ q' ∈ Finset.range n, q' ≠ q → (s.setProc q p' shm').procs q' = s.procs q' :=
    fun q' _ h => s.setProc_other p' shm' h
  have hpriv_q : ((p'.privateCount cfg shm'.sharingProcessesInfo : Nat) : Int) =
      (s.procs q).privateCount cfg s.shm.sharingProcessesInfo +
      ∑ i ∈ R, ((if p'.IsPrivate shm'.sharingProcessesInfo i then 1 else 0) -
        (if (s.procs q).IsPrivate s.shm.sharingProcessesInfo i then 1 else 0)) := by
    refine card_filter_eq_add hR fun i hi hiR => ?_
    obtain ⟨h1, h2, h3⟩ := hout i hi hiR
    simp only [Proc.IsPrivate, Proc.Held, h1, h2, h3, hrank]
  have hpriv_other : ∀ q' ∈ Finset.range n, q' ≠ q →
      (((s.setProc q p' shm').procs q').privateCount cfg shm'.sharingProcessesInfo : Int) =
        (s.procs q').privateCount cfg s.shm.sharingProcessesInfo := by
    intro q' hq' hq'q
    rw [hother q' hq' hq'q]
    simp only [Proc.privateCount, Proc.IsPrivate, Proc.Held,
      hbits _ _ (hne q' (Finset.mem_range.1 hq') hq'q)]
  refine ⟨?_, ?_, ?_, ?_⟩
  · rw [Node.setProc_shm, hshared, hc.shared, framesWith_eq_add hR (2 ≤ ·) hinfo]
    ring
  · rw [Node.setProc_shm, hpriv, hc.priv, framesWith_eq_add hR (· = 1) hinfo,
      Nat.cast_sum, Nat.cast_sum, sum_eq_add_sub_of_eqOn hqn hpriv_other, Node.setProc_self,
      hpriv_q]
    ring
  · have hinit : ((p'.initCount cfg : Nat) : Int) = (s.procs q).initCount cfg +
        ∑ i ∈ R, ((if p'.initializedPagesBV i then 1 else 0) -
          (if (s.procs q).initializedPagesBV i then 1 else 0)) :=
      card_filter_eq_add hR fun i hi hiR => by rw [(hout i hi hiR).1]
    have hinit_other : ∀ q' ∈ Finset.range n, q' ≠ q →
        (((s.setProc q p' shm').procs q').initCount cfg : Int) = (s.procs q').initCount cfg :=
      fun q' hq' h => by rw [hother q' hq' h]
    rw [Node.setProc_shm, hbase, hc.base, Nat.cast_sum, Nat.cast_sum,
      sum_eq_add_sub_of_eqOn hqn hinit_other, Node.setProc_self, hinit]
    ring
  · intro q' hq'
    rcases eq_or_ne q' q with rfl | h
    · have hz : ((p'.zeroCount cfg : Nat) : Int) = (s.procs q').zeroCount cfg +
          ∑ i ∈ R, ((if p'.zeroPagesBV i then 1 else 0) -
            (if (s.procs q').zeroPagesBV i then 1 else 0)) :=
        card_filter_eq_add hR fun i hi hiR => by rw [(hout i hi hiR).2.1]
      rw [Node.setProc_self, hzero, hc.zero q' hq', hz]
    · rw [hother q' (Finset.mem_range.2 hq') h]; exact hc.zero q' hq'

/-- The invariant after an update of sibling `q` that changes only its own holder bits, writes
only frames no other sibling holds, and leaves `q` consistent. -/
theorem Inv.update {cfg : Config} {n : Nat} {A A' : Pass} {s : Node} (hs : Inv cfg n A s)
    {q : Nat} (hq : q < n) {p' : Proc} {shm' : Shm}
    (hrank : p'.myRank = (s.procs q).myRank) (halive : shm'.aliveProcs = s.shm.aliveProcs)
    (hbits : ∀ i j, j ≠ (s.procs q).myRank →
      (shm'.sharingProcessesInfo i).testBit j = (s.shm.sharingProcessesInfo i).testBit j)
    (hentries : ∀ i, shm'.sharingProcessesInfo i < 2 ^ cfg.numProc)
    (hframes : ∀ f, ∀ o < cfg.pageSize, shm'.frames f o ≠ s.shm.frames f o → f ≠ 0 ∧
      ∀ j, (s.shm.sharingProcessesInfo f).testBit j = true → j = (s.procs q).myRank)
    (hA : ∀ q' < n, q' ≠ q → A'.regions q' = A.regions q' ∧ A'.bytes q' = A.bytes q')
    (hsib : SibOK cfg shm'.sharingProcessesInfo p')
    (href : Refines cfg shm'.frames A' q p')
    (hcount : Counted cfg n (s.setProc q p' shm')) :
    Inv cfg n A' (s.setProc q p' shm') := by
  have hother : ∀ q', q' ≠ q → (s.setProc q p' shm').procs q' = s.procs q' :=
    fun q' h => s.setProc_other p' shm' h
  have hne : ∀ q' < n, q' ≠ q → (s.procs q').myRank ≠ (s.procs q).myRank :=
    fun q' hq' h he => h (hs.rank_inj q' hq' q hq he)
  have hrank' : ∀ q', ((s.setProc q p' shm').procs q').myRank = (s.procs q').myRank := by
    intro q'; rcases eq_or_ne q' q with rfl | h
    · rw [Node.setProc_self, hrank]
    · rw [hother q' h]
  refine ⟨fun q' hq' => hrank' q' ▸ hs.rank_lt q' hq',
    fun q₁ h₁ q₂ h₂ he => hs.rank_inj q₁ h₁ q₂ h₂ (by rwa [hrank', hrank'] at he),
    halive.trans hs.alive, fun o ho => ?_, hentries, fun i j hj => ?_, fun q' hq' => ?_,
    hcount, fun q' hq' => ?_⟩
  · rw [Node.setProc_shm]
    by_cases hf : shm'.frames 0 o = s.shm.frames 0 o
    · rw [hf]; exact hs.frame0 o ho
    · exact absurd rfl (hframes 0 o ho hf).1
  · by_cases hjq : j = (s.procs q).myRank
    · exact ⟨q, hq, by rw [Node.setProc_self, hrank, hjq]⟩
    · obtain ⟨q', hq', rfl⟩ := hs.holders i j (by rwa [← hbits i j hjq])
      exact ⟨q', hq', hrank' q'⟩
  · rcases eq_or_ne q' q with rfl | h
    · rw [Node.setProc_self]; exact hsib
    · rw [hother q' h]
      exact (hs.sib q' hq').congr_held fun i => hbits i _ (hne q' hq' h)
  · rcases eq_or_ne q' q with rfl | h
    · rw [Node.setProc_self]; exact href
    · rw [hother q' h]
      obtain ⟨hreg, hbytes⟩ := hs.refines q' hq'
      refine ⟨hreg.trans (hA q' hq' h).1.symm, fun i hi => ?_⟩
      obtain ⟨c, hc, hco⟩ := hbytes i hi
      rw [(hA q' hq' h).2]
      have hagree : ∀ f, (s.procs q').mem i = .file f false → (f = 0 ∨ (s.procs q').Held
          s.shm.sharingProcessesInfo f = true) → ∀ o < cfg.pageSize, shm'.frames f o = s.shm.frames f o := by
        intro f hf hcase o ho
        by_contra hfo
        obtain ⟨hf0, hbit⟩ := hframes f o ho hfo
        rcases hcase with rfl | hh
        · exact hf0 rfl
        · exact hne q' hq' h (hbit _ hh)
      rcases (((hs.sib q' hq').pages i).1 hi).mapping with ⟨c', w, hm⟩ | hm | ⟨hm, hh⟩
      · exact ⟨c, by rw [hm] at hc ⊢; exact hc, hco⟩
      · refine ⟨shm'.frames 0, by rw [hm]; rfl, fun o ho => ?_⟩
        rw [hm, Mapping.content_file, Option.some.injEq] at hc
        rw [hagree 0 hm (.inl rfl) o ho, hc, hco o ho]
      · refine ⟨shm'.frames i, by rw [hm]; rfl, fun o ho => ?_⟩
        rw [hm, Mapping.content_file, Option.some.injEq] at hc
        rw [hagree i hm (.inr hh) o ho, hc, hco o ho]

/-! ## Updates of one sibling -/

/-- A sibling moves from `p` to `p'` and the file from `shm` to `shm'`, changing its pages only
on `R` and the holder table only in its own bit. -/
structure Confined (p : Proc) (shm : Shm) (p' : Proc) (shm' : Shm) (R : Finset Nat) : Prop where
  rank : p'.myRank = p.myRank
  metric : p'.mergeMetric = p.mergeMetric
  alive : shm'.aliveProcs = shm.aliveProcs
  bits : ∀ i j, j ≠ p.myRank →
    (shm'.sharingProcessesInfo i).testBit j = (shm.sharingProcessesInfo i).testBit j
  live : ∀ i, i ∉ R → (p'.Live i ↔ p.Live i)
  init : ∀ i, i ∉ R → p'.initializedPagesBV i = p.initializedPagesBV i
  zero : ∀ i, i ∉ R → p'.zeroPagesBV i = p.zeroPagesBV i
  mem : ∀ i, i ∉ R → p'.mem i = p.mem i
  info : ∀ i, i ∉ R → shm'.sharingProcessesInfo i = shm.sharingProcessesInfo i

/-- A confined update that moves the statistics by exactly the change of what the touched pages
contribute. -/
structure Moved (p : Proc) (shm : Shm) (p' : Proc) (shm' : Shm) (R : Finset Nat)
    extends Confined p shm p' shm' R : Prop where
  shared : shm'.sharedPageCount = shm.sharedPageCount +
    ∑ i ∈ R, (sharedTerm shm'.sharingProcessesInfo i - sharedTerm shm.sharingProcessesInfo i)
  priv : shm'.allProcPrivatePageCount = shm.allProcPrivatePageCount +
    ∑ i ∈ R, (privTerm shm'.sharingProcessesInfo p' i - privTerm shm.sharingProcessesInfo p i)
  base : shm'.baseCaseTotalPageCount = shm.baseCaseTotalPageCount +
    ∑ i ∈ R, (baseTerm p' i - baseTerm p i)
  zc : p'.zeroPageCount = p.zeroPageCount + ∑ i ∈ R, (zeroTerm p' i - zeroTerm p i)

/-- Two sums of moves: on `R₁ ∪ R₂` the second term minus the first is the move over `R₁`
followed by the move over `R₂`. -/
theorem sum_union_sub {R₁ R₂ : Finset Nat} {f₀ f₁ f₂ : Nat → Int}
    (h₁ : ∀ i, i ∉ R₁ → f₁ i = f₀ i) (h₂ : ∀ i, i ∉ R₂ → f₂ i = f₁ i) :
    ∑ i ∈ R₁, (f₁ i - f₀ i) + ∑ i ∈ R₂, (f₂ i - f₁ i) = ∑ i ∈ R₁ ∪ R₂, (f₂ i - f₀ i) := by
  have e₁ : ∑ i ∈ R₁, (f₁ i - f₀ i) = ∑ i ∈ R₁ ∪ R₂, (f₁ i - f₀ i) :=
    Finset.sum_subset Finset.subset_union_left fun i _ hi => by rw [h₁ i hi, sub_self]
  have e₂ : ∑ i ∈ R₂, (f₂ i - f₁ i) = ∑ i ∈ R₁ ∪ R₂, (f₂ i - f₁ i) :=
    Finset.sum_subset Finset.subset_union_right fun i _ hi => by rw [h₂ i hi, sub_self]
  rw [e₁, e₂, ← Finset.sum_add_distrib]
  exact Finset.sum_congr rfl fun _ _ => by ring

section Moves

variable {p p₁ p₂ : Proc} {shm shm₁ shm₂ : Shm} {R R₁ R₂ : Finset Nat}

theorem Confined.held (hc : Confined p shm p₁ shm₁ R) {i : Nat} (hi : i ∉ R) :
    p₁.Held shm₁.sharingProcessesInfo i = p.Held shm.sharingProcessesInfo i := by
  simp only [Proc.Held, hc.rank, hc.info i hi]

theorem Confined.privTerm_eq (hc : Confined p shm p₁ shm₁ R) {i : Nat} (hi : i ∉ R) :
    privTerm shm₁.sharingProcessesInfo p₁ i = privTerm shm.sharingProcessesInfo p i := by
  simp only [privTerm, Proc.IsPrivate, hc.init i hi, hc.zero i hi, hc.held hi, hc.info i hi]

theorem Confined.trans (h₁ : Confined p shm p₁ shm₁ R₁) (h₂ : Confined p₁ shm₁ p₂ shm₂ R₂) :
    Confined p shm p₂ shm₂ (R₁ ∪ R₂) := by
  have hout : ∀ i, i ∉ R₁ ∪ R₂ → i ∉ R₁ ∧ i ∉ R₂ := fun i hi => by simpa [not_or] using hi
  refine ⟨h₂.rank.trans h₁.rank, h₂.metric.trans h₁.metric, h₂.alive.trans h₁.alive,
    fun i j hj => (h₂.bits i j (h₁.rank ▸ hj)).trans (h₁.bits i j hj), fun i hi => ?_,
    fun i hi => ?_, fun i hi => ?_, fun i hi => ?_, fun i hi => ?_⟩ <;>
  obtain ⟨hi₁, hi₂⟩ := hout i hi
  · exact (h₂.live i hi₂).trans (h₁.live i hi₁)
  · exact (h₂.init i hi₂).trans (h₁.init i hi₁)
  · exact (h₂.zero i hi₂).trans (h₁.zero i hi₁)
  · exact (h₂.mem i hi₂).trans (h₁.mem i hi₁)
  · exact (h₂.info i hi₂).trans (h₁.info i hi₁)

/-- Moves compose: the statistics of two confined updates add up page by page. -/
theorem Moved.trans (h₁ : Moved p shm p₁ shm₁ R₁) (h₂ : Moved p₁ shm₁ p₂ shm₂ R₂) :
    Moved p shm p₂ shm₂ (R₁ ∪ R₂) where
  toConfined := h₁.toConfined.trans h₂.toConfined
  shared := by
    rw [h₂.shared, h₁.shared, add_assoc, sum_union_sub
      (fun i hi => by rw [sharedTerm, h₁.info i hi]; rfl)
      (fun i hi => by rw [sharedTerm, h₂.info i hi]; rfl)]
  priv := by
    rw [h₂.priv, h₁.priv, add_assoc, sum_union_sub (fun i hi => h₁.privTerm_eq hi)
      (fun i hi => h₂.privTerm_eq hi)]
  base := by
    rw [h₂.base, h₁.base, add_assoc, sum_union_sub (fun i hi => by rw [baseTerm, h₁.init i hi]; rfl)
      (fun i hi => by rw [baseTerm, h₂.init i hi]; rfl)]
  zc := by
    rw [h₂.zc, h₁.zc, add_assoc, sum_union_sub (fun i hi => by rw [zeroTerm, h₁.zero i hi]; rfl)
      (fun i hi => by rw [zeroTerm, h₂.zero i hi]; rfl)]

/-- An update of one page `j`: the sibling keeps its regions, and the holder table changes only
at `j` and there only in the sibling's own bit. -/
theorem Confined.of_page {j : Nat} (hrank : p₁.myRank = p.myRank)
    (hmetric : p₁.mergeMetric = p.mergeMetric) (halloc : p₁.allocRecord = p.allocRecord)
    (halive : shm₁.aliveProcs = shm.aliveProcs)
    (hinit : ∀ k, k ≠ j → p₁.initializedPagesBV k = p.initializedPagesBV k)
    (hzero : ∀ k, k ≠ j → p₁.zeroPagesBV k = p.zeroPagesBV k)
    (hmem : ∀ k, k ≠ j → p₁.mem k = p.mem k)
    (hinfo : ∀ k, k ≠ j → shm₁.sharingProcessesInfo k = shm.sharingProcessesInfo k)
    (hbit : ∀ m, m ≠ p.myRank →
      (shm₁.sharingProcessesInfo j).testBit m = (shm.sharingProcessesInfo j).testBit m) :
    Confined p shm p₁ shm₁ {j} := by
  have hout : ∀ k, k ∉ ({j} : Finset Nat) → k ≠ j := fun k hk => by simpa using hk
  refine ⟨hrank, hmetric, halive, fun k m hm => ?_, fun k _ => by simp only [Proc.Live, halloc],
    fun k hk => hinit k (hout k hk), fun k hk => hzero k (hout k hk), fun k hk => hmem k (hout k hk),
    fun k hk => hinfo k (hout k hk)⟩
  rcases eq_or_ne k j with rfl | hk
  · exact hbit m hm
  · rw [hinfo k hk]

/-- A move on one page. -/
theorem Moved.single {i : Nat} (hc : Confined p shm p₁ shm₁ {i})
    (hshared : shm₁.sharedPageCount = shm.sharedPageCount +
      (sharedTerm shm₁.sharingProcessesInfo i - sharedTerm shm.sharingProcessesInfo i))
    (hpriv : shm₁.allProcPrivatePageCount = shm.allProcPrivatePageCount +
      (privTerm shm₁.sharingProcessesInfo p₁ i - privTerm shm.sharingProcessesInfo p i))
    (hbase : shm₁.baseCaseTotalPageCount = shm.baseCaseTotalPageCount +
      (baseTerm p₁ i - baseTerm p i))
    (hzc : p₁.zeroPageCount = p.zeroPageCount + (zeroTerm p₁ i - zeroTerm p i)) :
    Moved p shm p₁ shm₁ {i} := by
  refine ⟨hc, ?_, ?_, ?_, ?_⟩ <;> rwa [Finset.sum_singleton]

/-- A confined update that changes no bit and no counter moves nothing. -/
theorem Moved.of_bits (hc : Confined p shm p₁ shm₁ R)
    (hinit : ∀ i ∈ R, p₁.initializedPagesBV i = p.initializedPagesBV i)
    (hzero : ∀ i ∈ R, p₁.zeroPagesBV i = p.zeroPagesBV i)
    (hinfo : ∀ i ∈ R, shm₁.sharingProcessesInfo i = shm.sharingProcessesInfo i)
    (hshared : shm₁.sharedPageCount = shm.sharedPageCount)
    (hpriv : shm₁.allProcPrivatePageCount = shm.allProcPrivatePageCount)
    (hbase : shm₁.baseCaseTotalPageCount = shm.baseCaseTotalPageCount)
    (hzc : p₁.zeroPageCount = p.zeroPageCount) : Moved p shm p₁ shm₁ R := by
  have hheld : ∀ i ∈ R, p₁.Held shm₁.sharingProcessesInfo i = p.Held shm.sharingProcessesInfo i :=
    fun i hi => by simp only [Proc.Held, hc.rank, hinfo i hi]
  refine ⟨hc, ?_, ?_, ?_, ?_⟩
  · rw [hshared, Finset.sum_eq_zero fun i hi => by rw [sharedTerm, sharedTerm, hinfo i hi, sub_self],
      add_zero]
  · rw [hpriv, Finset.sum_eq_zero fun i hi => by
      rw [privTerm, privTerm, Proc.IsPrivate, Proc.IsPrivate, hinit i hi, hzero i hi, hheld i hi,
        hinfo i hi, sub_self], add_zero]
  · rw [hbase, Finset.sum_eq_zero fun i hi => by rw [baseTerm, baseTerm, hinit i hi, sub_self],
      add_zero]
  · rw [hzc, Finset.sum_eq_zero fun i hi => by rw [zeroTerm, zeroTerm, hzero i hi, sub_self],
      add_zero]

theorem Moved.refl (p : Proc) (shm : Shm) : Moved p shm p shm ∅ :=
  ⟨⟨rfl, rfl, rfl, fun _ _ _ => rfl, fun _ _ => Iff.rfl, fun _ _ => rfl, fun _ _ => rfl,
    fun _ _ => rfl, fun _ _ => rfl⟩, by simp, by simp, by simp, by simp⟩

end Moves

/-! ## Page loops

The loops of `ShmFreeWrapper`, `RemapRegion` and `RemapToZero` visit distinct pages and change
each page only when they visit it. A fact about one page that a confined update keeps on the
pages it does not touch is `PageLocal`; a loop whose every round is a one-page move is a move
over all the pages it visits. -/

/-- A fact about page `j` that survives any update confined away from `j`. -/
def PageLocal (P : Proc → Shm → Nat → Prop) : Prop :=
  ∀ ⦃p shm p' shm' R j⦄, Confined p shm p' shm' R → j ∉ R → P p shm j → P p' shm' j

section Loop

variable {σ : Type} (pr : σ → Proc) (sh : σ → Shm) (f : σ → Nat → σ) (G : σ → Prop)
  {P Q : Proc → Shm → Nat → Prop}

/-- A loop over distinct pages, each round a one-page move that keeps `G`, needs `P` of its page
and leaves `Q` there, moves the sibling over all its pages and leaves `Q` on each. -/
theorem Moved.foldl (hP : PageLocal P) (hQ : PageLocal Q)
    (hstep : ∀ st j, G st → P (pr st) (sh st) j →
      G (f st j) ∧ Moved (pr st) (sh st) (pr (f st j)) (sh (f st j)) {j} ∧
        Q (pr (f st j)) (sh (f st j)) j) :
    ∀ (l : List Nat) (st : σ), l.Nodup → G st → (∀ j ∈ l, P (pr st) (sh st) j) →
      G (l.foldl f st) ∧ Moved (pr st) (sh st) (pr (l.foldl f st)) (sh (l.foldl f st)) l.toFinset ∧
        ∀ j ∈ l, Q (pr (l.foldl f st)) (sh (l.foldl f st)) j
  | [], st, _, hG, _ => ⟨hG, by simpa using Moved.refl (pr st) (sh st), by simp⟩
  | j :: l, st, hnd, hG, hPl => by
    obtain ⟨hj, hnd⟩ := List.nodup_cons.1 hnd
    obtain ⟨hG₁, hm₁, hQ₁⟩ := hstep st j hG (hPl j (List.mem_cons_self _ _))
    have hout : ∀ k ∈ l, k ∉ ({j} : Finset Nat) := fun k hk => by
      rw [Finset.mem_singleton]; rintro rfl; exact hj hk
    obtain ⟨hG₂, hm₂, hQ₂⟩ := Moved.foldl hP hQ hstep l (f st j) hnd hG₁ fun k hk =>
      hP hm₁.toConfined (hout k hk) (hPl k (List.mem_cons_of_mem _ hk))
    refine ⟨hG₂, ?_, fun k hk => ?_⟩
    · rw [List.foldl_cons, List.toFinset_cons, Finset.insert_eq]; exact hm₁.trans hm₂
    · rw [List.foldl_cons]
      rcases List.mem_cons.1 hk with rfl | hk
      · exact hQ hm₂.toConfined (by simpa using hj) hQ₁
      · exact hQ₂ k hk

end Loop

/-- The invariant after a move of sibling `q`, from the facts about the pages it touches: their
new states, the frames it writes, the regions and the passthrough allocator. -/
theorem Inv.step_update {cfg : Config} {n : Nat} {A A' : Pass} {s : Node} (hs : Inv cfg n A s)
    {q : Nat} (hq : q < n) {p' : Proc} {shm' : Shm} {R : Finset Nat}
    (hm : Moved (s.procs q) s.shm p' shm' R) (hR : R ⊆ cfg.window)
    (hentries : ∀ i, shm'.sharingProcessesInfo i < 2 ^ cfg.numProc)
    (hframes : ∀ f, ∀ o < cfg.pageSize, shm'.frames f o ≠ s.shm.frames f o → f ≠ 0 ∧
      ∀ j, (s.shm.sharingProcessesInfo f).testBit j = true → j = (s.procs q).myRank)
    (hregions : RegionsOK cfg p'.allocRecord)
    (hin : ∀ i ∈ R, PageOK shm'.sharingProcessesInfo p' i)
    (hzero : ∀ i ∈ R, p'.zeroPagesBV i = true →
      (s.procs q).mergeMetric = .threshold ∨ (s.procs q).mergeMetric = .allocFrequency)
    (hheld : ∀ i ∈ R, p'.Held shm'.sharingProcessesInfo i = true →
      (s.procs q).mergeMetric ≠ .mergeDisabled)
    (hA : ∀ q' < n, q' ≠ q → A'.regions q' = A.regions q' ∧ A'.bytes q' = A.bytes q')
    (href : Refines cfg shm'.frames A' q p') :
    Inv cfg n A' (s.setProc q p' shm') := by
  have hne : ∀ q' < n, q' ≠ q → (s.procs q').myRank ≠ (s.procs q).myRank :=
    fun q' hq' h he => h (hs.rank_inj q' hq' q hq he)
  refine hs.update hq hm.rank hm.alive hm.bits hentries hframes hA ?_ href ?_
  · exact (hs.sib q hq).update hm.metric hregions (· ∈ R)
      (fun i hi => ⟨hm.live i hi, hm.init i hi, hm.zero i hi, hm.held hi, hm.mem i hi⟩)
      hin hzero hheld
  · exact hs.counted.update hq R hR hm.rank hne hm.bits
      (fun i _ hi => ⟨hm.init i hi, hm.zero i hi, hm.info i hi⟩) hm.shared hm.priv hm.base hm.zc

/-! ## The initial node -/

/-- Holder indices below the width and pairwise distinct. -/
structure RanksOK (cfg : Config) (n : Nat) (rank : Nat → Nat) : Prop where
  lt : ∀ q < n, rank q < cfg.numProc
  inj : ∀ q < n, ∀ q' < n, rank q = rank q' → q = q'

theorem Inv.init {cfg : Config} {n : Nat} {rank : Nat → Nat} (metric : Nat → MergeMetric)
    (hr : RanksOK cfg n rank) : Inv cfg n Pass.init (Node.init n rank metric) where
  rank_lt := hr.lt
  rank_inj := hr.inj
  alive := rfl
  frame0 _ _ := rfl
  entries _ := Nat.two_pow_pos _
  holders i j h := by simp [Node.init] at h
  sib q _ :=
    { regions := ⟨fun _ _ h => by simp [Node.init] at h, fun _ _ _ _ _ h => by simp [Node.init] at h⟩
      pages := fun i => ⟨fun ⟨_, _, h, _⟩ => by simp [Node.init] at h,
        fun _ => by simp [Node.init, Proc.Held]⟩
      noZero := fun _ _ => rfl
      noHeld := fun _ _ => by simp [Node.init, Proc.Held] }
  counted :=
    { shared := by simp [Node.init, framesWith, pop]
      priv := by simp [Node.init, framesWith, pop, Proc.privateCount, Proc.IsPrivate]
      base := by simp [Node.init, Proc.initCount]
      zero := fun _ _ => by simp [Node.init, Proc.zeroCount] }
  refines q _ := ⟨rfl, fun _ ⟨_, _, h, _⟩ => by simp [Node.init] at h⟩

end SbllMalloc.SharedHeap
