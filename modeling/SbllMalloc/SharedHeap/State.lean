import SbllMalloc.SharedHeap.Bits

/-!
# A node: siblings, their address spaces and the backing file

All siblings of a node open the POSIX shared file `/PSMallocTest`. Its first 3 GiB are the
frames of the heap window, one per page index (frame `0` is the zero page `zeroPage` maps);
after them come the holder table `sharingProcessesInfo` and the page holding `aliveProcs` and
the three statistics counters (`SHARED_STATS`). `Shm` is that file.

Each sibling is a process. `Proc` is its private state: its holder index `myRank`, its merge
policy `mergeMetric`, the allocation index `allocRecord`, the two page bit vectors, the local
`zeroPageCount`, and its address space restricted to the heap window. A heap address is the
page index `Addr2PageIndex` gives it (the offset from `sharedHeapBottom` in pages), so a page of
a sibling's window and the frame of the same index are the two ends of `MAP_SHARED`.

`allocRecord` is the AVL tree of `AVL.cpp`; a sibling only inserts, removes and looks up
regions, and `SbllMalloc.Avl.avl_map_contract` shows the tree behaves as the finite map kept
here: region base to length in pages (the tree stores bytes). The per-node `dirty` flag is kept
beside it, by region base.

A page of memory is its bytes by offset. `compare_pages` (`memcmp` over `PAGE_SIZE` bytes) is
`comparePages`; `memcpy` copies a page whole.
-/

namespace SbllMalloc.SharedHeap

/-- The bytes of one page, by offset. -/
abbrev Page := Nat → UInt8

/-- A page of zero bytes: a fresh anonymous page, or one `memset` to `0`. -/
def blankPage : Page := fun _ => 0

/-- `compare_pages(a, b) == 0`: the two pages agree on their `PAGE_SIZE` bytes. -/
def comparePages (pageSize : Nat) (a b : Page) : Bool :=
  (List.range pageSize).all fun o => a o == b o

theorem comparePages_iff {pageSize : Nat} {a b : Page} :
    comparePages pageSize a b = true ↔ ∀ o < pageSize, a o = b o := by
  simp [comparePages]

theorem comparePages_self (pageSize : Nat) (a : Page) : comparePages pageSize a a = true :=
  comparePages_iff.2 fun _ _ => rfl

/-- A page with a non-zero byte is not blank. -/
theorem comparePages_update_blank {pageSize o : Nat} {v : UInt8} (ho : o < pageSize) (hv : v ≠ 0) :
    comparePages pageSize (Function.update blankPage o v) blankPage = false := by
  rw [← Bool.not_eq_true, comparePages_iff]
  exact fun h => hv (by simpa using h o ho)

/-- What one page of a sibling's window is mapped to. -/
inductive Mapping where
  | unmapped
  /-- `MAP_PRIVATE | MAP_ANONYMOUS`, with its own bytes. -/
  | anon (content : Page) (writable : Bool)
  /-- `MAP_SHARED` of the backing file at `frame * PAGE_SIZE`. -/
  | file (frame : Nat) (writable : Bool)

namespace Mapping

/-- Whether a write goes through without a fault. -/
def writable : Mapping → Bool
  | unmapped => false
  | anon _ w => w
  | file _ w => w

/-- The bytes a read sees; `none` for an unmapped page (`SIGSEGV`). -/
def content (frames : Nat → Page) : Mapping → Option Page
  | unmapped => none
  | anon c _ => some c
  | file f _ => some (frames f)

/-- `mprotect` of one page to read-only (`false`) or read-write (`true`). -/
def protect (w : Bool) : Mapping → Mapping
  | unmapped => unmapped
  | anon c _ => anon c w
  | file f _ => file f w

@[simp] theorem content_anon (frames : Nat → Page) (c : Page) (w : Bool) :
    (anon c w).content frames = some c := rfl

@[simp] theorem content_file (frames : Nat → Page) (f : Nat) (w : Bool) :
    (file f w).content frames = some (frames f) := rfl

@[simp] theorem writable_anon (c : Page) (w : Bool) : (anon c w).writable = w := rfl

@[simp] theorem writable_file (f : Nat) (w : Bool) : (file f w).writable = w := rfl

@[simp] theorem protect_anon (v : Bool) (c : Page) (w : Bool) : (anon c w).protect v = anon c v :=
  rfl

@[simp] theorem protect_file (v : Bool) (f : Nat) (w : Bool) : (file f w).protect v = file f v :=
  rfl

end Mapping

/-- `_MERGE_METRICS`. -/
inductive MergeMetric where
  | mergeDisabled
  | allocFrequency
  | threshold
  | buffered
  deriving DecidableEq, Repr

/-- The node-wide constants `InitAddrSpace` fixes: `PAGE_SIZE` from `sysconf` (a power of two,
at most `2^20` as it asserts) and `numProc`, the core count rounded up to 8 or 16. -/
structure Config where
  pageSize : Nat
  numProc : Nat
  pageSize_pow : ∃ k, pageSize = 2 ^ k
  pageSize_le : pageSize ≤ 2 ^ 20
  numProc_eq : numProc = 8 ∨ numProc = 16

/-- `4 KiB` pages and eight holder bits. -/
def Config.page4k : Config := ⟨4096, 8, ⟨12, rfl⟩, by norm_num, .inl rfl⟩

/-- The number of page indices of the 3 GiB heap window. -/
def Config.heapPages (cfg : Config) : Nat := 0xc0000000 / cfg.pageSize

theorem Config.numProc_le (cfg : Config) : cfg.numProc ≤ 64 := by
  rcases cfg.numProc_eq with h | h <;> omega

theorem Config.pageSize_pos (cfg : Config) : 0 < cfg.pageSize := by
  obtain ⟨k, hk⟩ := cfg.pageSize_pow; rw [hk]; exact Nat.two_pow_pos k

/-- `MMAP_BUFFER_SIZE`: the scratch window of `MergeManyPages`, in bytes. -/
def mmapBufferSize : Nat := 4 * 1024 * 1024

theorem Config.pageSize_dvd (cfg : Config) : cfg.pageSize ∣ mmapBufferSize := by
  obtain ⟨k, hk⟩ := cfg.pageSize_pow
  have hle := cfg.pageSize_le
  rw [hk] at hle ⊢
  have : k ≤ 22 := by
    have := (Nat.pow_le_pow_iff_right (by norm_num : 1 < 2)).1 hle; omega
  exact (Nat.pow_dvd_pow 2 this).trans (by norm_num [mmapBufferSize])

/-- The backing file and the node-wide metadata in it. -/
structure Shm where
  frames : Nat → Page
  sharingProcessesInfo : Nat → Nat
  aliveProcs : Int
  sharedPageCount : Int
  allProcPrivatePageCount : Int
  baseCaseTotalPageCount : Int

/-- One sibling's private state. -/
structure Proc where
  myRank : Nat
  mergeMetric : MergeMetric
  allocRecord : Nat → Option Nat
  dirty : Nat → Bool
  mem : Nat → Mapping
  initializedPagesBV : Nat → Bool
  zeroPagesBV : Nat → Bool
  zeroPageCount : Int

/-- A node: the backing file and the siblings, by sibling number. -/
structure Node where
  shm : Shm
  procs : Nat → Proc

/-! ## Pages of a region -/

/-- Page `i` is one of the `size` pages from `start`. -/
def InRange (start size i : Nat) : Prop := start ≤ i ∧ i < start + size

instance (start size i : Nat) : Decidable (InRange start size i) :=
  inferInstanceAs (Decidable (_ ∧ _))

theorem toFinset_range' (start size : Nat) :
    (List.range' start size).toFinset = Finset.Ico start (start + size) := by
  ext i; simp [List.mem_range'_1]

/-- An `mmap` with `MAP_FIXED` (or an `mremap` onto) the `size` pages from `start`. -/
def mapRange (mem : Nat → Mapping) (start size : Nat) (f : Nat → Mapping) : Nat → Mapping :=
  fun i => if InRange start size i then f i else mem i

/-- `mprotect` of the `size` pages from `start`. -/
def protectRange (mem : Nat → Mapping) (start size : Nat) (w : Bool) : Nat → Mapping :=
  fun i => if InRange start size i then (mem i).protect w else mem i

theorem mapRange_of_inRange {mem : Nat → Mapping} {start size i : Nat} (f : Nat → Mapping)
    (h : InRange start size i) : mapRange mem start size f i = f i := if_pos h

theorem mapRange_of_not_inRange {mem : Nat → Mapping} {start size i : Nat} (f : Nat → Mapping)
    (h : ¬InRange start size i) : mapRange mem start size f i = mem i := if_neg h

theorem protectRange_of_inRange {mem : Nat → Mapping} {start size i : Nat} (w : Bool)
    (h : InRange start size i) : protectRange mem start size w i = (mem i).protect w := if_pos h

theorem protectRange_of_not_inRange {mem : Nat → Mapping} {start size i : Nat} (w : Bool)
    (h : ¬InRange start size i) : protectRange mem start size w i = mem i := if_neg h

theorem protectRange_mapRange (mem : Nat → Mapping) (start size : Nat) (f : Nat → Mapping)
    (w : Bool) : protectRange (mapRange mem start size f) start size w =
      mapRange mem start size fun i => (f i).protect w := by
  funext i; simp only [protectRange, mapRange]; split_ifs <;> rfl

/-- `AspaceAvlSearchRangeWrapper` on the allocation map: the nearest region base at or below
page `i` whose region holds `i`. -/
def searchRange (allocRecord : Nat → Option Nat) (i : Nat) : Option Nat :=
  (List.range (i + 1)).reverse.find? fun b => (allocRecord b).any fun size => decide (i < b + size)

/-- `InsertAVL` on the allocation map: an existing binding is kept. -/
def insertRecord (allocRecord : Nat → Option Nat) (key size : Nat) : Nat → Option Nat :=
  if (allocRecord key).isSome then allocRecord else Function.update allocRecord key (some size)

namespace Node

/-- The node after sibling `q` moves to `p` and the file to `shm`. -/
def setProc (s : Node) (q : Nat) (p : Proc) (shm : Shm) : Node :=
  ⟨shm, Function.update s.procs q p⟩

@[simp] theorem setProc_shm (s : Node) (q : Nat) (p : Proc) (shm : Shm) :
    (s.setProc q p shm).shm = shm := rfl

@[simp] theorem setProc_self (s : Node) (q : Nat) (p : Proc) (shm : Shm) :
    (s.setProc q p shm).procs q = p := Function.update_same _ _ _

theorem setProc_other (s : Node) {q q' : Nat} (p : Proc) (shm : Shm) (h : q' ≠ q) :
    (s.setProc q p shm).procs q' = s.procs q' := Function.update_noteq h _ _

@[simp] theorem setProc_setProc (s : Node) (q : Nat) (p p' : Proc) (shm shm' : Shm) :
    (s.setProc q p shm).setProc q p' shm' = s.setProc q p' shm' := by
  simp [setProc]

@[simp] theorem setProc_eq_self (s : Node) (q : Nat) : s.setProc q (s.procs q) s.shm = s := by
  simp [setProc]

/-- The byte sibling `q` reads at offset `o` of page `i`. -/
def readByte (s : Node) (q i o : Nat) : Option UInt8 :=
  ((s.procs q).mem i).content s.shm.frames |>.map fun c => c o

end Node

end SbllMalloc.SharedHeap
