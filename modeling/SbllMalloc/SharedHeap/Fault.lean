import SbllMalloc.SharedHeap.State

/-!
# The write-fault handler

`SigSegvHandler` with a write fault (`SEGV_ACCERR`) at page `i`, as built: `COLLECT_MALLOC_STAT`,
`SHARED_STATS` and `MREMAP_FIXED` are defined and `ASSERTX` aborts. The handler first marks the
page's region dirty, then sets the page's initialized bit and branches on its old value:

* a first write counts a private page and opens the page read-write;
* an initialized zero page clears its zero bit, counts a private page and gets a fresh
  read-write anonymous page of zeros;
* an initialized page this sibling holds clears its holder bit, updates the statistics from the
  number of holders left (`CountSharingProcs`), and gets a private read-write copy of the frame;
* any other initialized page is left as it is.

`ASSERTX(sh_cnt <= *aliveProcs)` aborts with the semaphore held: the handler returns `none`.
-/

namespace SbllMalloc.SharedHeap

/-- The dirty marking that opens the handler: under `THRESHOLD` and `ALLOC_FREQUENCY` the node
`AspaceAvlSearchRangeWrapper` finds gets `dirty = 1`. `BUFFERED` appends the page to
`bufferOfDirtyPages` instead, and `MERGE_DISABLED` does neither. -/
def markDirty (p : Proc) (i : Nat) : Nat → Bool :=
  if p.mergeMetric = .threshold ∨ p.mergeMetric = .allocFrequency then
    match searchRange p.allocRecord i with
    | some b => Function.update p.dirty b true
    | none => p.dirty
  else p.dirty

/-- The statistics of the shared branch, by the holder count `sh_cnt` left after this
sibling's bit is cleared. -/
def unshareCounters (shm : Shm) (shCnt : Nat) : Option Shm :=
  match shCnt with
  | 1 => some { shm with sharedPageCount := shm.sharedPageCount - 1,
                         allProcPrivatePageCount := shm.allProcPrivatePageCount + 2 }
  | 0 => some shm
  | _ + 2 =>
    if (shCnt : Int) ≤ shm.aliveProcs then
      some { shm with allProcPrivatePageCount := shm.allProcPrivatePageCount + 1 }
    else none

/-- Within the `ASSERTX` bound the statistics move by the holder count: a frame left with one
holder stops being shared and counts two private pages, one left with more counts one. -/
theorem unshareCounters_of_le (shm : Shm) {shCnt : Nat} (h : (shCnt : Int) ≤ shm.aliveProcs) :
    unshareCounters shm shCnt = some { shm with
      sharedPageCount := shm.sharedPageCount - (if shCnt = 1 then 1 else 0),
      allProcPrivatePageCount := shm.allProcPrivatePageCount +
        (if shCnt = 1 then 2 else if shCnt = 0 then 0 else 1) } := by
  match shCnt with
  | 0 => simp [unshareCounters]
  | 1 => simp [unshareCounters]
  | k + 2 => simp only [unshareCounters, if_pos h]; simp

/-- `SigSegvHandler` on a write fault at page `i`. -/
def sigSegvHandler (cfg : Config) (p : Proc) (shm : Shm) (i : Nat) : Option (Proc × Shm) :=
  let p := { p with dirty := markDirty p i }
  let (isInitializedPage, init) := setAndReturnBit p.initializedPagesBV i
  let p := { p with initializedPagesBV := init }
  if !isInitializedPage then
    some ({ p with mem := Function.update p.mem i ((p.mem i).protect true) },
      { shm with allProcPrivatePageCount := shm.allProcPrivatePageCount + 1,
                 baseCaseTotalPageCount := shm.baseCaseTotalPageCount + 1 })
  else
    let (isZeroPage, zero) := resetAndReturnBit p.zeroPagesBV i
    let isSharedPage := getSharingBit p.myRank shm.sharingProcessesInfo i
    let p := { p with zeroPagesBV := zero }
    if isZeroPage then
      some ({ p with zeroPageCount := p.zeroPageCount - 1,
                     mem := Function.update p.mem i (.anon blankPage true) },
        { shm with allProcPrivatePageCount := shm.allProcPrivatePageCount + 1 })
    else if isSharedPage then do
      let info := unsetSharingBit cfg.numProc p.myRank shm.sharingProcessesInfo i
      let shm ← unshareCounters { shm with sharingProcessesInfo := info }
        (countSharingProcs info i)
      let c ← (p.mem i).content shm.frames
      some ({ p with mem := Function.update p.mem i (.anon c true) }, shm)
    else some (p, shm)

/-! ## One lemma per branch -/

section Branches

variable (cfg : Config) (p : Proc) (shm : Shm) {i : Nat}

theorem sigSegvHandler_first (h : p.initializedPagesBV i = false) :
    sigSegvHandler cfg p shm i =
      some ({ p with dirty := markDirty p i,
                     initializedPagesBV := Function.update p.initializedPagesBV i true,
                     mem := Function.update p.mem i ((p.mem i).protect true) },
        { shm with allProcPrivatePageCount := shm.allProcPrivatePageCount + 1,
                   baseCaseTotalPageCount := shm.baseCaseTotalPageCount + 1 }) := by
  simp [sigSegvHandler, setAndReturnBit, h]

theorem sigSegvHandler_zero (h : p.initializedPagesBV i = true) (hz : p.zeroPagesBV i = true) :
    sigSegvHandler cfg p shm i =
      some ({ p with dirty := markDirty p i,
                     initializedPagesBV := Function.update p.initializedPagesBV i true,
                     zeroPagesBV := Function.update p.zeroPagesBV i false,
                     zeroPageCount := p.zeroPageCount - 1,
                     mem := Function.update p.mem i (.anon blankPage true) },
        { shm with allProcPrivatePageCount := shm.allProcPrivatePageCount + 1 }) := by
  simp [sigSegvHandler, setAndReturnBit, resetAndReturnBit, h, hz]

theorem sigSegvHandler_shared (h : p.initializedPagesBV i = true) (hz : p.zeroPagesBV i = false)
    (hs : (shm.sharingProcessesInfo i).testBit p.myRank = true) {shm' : Shm} {c : Page}
    (hu : unshareCounters
        { shm with sharingProcessesInfo :=
            unsetSharingBit cfg.numProc p.myRank shm.sharingProcessesInfo i }
        (pop (unsetSharingBit cfg.numProc p.myRank shm.sharingProcessesInfo i i)) = some shm')
    (hc : (p.mem i).content shm'.frames = some c) :
    sigSegvHandler cfg p shm i =
      some ({ p with dirty := markDirty p i,
                     initializedPagesBV := Function.update p.initializedPagesBV i true,
                     zeroPagesBV := Function.update p.zeroPagesBV i false,
                     mem := Function.update p.mem i (.anon c true) }, shm') := by
  simp [sigSegvHandler, setAndReturnBit, resetAndReturnBit, h, hz, getSharingBit_eq, hs,
    countSharingProcs_eq, Function.update_eq_self, hu, hc]

theorem sigSegvHandler_other (h : p.initializedPagesBV i = true) (hz : p.zeroPagesBV i = false)
    (hs : (shm.sharingProcessesInfo i).testBit p.myRank = false) :
    sigSegvHandler cfg p shm i =
      some ({ p with dirty := markDirty p i }, shm) := by
  simp [sigSegvHandler, setAndReturnBit, resetAndReturnBit, h, hz, getSharingBit_eq, hs,
    Function.update_eq_self]

/-- The statistics of the shared branch change no frame. -/
theorem unshareCounters_frames {shm shm' : Shm} {shCnt : Nat}
    (h : unshareCounters shm shCnt = some shm') : shm'.frames = shm.frames := by
  unfold unshareCounters at h
  split at h
  · cases h; rfl
  · cases h; rfl
  · split_ifs at h; cases h; rfl

variable {cfg p shm} in
/-- The handler changes the mapping of page `i` only, no region and no frame. -/
theorem sigSegvHandler_frame {p' : Proc} {shm' : Shm}
    (h : sigSegvHandler cfg p shm i = some (p', shm')) :
    (∀ j, j ≠ i → p'.mem j = p.mem j) ∧ p'.allocRecord = p.allocRecord ∧
      shm'.frames = shm.frames := by
  simp only [sigSegvHandler, setAndReturnBit, resetAndReturnBit] at h
  split_ifs at h
  · obtain ⟨rfl, rfl⟩ := Prod.mk.inj (Option.some.inj h)
    exact ⟨fun j hj => Function.update_noteq hj _ _, rfl, rfl⟩
  · obtain ⟨rfl, rfl⟩ := Prod.mk.inj (Option.some.inj h)
    exact ⟨fun j hj => Function.update_noteq hj _ _, rfl, rfl⟩
  · simp only [Option.bind_eq_bind, Option.bind_eq_some, Option.some.injEq] at h
    obtain ⟨shm₁, hu, c, -, h⟩ := h
    obtain ⟨rfl, rfl⟩ := Prod.mk.inj h
    exact ⟨fun j hj => Function.update_noteq hj _ _, rfl, by rw [unshareCounters_frames hu]⟩
  · obtain ⟨rfl, rfl⟩ := Prod.mk.inj (Option.some.inj h)
    exact ⟨fun _ _ => rfl, rfl, rfl⟩

end Branches

end SbllMalloc.SharedHeap
