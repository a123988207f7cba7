import SbllMalloc.SharedHeap.Remap

/-!
# The merge passes

`MergeManyPages(start_addr, size)` walks a region page by page under the semaphore. It keeps an
open run of consecutive pages (`mergeable_start_addr` and one of the flags `last_page_zero`,
`last_page_moveable`, `last_page_shareable`) and a 4 MiB scratch window on the backing file,
remapped at every 4 MiB of the walk, through which it reads the frame of the page at hand
(`curr_page_ptr`). A page that is uninitialized, a zero page or held by this sibling closes the
run. Otherwise the page is compared with the zero page; if it differs, `IsOtherSharing` decides
between a moveable run (no other holder) and a comparison with its frame through the window (a
shareable run when equal). Closing a run (`FLUSH_OUTSTANDING_MERGES`) hands it to
`RemapToZero`, `CopyAndRemapRegion` or `RemapRegion`.

The run is a sum type: exactly one flag is set while a run is open, so the `ASSERTX` checks on
the flags hold by construction. A failed scratch map is `MAP_FAILED`, and reading a page through
it faults with the semaphore held (`none`).

`MergeNode2` runs `MergeManyPages` on a dirty region of the allocation index and clears the
flag; `TraverseAVL` calls it on every region in key order, each call its own critical section.
`MergePages` is the page-at-a-time merge of the `BUFFERED` policy.
-/

namespace SbllMalloc.SharedHeap

/-- The open run of `MergeManyPages`, by its first page. -/
inductive Run where
  | none
  | zero (start : Nat)
  | moveable (start : Nat)
  | shareable (start : Nat)
  deriving DecidableEq, Repr

/-- The locals of `MergeManyPages` that live across iterations. `mmapBuffer` is the first frame
the scratch window maps, `none` for `MAP_FAILED` (or before the first map); `index` is the byte
offset of the next page in the window. -/
structure MergeLoop where
  proc : Proc
  shm : Shm
  run : Run
  index : Nat
  mmapBuffer : Option Nat
  counterPagesMerged : Nat

/-- `FLUSH_OUTSTANDING_MERGES(mergeable_start_addr, stop, ...)`: the open run covers the pages
from its start up to `stop`. Zero and shareable runs count as merged pages whatever the action
returns. -/
def flush (env : MapEnv) (cfg : Config) (L : MergeLoop) (stop : Nat) : Option MergeLoop :=
  match L.run with
  | .none => some L
  | .zero a =>
    let (p, shm, _) := remapToZero env L.proc L.shm a (stop - a)
    some { L with proc := p, shm := shm, run := .none,
                  counterPagesMerged := L.counterPagesMerged + (stop - a) }
  | .moveable a => do
    let (p, shm, _) ← copyAndRemapRegion env cfg L.proc L.shm a (stop - a)
    some { L with proc := p, shm := shm, run := .none }
  | .shareable a =>
    let (p, shm, _) := remapRegion env cfg L.proc L.shm a (stop - a)
    some { L with proc := p, shm := shm, run := .none,
                  counterPagesMerged := L.counterPagesMerged + (stop - a) }

/-- The frame `curr_page_ptr` reads: the page at byte `index` of the scratch window, which must
lie inside the window's 4 MiB. -/
def currPage (cfg : Config) (L : MergeLoop) : Option Nat :=
  if L.index + cfg.pageSize ≤ mmapBufferSize then L.mmapBuffer.map (· + L.index / cfg.pageSize)
  else none

/-- The scratch window at page `p`: remapped when `index` is `0` or `MMAP_BUFFER_SIZE`. -/
def keepWindow (env : MapEnv) (L : MergeLoop) (p : Nat) : MergeLoop :=
  if L.index = 0 ∨ L.index = mmapBufferSize then
    { L with index := 0, mmapBuffer := if env.scratch p then some p else none }
  else L

/-- The classification of page `p` once it is initialized, not zero and not held: a zero page
extends or opens a zero run, a page no other sibling holds a moveable run, and a page whose
frame holds the same bytes a shareable run. -/
def classify (env : MapEnv) (cfg : Config) (curr : Option Nat) (L : MergeLoop) (p : Nat) :
    Option MergeLoop := do
  let c ← (L.proc.mem p).content L.shm.frames
  if comparePages cfg.pageSize c (L.shm.frames 0) then
    match L.run with
    | .zero _ => some L
    | .none => some { L with run := .zero p }
    | _ => do let L ← flush env cfg L p; some { L with run := .zero p }
  else if !isOtherSharing L.proc.myRank L.shm.sharingProcessesInfo p then
    match L.run with
    | .moveable _ => some L
    | .none => some { L with run := .moveable p }
    | _ => do let L ← flush env cfg L p; some { L with run := .moveable p }
  else do
    let L ← match L.run with
      | .shareable _ => some L
      | _ => flush env cfg L p
    let f ← curr
    let c ← (L.proc.mem p).content L.shm.frames
    if comparePages cfg.pageSize (L.shm.frames f) c then
      some (match L.run with
        | .none => { L with run := .shareable p }
        | _ => L)
    else flush env cfg L p

/-- One iteration of the loop of `MergeManyPages`, for page `p`. -/
def mergeIter (env : MapEnv) (cfg : Config) (L : MergeLoop) (p : Nat) : Option MergeLoop :=
  let L := keepWindow env L p
  let curr := currPage cfg L
  let L := { L with index := L.index + cfg.pageSize }
  if !L.proc.initializedPagesBV p then flush env cfg L p
  else if L.proc.zeroPagesBV p then flush env cfg L p
  else if getSharingBit L.proc.myRank L.shm.sharingProcessesInfo p then flush env cfg L p
  else classify env cfg curr L p

/-- `MergeManyPages(start_addr, size)` over `size` pages: the sibling, the file and
`counter_pages_merged`. -/
def mergeManyPages (env : MapEnv) (cfg : Config) (p : Proc) (shm : Shm) (startAddr size : Nat) :
    Option (Proc × Shm × Nat) := do
  let L ← (List.range' startAddr size).foldlM (mergeIter env cfg) ⟨p, shm, .none, 0, none, 0⟩
  let L ← flush env cfg L (startAddr + size)
  some (L.proc, L.shm, L.counterPagesMerged)

/-- `MergeNode2` on the region with base `key`: a dirty region is merged and marked clean. -/
def mergeNode2 (env : MapEnv) (cfg : Config) (p : Proc) (shm : Shm) (key : Nat) :
    Option (Proc × Shm) :=
  match p.allocRecord key with
  | none => some (p, shm)
  | some size =>
    if p.dirty key then do
      let (p, shm, _) ← mergeManyPages env cfg p shm key size
      some ({ p with dirty := Function.update p.dirty key false }, shm)
    else some (p, shm)

theorem mergeNode2_dirty (env : MapEnv) (cfg : Config) {p : Proc} (shm : Shm) {key size : Nat}
    (ha : p.allocRecord key = some size) (hd : p.dirty key = true) :
    mergeNode2 env cfg p shm key = (mergeManyPages env cfg p shm key size).bind fun r =>
      some ({ r.1 with dirty := Function.update r.1.dirty key false }, r.2.1) := by
  simp only [mergeNode2, ha, hd, if_true]
  rfl

/-- `MergePages(p)`: a page no other sibling holds moves to its frame (the unchecked
`GetSharedPage` then faults on a failed map); a page equal to its frame joins it. -/
def mergePages (env : MapEnv) (cfg : Config) (p : Proc) (shm : Shm) (i : Nat) :
    Option (Proc × Shm × Int) := do
  let info := shm.sharingProcessesInfo
  if getSharingBit p.myRank info i then some (p, shm, 0)
  else if !isOtherSharing p.myRank info i then
    if !env.sharedPage i then none
    else
      let c ← (p.mem i).content shm.frames
      if !env.pageMremap i then none
      else
        some ({ p with mem := Function.update p.mem i (.file i false) },
          { shm with frames := Function.update shm.frames i c,
                     sharingProcessesInfo := setSharingBit cfg.numProc p.myRank info i }, 0)
  else if !env.sharedPage i then none
  else
    let c ← (p.mem i).content shm.frames
    if comparePages cfg.pageSize (shm.frames i) c then
      let shm := if countSharingProcs info i = 1 then
          { shm with sharedPageCount := shm.sharedPageCount + 1,
                     allProcPrivatePageCount := shm.allProcPrivatePageCount - 1 }
        else shm
      if !env.pageMremap i then none
      else
        some ({ p with mem := Function.update p.mem i (.file i false) },
          { shm with allProcPrivatePageCount := shm.allProcPrivatePageCount - 1,
                     sharingProcessesInfo := setSharingBit cfg.numProc p.myRank info i }, 1)
    else some (p, shm, 0)

/-! ## `classify`, one lemma per kind of page

A run of another kind is flushed first; flushing no run changes nothing, so opening a run after
no run is the same as opening it after a flush. -/

section Classify

variable (env : MapEnv) (cfg : Config) (curr : Option Nat) (L : MergeLoop) {p : Nat} {c : Page}

theorem classify_zero (hc : (L.proc.mem p).content L.shm.frames = some c)
    (hz : comparePages cfg.pageSize c (L.shm.frames 0) = true) :
    classify env cfg curr L p = match L.run with
      | .zero _ => some L
      | _ => (flush env cfg L p).bind fun L' => some { L' with run := .zero p } := by
  rw [classify, hc, Option.bind_eq_bind, Option.some_bind, if_pos hz]
  rcases L with ⟨_, _, _ | _ | _ | _, _, _, _⟩ <;> rfl

theorem classify_moveable (hc : (L.proc.mem p).content L.shm.frames = some c)
    (hz : comparePages cfg.pageSize c (L.shm.frames 0) = false)
    (ho : isOtherSharing L.proc.myRank L.shm.sharingProcessesInfo p = false) :
    classify env cfg curr L p = match L.run with
      | .moveable _ => some L
      | _ => (flush env cfg L p).bind fun L' => some { L' with run := .moveable p } := by
  rw [classify, hc, Option.bind_eq_bind, Option.some_bind, if_neg (by simp [hz]),
    if_pos (by simp [ho])]
  rcases L with ⟨_, _, _ | _ | _ | _, _, _, _⟩ <;> rfl

theorem classify_shareable (hc : (L.proc.mem p).content L.shm.frames = some c)
    (hz : comparePages cfg.pageSize c (L.shm.frames 0) = false)
    (ho : isOtherSharing L.proc.myRank L.shm.sharingProcessesInfo p = true) :
    classify env cfg curr L p =
      (match L.run with
        | .shareable _ => some L
        | _ => flush env cfg L p).bind fun L' =>
      curr.bind fun f => ((L'.proc.mem p).content L'.shm.frames).bind fun c' =>
        if comparePages cfg.pageSize (L'.shm.frames f) c' then
          some (match L'.run with
            | .none => { L' with run := .shareable p }
            | _ => L')
        else flush env cfg L' p := by
  rw [classify, hc, Option.bind_eq_bind, Option.some_bind, if_neg (by simp [hz]),
    if_neg (by simp [ho])]
  rcases L with ⟨_, _, _ | _ | _ | _, _, _, _⟩ <;> rfl

end Classify

/-! ## `MergePages` when every mapping call succeeds, one lemma per branch -/

section MergePagesOk

variable (cfg : Config) (p : Proc) (shm : Shm) {i : Nat}

theorem mergePages_held (hh : (shm.sharingProcessesInfo i).testBit p.myRank = true) :
    mergePages MapEnv.ok cfg p shm i = some (p, shm, 0) := by
  simp [mergePages, getSharingBit_eq, hh]

theorem mergePages_publish (hh : (shm.sharingProcessesInfo i).testBit p.myRank = false)
    (ho : isOtherSharing p.myRank shm.sharingProcessesInfo i = false) {c : Page}
    (hc : (p.mem i).content shm.frames = some c) :
    mergePages MapEnv.ok cfg p shm i =
      some ({ p with mem := Function.update p.mem i (.file i false) },
        { shm with frames := Function.update shm.frames i c,
                   sharingProcessesInfo := setSharingBit cfg.numProc p.myRank shm.sharingProcessesInfo i },
        0) := by
  simp [mergePages, getSharingBit_eq, hh, ho, hc, MapEnv.ok]

theorem mergePages_join (hh : (shm.sharingProcessesInfo i).testBit p.myRank = false)
    (ho : isOtherSharing p.myRank shm.sharingProcessesInfo i = true) {c : Page}
    (hc : (p.mem i).content shm.frames = some c)
    (heq : comparePages cfg.pageSize (shm.frames i) c = true) :
    mergePages MapEnv.ok cfg p shm i =
      some ({ p with mem := Function.update p.mem i (.file i false) },
        remapPage cfg p.myRank shm i, 1) := by
  simp only [mergePages, getSharingBit_eq, hh, ho, hc, heq, MapEnv.ok, remapPage, Bool.not_true,
    Bool.not_false, Bool.false_eq_true, if_false, if_true, Option.bind_eq_bind, Option.some_bind]
  split_ifs <;> rfl

theorem mergePages_differ (hh : (shm.sharingProcessesInfo i).testBit p.myRank = false)
    (ho : isOtherSharing p.myRank shm.sharingProcessesInfo i = true) {c : Page}
    (hc : (p.mem i).content shm.frames = some c)
    (heq : comparePages cfg.pageSize (shm.frames i) c = false) :
    mergePages MapEnv.ok cfg p shm i = some (p, shm, 0) := by
  simp [mergePages, getSharingBit_eq, hh, ho, hc, heq, MapEnv.ok]

end MergePagesOk

end SbllMalloc.SharedHeap
