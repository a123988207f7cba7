import SbllMalloc.SharedHeap.State

/-!
# Allocation, release and stores

`ShmMallocWrapper(sz)` rounds the request up to whole pages (in 64-bit `size_t` arithmetic),
maps that many read-only anonymous pages wherever the kernel places them, and records the
region in the allocation index. It changes no statistics: pages are counted when first
written. A request that rounds to zero pages makes `mmap` fail, and the wrapper returns `NULL`.
The kernel's choice of address is a parameter.

`ShmFreeWrapper(ptr)` removes the region from the index, unmaps it, and then, under the
semaphore, clears the page bits and updates the statistics page by page: by the page's holder
count for a held page, and only the initialized bit and two counters under `MERGE_DISABLED`.
A pointer that is not a region base returns `-1`.

A store by the program writes one byte of a writable page; a store to a read-only page faults
first, which `SigSegvHandler` handles.
-/

namespace SbllMalloc.SharedHeap

/-- The page count of a `ShmMallocWrapper(sz)` request:
`((sz + PAGE_SIZE - 1) / PAGE_SIZE) * PAGE_SIZE` bytes. -/
def mallocPages (cfg : Config) (sz : Nat) : Nat := (sz + cfg.pageSize - 1) % 2 ^ 64 / cfg.pageSize

/-- `ShmMallocWrapper(sz)` with the kernel placing the mapping at page `base`: the sibling and
the returned pointer (`none` for `NULL`). -/
def shmMallocWrapper (cfg : Config) (p : Proc) (sz base : Nat) : Proc × Option Nat :=
  let size := mallocPages cfg sz
  if size = 0 then (p, none)
  else
    ({ p with mem := mapRange p.mem base size fun _ => .anon blankPage false,
              allocRecord := insertRecord p.allocRecord base size,
              dirty := if (p.allocRecord base).isSome then p.dirty
                       else Function.update p.dirty base false }, some base)

section Malloc

variable {cfg : Config} {p : Proc} {sz base : Nat}

variable (h : mallocPages cfg sz ≠ 0)
include h

theorem shmMallocWrapper_mem : (shmMallocWrapper cfg p sz base).1.mem =
    mapRange p.mem base (mallocPages cfg sz) fun _ => .anon blankPage false := by
  simp only [shmMallocWrapper, if_neg h]

end Malloc

/-- The statistics of a held page by the holder count of its frame: the last holder's page was
counted private, and a frame left with one holder stops being shared. -/
def releaseCounters (shm : Shm) (shCnt : Nat) : Shm :=
  match shCnt with
  | 1 => { shm with allProcPrivatePageCount := shm.allProcPrivatePageCount - 1 }
  | 2 => { shm with sharedPageCount := shm.sharedPageCount - 1,
                    allProcPrivatePageCount := shm.allProcPrivatePageCount + 1 }
  | _ => shm

theorem releaseCounters_eq (shm : Shm) (shCnt : Nat) :
    releaseCounters shm shCnt = { shm with
      sharedPageCount := shm.sharedPageCount - (if shCnt = 2 then 1 else 0)
      allProcPrivatePageCount := shm.allProcPrivatePageCount +
        ((if shCnt = 2 then 1 else 0) - (if shCnt = 1 then 1 else 0)) } := by
  rcases shCnt with _ | _ | _ | k <;> simp [releaseCounters, sub_eq_add_neg]

/-- One page of the release loop of `ShmFreeWrapper` when merging is enabled. -/
def freePage (cfg : Config) (st : Proc × Shm) (j : Nat) : Proc × Shm :=
  let (p, shm) := st
  let (isInitializedPage, init) := resetAndReturnBit p.initializedPagesBV j
  let p := { p with initializedPagesBV := init }
  if !isInitializedPage then (p, shm)
  else
    let (isZeroPage, zero) := resetAndReturnBit p.zeroPagesBV j
    let isSharedPage := getSharingBit p.myRank shm.sharingProcessesInfo j
    let p := { p with zeroPagesBV := zero }
    let shm := { shm with baseCaseTotalPageCount := shm.baseCaseTotalPageCount - 1 }
    if isZeroPage then ({ p with zeroPageCount := p.zeroPageCount - 1 }, shm)
    else if isSharedPage then
      let shm := releaseCounters shm (countSharingProcs shm.sharingProcessesInfo j)
      (p, { shm with sharingProcessesInfo :=
              unsetSharingBit cfg.numProc p.myRank shm.sharingProcessesInfo j })
    else (p, { shm with allProcPrivatePageCount := shm.allProcPrivatePageCount - 1 })

/-- One page of the release loop of `ShmFreeWrapper` under `MERGE_DISABLED`. -/
def freePageDisabled (st : Proc × Shm) (j : Nat) : Proc × Shm :=
  let (p, shm) := st
  let (isInitializedPage, init) := resetAndReturnBit p.initializedPagesBV j
  let p := { p with initializedPagesBV := init }
  if isInitializedPage then
    (p, { shm with baseCaseTotalPageCount := shm.baseCaseTotalPageCount - 1,
                   allProcPrivatePageCount := shm.allProcPrivatePageCount - 1 })
  else (p, shm)

/-- `ShmFreeWrapper(ptr)`: the sibling, the file and the return code. -/
def shmFreeWrapper (cfg : Config) (p : Proc) (shm : Shm) (ptr : Nat) : Proc × Shm × Int :=
  let size := (p.allocRecord ptr).getD 0
  let p := { p with allocRecord := Function.update p.allocRecord ptr none }
  if size = 0 then (p, shm, -1)
  else
    let p := { p with mem := mapRange p.mem ptr size fun _ => .unmapped }
    let (p, shm) :=
      if p.mergeMetric ≠ .mergeDisabled then (List.range' ptr size).foldl (freePage cfg) (p, shm)
      else (List.range' ptr size).foldl freePageDisabled (p, shm)
    (p, shm, 1)

/-- A store of byte `v` at offset `o` of page `i`; `none` when the page is not writable, where
the store faults instead. -/
def storeByte (p : Proc) (shm : Shm) (i o : Nat) (v : UInt8) : Option (Proc × Shm) :=
  match p.mem i with
  | .anon c true =>
    some ({ p with mem := Function.update p.mem i (.anon (Function.update c o v) true) }, shm)
  | .file f true =>
    some (p, { shm with frames := Function.update shm.frames f (Function.update (shm.frames f) o v) })
  | _ => none

end SbllMalloc.SharedHeap
