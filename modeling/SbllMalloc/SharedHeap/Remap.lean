import SbllMalloc.SharedHeap.State

/-!
# The merge actions

`MergeManyPages` collects runs of consecutive pages and hands each run to one of three actions
(`FLUSH_OUTSTANDING_MERGES`):

* `CopyAndRemapRegion` publishes a run no other sibling holds: it maps the run's frames
  elsewhere, copies the pages into them, `mremap`s the mapping onto the run, sets this sibling's
  holder bits and makes the run read-only. The statistics do not change.
* `RemapRegion` joins a run whose frames other siblings hold with the same bytes: it maps the
  frames over the run with `MAP_FIXED`, and for each page counts a newly shared frame when it had
  one holder, counts one private page less, and sets the holder bit; then the run is made
  read-only.
* `RemapToZero` maps each page of a run of zero pages read-only onto frame `0`, counting it as a
  zero page, and sets the run's zero bits once every page is mapped.

Each `mmap` and `mremap` can fail. `MapEnv` says which succeed, by the page each call is issued
for. A failed `GetSharedRegion` makes the action return `-1` with nothing done; a failed
`mremap` hits `ASSERTX` and aborts with the semaphore held (`none`); a failed map inside the
loop of `RemapToZero` returns `-1` after the pages before it were remapped and counted.
`IsCloseToMmapLimit` is constantly `false` and is left out.
-/

namespace SbllMalloc.SharedHeap

/-- Which mapping calls of a merge succeed, by the page address each call is issued for. -/
structure MapEnv where
  /-- `GetSharedRegion(p, false, MMAP_BUFFER_SIZE)`: the scratch window of `MergeManyPages`. -/
  scratch : Nat → Bool
  /-- `GetSharedRegion(start, false, size)` in `CopyAndRemapRegion`. -/
  copyShared : Nat → Bool
  /-- The `mremap` onto `start` in `CopyAndRemapRegion`. -/
  copyMremap : Nat → Bool
  /-- `GetSharedRegion(start, true, size)` in `RemapRegion`. -/
  remapShared : Nat → Bool
  /-- The `MAP_FIXED` map of one page onto offset `0` in `RemapToZero`. -/
  zeroMap : Nat → Bool
  /-- `GetSharedPage(p, false)` in `MergePages`. -/
  sharedPage : Nat → Bool
  /-- The `mremap` onto `p` in `MergePages`. -/
  pageMremap : Nat → Bool

/-- Every mapping call succeeds. -/
def MapEnv.ok : MapEnv :=
  ⟨fun _ => true, fun _ => true, fun _ => true, fun _ => true, fun _ => true, fun _ => true,
    fun _ => true⟩

/-! ## `CopyAndRemapRegion` -/

/-- `CopyAndRemapRegion(start, size)` over `size` pages: the sibling, the file and the return
code. -/
def copyAndRemapRegion (env : MapEnv) (cfg : Config) (p : Proc) (shm : Shm) (start size : Nat) :
    Option (Proc × Shm × Int) :=
  if !env.copyShared start then some (p, shm, -1)
  else if !(List.range' start size).all fun j => ((p.mem j).content shm.frames).isSome then none
  else if !env.copyMremap start then none
  else
    let frames := fun f =>
      if InRange start size f then ((p.mem f).content shm.frames).getD (shm.frames f)
      else shm.frames f
    let mem := mapRange p.mem start size fun j => .file j true
    let info := (List.range' start size).foldl (setSharingBit cfg.numProc p.myRank)
      shm.sharingProcessesInfo
    some ({ p with mem := protectRange mem start size false },
      { shm with frames := frames, sharingProcessesInfo := info }, 0)

/-! ## `RemapRegion` -/

/-- One page of the loop of `RemapRegion`: a frame with one holder becomes shared, the page
stops being private, and this sibling's holder bit is set. -/
def remapPage (cfg : Config) (myRank : Nat) (shm : Shm) (j : Nat) : Shm :=
  let shm := if countSharingProcs shm.sharingProcessesInfo j = 1 then
      { shm with sharedPageCount := shm.sharedPageCount + 1,
                 allProcPrivatePageCount := shm.allProcPrivatePageCount - 1 }
    else shm
  { shm with allProcPrivatePageCount := shm.allProcPrivatePageCount - 1,
             sharingProcessesInfo := setSharingBit cfg.numProc myRank shm.sharingProcessesInfo j }

theorem remapPage_eq (cfg : Config) (myRank : Nat) (shm : Shm) (j : Nat) :
    remapPage cfg myRank shm j = { shm with
      sharedPageCount :=
        shm.sharedPageCount + (if pop (shm.sharingProcessesInfo j) = 1 then 1 else 0)
      allProcPrivatePageCount :=
        shm.allProcPrivatePageCount - (if pop (shm.sharingProcessesInfo j) = 1 then 1 else 0) - 1
      sharingProcessesInfo := setSharingBit cfg.numProc myRank shm.sharingProcessesInfo j } := by
  simp only [remapPage, countSharingProcs_eq]
  split_ifs <;> simp

/-- `RemapRegion(start, size)` over `size` pages. -/
def remapRegion (env : MapEnv) (cfg : Config) (p : Proc) (shm : Shm) (start size : Nat) :
    Proc × Shm × Int :=
  if !env.remapShared start then (p, shm, -1)
  else
    let mem := mapRange p.mem start size fun j => .file j true
    let shm := (List.range' start size).foldl (remapPage cfg p.myRank) shm
    ({ p with mem := protectRange mem start size false }, shm, 0)

/-! ## `RemapToZero` -/

/-- The loop of `RemapToZero` over the pages `js`; the flag is `false` once a map fails. -/
def remapToZeroLoop (env : MapEnv) : Proc → Shm → List Nat → Proc × Shm × Bool
  | p, shm, [] => (p, shm, true)
  | p, shm, j :: js =>
    if env.zeroMap j then
      remapToZeroLoop env
        { p with mem := Function.update p.mem j (.file 0 false),
                 zeroPageCount := p.zeroPageCount + 1 }
        { shm with allProcPrivatePageCount := shm.allProcPrivatePageCount - 1 } js
    else (p, shm, false)

/-- `RemapToZero(start, size)` over `size` pages; the zero bits are set after the loop
(`SetMultiBits` for more than one page, `SetBit` for one). -/
def remapToZero (env : MapEnv) (p : Proc) (shm : Shm) (start size : Nat) : Proc × Shm × Int :=
  let (p, shm, ok) := remapToZeroLoop env p shm (List.range' start size)
  if !ok then (p, shm, -1)
  else
    ({ p with zeroPagesBV := if 1 < size then setMultiBits p.zeroPagesBV start size
                             else Function.update p.zeroPagesBV start true }, shm, 0)

/-! ## Closed forms -/

theorem foldl_setSharingBit (w r : Nat) (start : Nat) :
    ∀ (size : Nat) (info : Nat → Nat) (i : Nat),
      (List.range' start size).foldl (setSharingBit w r) info i =
        if InRange start size i then (info i ||| currProcMask r) % 2 ^ w else info i
  | 0, info, i => by rw [if_neg (by unfold InRange; omega)]; rfl
  | size + 1, info, i => by
    rw [List.range'_concat, List.foldl_append, List.foldl_cons, List.foldl_nil, setSharingBit]
    rcases eq_or_ne i (start + 1 * size) with rfl | hi
    · rw [Function.update_same, foldl_setSharingBit w r start size, if_neg (by simp [InRange]),
        if_pos (by simp [InRange])]
    · rw [Function.update_noteq hi, foldl_setSharingBit w r start size]
      simp only [InRange]; split_ifs <;> first | rfl | omega

theorem remapToZeroLoop_eq (env : MapEnv) : ∀ (js : List Nat) (p : Proc) (shm : Shm),
    remapToZeroLoop env p shm js =
      ({ p with mem := fun i => if i ∈ js.takeWhile env.zeroMap then .file 0 false else p.mem i,
                zeroPageCount := p.zeroPageCount + (js.takeWhile env.zeroMap).length },
        { shm with allProcPrivatePageCount :=
            shm.allProcPrivatePageCount - (js.takeWhile env.zeroMap).length },
        js.all env.zeroMap)
  | [], p, shm => by simp [remapToZeroLoop]
  | j :: js, p, shm => by
    by_cases hj : env.zeroMap j
    · rw [remapToZeroLoop, if_pos hj, remapToZeroLoop_eq env js, List.takeWhile_cons_of_pos hj]
      simp only [List.mem_cons, List.length_cons, List.all_cons, hj, Bool.true_and, Nat.cast_add,
        Nat.cast_one, Prod.mk.injEq, and_true]
      refine ⟨?_, ?_⟩
      · congr 1
        · funext i
          by_cases h1 : i ∈ js.takeWhile env.zeroMap
          · simp [h1]
          · by_cases h2 : i = j
            · subst h2; simp [h1]
            · simp [h1, h2, Function.update_noteq h2]
        · ring
      · congr 1; ring
    · rw [remapToZeroLoop, if_neg hj, List.takeWhile_cons_of_neg hj]
      simp [hj]

/-! ## When every mapping call succeeds -/

section Ok

variable (cfg : Config) (p : Proc) (shm : Shm) {start size : Nat}

theorem copyAndRemapRegion_ok
    (h : ∀ j, InRange start size j → ((p.mem j).content shm.frames).isSome = true) :
    copyAndRemapRegion MapEnv.ok cfg p shm start size =
      some ({ p with mem := mapRange p.mem start size fun j => .file j false },
        { shm with
          frames := fun f => if InRange start size f then
              ((p.mem f).content shm.frames).getD (shm.frames f) else shm.frames f
          sharingProcessesInfo := fun k => if InRange start size k then
              (shm.sharingProcessesInfo k ||| currProcMask p.myRank) % 2 ^ cfg.numProc
            else shm.sharingProcessesInfo k }, 0) := by
  have hall : ((List.range' start size).all fun j => ((p.mem j).content shm.frames).isSome) = true :=
    List.all_eq_true.2 fun j hj => h j (by simpa [List.mem_range'_1, InRange] using hj)
  simp only [copyAndRemapRegion, MapEnv.ok, hall, Bool.not_true, Bool.false_eq_true, if_false,
    protectRange_mapRange, Mapping.protect_file,
    show (List.range' start size).foldl (setSharingBit cfg.numProc p.myRank) shm.sharingProcessesInfo
      = _ from funext (foldl_setSharingBit _ _ _ _ _), currProcMask]

theorem remapRegion_ok :
    remapRegion MapEnv.ok cfg p shm start size =
      ({ p with mem := mapRange p.mem start size fun j => .file j false },
        (List.range' start size).foldl (remapPage cfg p.myRank) shm, 0) := by
  simp only [remapRegion, MapEnv.ok, Bool.not_true, Bool.false_eq_true, if_false,
    protectRange_mapRange, Mapping.protect_file]

theorem remapToZero_ok (h : 0 < size) :
    remapToZero MapEnv.ok p shm start size =
      ({ p with mem := mapRange p.mem start size fun _ => .file 0 false,
                zeroPageCount := p.zeroPageCount + size,
                zeroPagesBV := fun j => p.zeroPagesBV j || decide (InRange start size j) },
        { shm with allProcPrivatePageCount := shm.allProcPrivatePageCount - size }, 0) := by
  have htake : (List.range' start size).takeWhile MapEnv.ok.zeroMap = List.range' start size :=
    List.takeWhile_eq_self_iff.2 fun _ _ => rfl
  have hmem : (fun i => if i ∈ List.range' start size then Mapping.file 0 false else p.mem i) =
      mapRange p.mem start size fun _ => .file 0 false := by
    funext i; simp [mapRange, InRange, List.mem_range'_1]
  have hzero : (if 1 < size then setMultiBits p.zeroPagesBV start size
      else Function.update p.zeroPagesBV start true) =
      fun j => p.zeroPagesBV j || decide (InRange start size j) := by
    split_ifs with h1
    · rw [setMultiBits_eq]; rfl
    · funext j
      obtain rfl : size = 1 := by omega
      by_cases hj : j = start
      · subst hj; simp [InRange]
      · simp [Function.update_noteq hj, InRange]; omega
  simp only [remapToZero, remapToZeroLoop_eq, htake, List.length_range', hmem, hzero]
  simp [MapEnv.ok]

end Ok

end SbllMalloc.SharedHeap
