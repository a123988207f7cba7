import SbllMalloc.SharedHeap.Step

/-!
# The merge controllers

`mergeMetric` decides when a sibling merges. Each policy keeps statics of its own process:

* `ALLOC_FREQUENCY`: `ShmMallocWrapper` calls `MergeByALLOC_FREQUENCY` before its `mmap`; every
  `mallocRefFreq`-th call (`!(++mallocRefCounter % mallocRefFreq)`) runs
  `TraverseAVL(allocRecord, MergeNode2)` and resets `mallocRefCounter`.
* `THRESHOLD`: `SigSegvHandler` calls `MergeByTHRESHOLD` after its critical section; its
  `static int countDownTimer = 100` lets every hundredth call through, which compares
  `*allProcPrivatePageCount + *sharedPageCount` with `mergeMinMemTh` and, when reached, makes
  that sum the new threshold and runs the traversal. With `COLLECT_MALLOC_STAT` the wrappers do
  not call it.
* `BUFFERED`: `SigSegvHandler` appends the faulting page to `bufferOfDirtyPages` before its
  critical section; when the buffer is full it first runs `MergeByBUFFERED`, which calls
  `MergePages` on every buffered page that is still initialized and empties the buffer.

A pass is not atomic: every `MergeNode2` and `MergePages` call takes the semaphore on its own,
so other siblings run between them. `Sched` is the node with each sibling's statics and the
part of its library call still to run (`Work`); `schedStep` runs one event, which is a program
call, a write fault, or the next step of a sibling's pending call, and reports the node actions
of `Step` it took. `InitEnv` and `CheckEnv` give the knobs.
-/

namespace SbllMalloc.SharedHeap

/-! ## Knobs -/

/-- What `getenv` and `atoi` give for the variables of `InitEnv` the controllers read:
`MERGE_METRIC`, `MIN_MEM_TH` (in MB) and `MALLOC_MERGE_FREQ`; `none` when unset. -/
structure EnvVars where
  mergeMetric : Option Int
  minMemTh : Option Int
  mallocMergeFreq : Option Int

/-- The knobs once `CheckEnv` has accepted them. -/
structure Knobs where
  mallocRefFreq : Nat
  minMemTh : Nat
  mallocRefFreq_pos : 0 < mallocRefFreq
  minMemTh_pos : 0 < minMemTh
  minMemTh_lt : minMemTh < 100000

/-- `InitEnv` (defaults `1`, `10` and `1000`) then the `ASSERTX` checks of `CheckEnv`: the raw
`mergeMetric` and the knobs, or `none` where an `ASSERTX` aborts. -/
def initEnv (e : EnvVars) : Option (Int × Knobs) :=
  let metric := e.mergeMetric.getD 1
  let th := e.minMemTh.getD 10
  let freq := e.mallocMergeFreq.getD 1000
  if h : metric < 4 ∧ 0 < th ∧ th < 100000 ∧ 0 < freq then
    some (metric, ⟨freq.toNat, th.toNat, by omega, by omega, by omega⟩)
  else none

/-- The defaults of `InitEnv`: `MALLOC_MERGE_FREQ = 1000` and `MIN_MEM_TH = 10`. -/
def Knobs.default : Knobs := ⟨1000, 10, by decide, by decide, by decide⟩

/-- With no variable set, `InitEnv` picks `ALLOC_FREQUENCY` and the defaults, which `CheckEnv`
accepts. -/
theorem initEnv_unset : initEnv ⟨none, none, none⟩ = some (1, Knobs.default) := rfl

/-- `mergeMinMemTh *= (1000000/PAGE_SIZE)`: the threshold in pages. -/
def Knobs.minMemPages (k : Knobs) (cfg : Config) : Int := k.minMemTh * (1000000 / cfg.pageSize)

/-! ## The statics of one sibling -/

/-- `BUFFER_LENGTH`. -/
def bufferLength : Nat := 10000

/-- The controller statics of one process. `bufferOfDirtyPages` holds page indices: the handler
stores the page-aligned fault address and `ptr2offset` is the identity. -/
structure Ctl where
  mallocRefCounter : Nat
  countDownTimer : Int
  mergeMinMemTh : Int
  bufferOfDirtyPages : Nat → Nat
  bufferPtr : Nat

/-- The statics once `CheckEnv` has scaled the threshold. -/
def Ctl.init (cfg : Config) (k : Knobs) : Ctl := ⟨0, 100, k.minMemPages cfg, fun _ => 0, 0⟩

/-- `!(++mallocRefCounter % mallocRefFreq)`: the counter after the call and whether a pass runs. -/
def Ctl.tickMalloc (k : Knobs) (c : Ctl) : Ctl × Bool :=
  ({ c with mallocRefCounter := c.mallocRefCounter + 1 },
    (c.mallocRefCounter + 1) % k.mallocRefFreq == 0)

/-- `MergeByTHRESHOLD` up to its traversal: the countdown, then the test of the node's pages
against `mergeMinMemTh`, which a pass raises to them. -/
def Ctl.tickThreshold (c : Ctl) (shm : Shm) : Ctl × Bool :=
  if c.countDownTimer - 1 = 0 then
    let total := shm.allProcPrivatePageCount + shm.sharedPageCount
    if c.mergeMinMemTh ≤ total then
      ({ c with countDownTimer := 100, mergeMinMemTh := total }, true)
    else ({ c with countDownTimer := 100 }, false)
  else ({ c with countDownTimer := c.countDownTimer - 1 }, false)

/-- `bufferOfDirtyPages[bufferPtr++] = ptr2offset(faultaddr)`; a write past the array is
undefined (`none`). -/
def Ctl.push (c : Ctl) (i : Nat) : Option Ctl :=
  if c.bufferPtr < bufferLength then
    some { c with bufferOfDirtyPages := Function.update c.bufferOfDirtyPages c.bufferPtr i,
                  bufferPtr := c.bufferPtr + 1 }
  else none

/-- The buffered pages `MergeByBUFFERED` visits, entries `0 .. BUFFER_LENGTH - 1`. -/
def Ctl.buffered (c : Ctl) : List Nat := (List.range bufferLength).map c.bufferOfDirtyPages

/-- `TranslateMmapAddr` of a page address: the pages `1 .. heapPages - 1` of the window
(`Aligned.addr2PageIndex_page`); any other address reaches `Fatal`. -/
def inWindow (cfg : Config) (t : Nat) : Bool := 0 < t && t < cfg.heapPages

/-- The region bases of the allocation index in key order, as `TraverseAVL` visits them. -/
def regionKeys (cfg : Config) (p : Proc) : List Nat :=
  (List.range cfg.heapPages).filter fun b => (p.allocRecord b).isSome

/-! ## The node under the controllers -/

/-- What is left of a sibling's library call. -/
inductive Work where
  | idle
  /-- `SigSegvHandler` after its critical section, `MergeByTHRESHOLD` next. -/
  | thresholdTest
  /-- The traversal of `MergeByTHRESHOLD`, with the region bases `keys` left. -/
  | threshold (keys : List Nat)
  /-- The traversal of `MergeByALLOC_FREQUENCY` in `ShmMallocWrapper(sz)`, the `mmap` next. -/
  | allocFrequency (keys : List Nat) (sz : Nat)
  /-- `MergeByBUFFERED` in `SigSegvHandler` at page `i`, with the buffered `pages` left. -/
  | buffered (pages : List Nat) (i : Nat)
  deriving DecidableEq, Repr

/-- The node, and the statics and pending work of every sibling. -/
structure Sched where
  node : Node
  ctl : Nat → Ctl
  work : Nat → Work

/-- One event of a sibling: a program call (`ShmMallocWrapper`, `ShmFreeWrapper`, a store), a
write fault, or the next step of its pending call. `base` is where the kernel places a region
whose `mmap` runs in the event. -/
inductive Event where
  | malloc (q sz base : Nat)
  | free (q ptr : Nat)
  | fault (q i : Nat)
  | store (q i o : Nat) (v : UInt8)
  | resume (q base : Nat)

/-- The node once `n` siblings have joined and run `InitEnv`. -/
def Sched.init (cfg : Config) (k : Knobs) (n : Nat) (rank : Nat → Nat)
    (metric : Nat → MergeMetric) : Sched :=
  ⟨Node.init n rank metric, fun _ => Ctl.init cfg k, fun _ => .idle⟩

namespace Sched

/-- Sibling `q` with statics `c` and work `w`, on node `s`. -/
def set (ss : Sched) (q : Nat) (s : Node) (c : Ctl) (w : Work) : Sched :=
  ⟨s, Function.update ss.ctl q c, Function.update ss.work q w⟩

/-- Sibling `q` moves to statics `c` and work `w` without a node action. -/
def hold (ss : Sched) (q : Nat) (c : Ctl) (w : Work) : Option (Sched × List Action) :=
  some (ss.set q ss.node c w, [])

/-- Sibling `q` runs node action `a`, then moves to statics `c` and work `w`. -/
def act (env : MapEnv) (cfg : Config) (ss : Sched) (q : Nat) (a : Action) (c : Ctl) (w : Work) :
    Option (Sched × List Action) :=
  (step env cfg ss.node a).map fun s => (ss.set q s c w, [a])

@[simp] theorem set_node (ss : Sched) (q : Nat) (s : Node) (c : Ctl) (w : Work) :
    (ss.set q s c w).node = s := rfl

@[simp] theorem set_ctl_self (ss : Sched) (q : Nat) (s : Node) (c : Ctl) (w : Work) :
    (ss.set q s c w).ctl q = c := Function.update_same _ _ _

@[simp] theorem set_work_self (ss : Sched) (q : Nat) (s : Node) (c : Ctl) (w : Work) :
    (ss.set q s c w).work q = w := Function.update_same _ _ _

theorem set_ctl_other (ss : Sched) {q q' : Nat} (s : Node) (c : Ctl) (w : Work) (h : q' ≠ q) :
    (ss.set q s c w).ctl q' = ss.ctl q' := Function.update_noteq h _ _

theorem set_work_other (ss : Sched) {q q' : Nat} (s : Node) (c : Ctl) (w : Work) (h : q' ≠ q) :
    (ss.set q s c w).work q' = ss.work q' := Function.update_noteq h _ _

end Sched

/-- One event under the controllers: the node afterwards and the node actions taken. -/
def schedStep (env : MapEnv) (cfg : Config) (k : Knobs) (ss : Sched) :
    Event → Option (Sched × List Action)
  | .malloc q sz base =>
    let p := ss.node.procs q
    if p.mergeMetric = .allocFrequency then
      let (c, due) := (ss.ctl q).tickMalloc k
      if due then ss.hold q c (.allocFrequency (regionKeys cfg p) sz)
      else ss.act env cfg q (.malloc q sz base) c .idle
    else ss.act env cfg q (.malloc q sz base) (ss.ctl q) .idle
  | .free q ptr => ss.act env cfg q (.free q ptr) (ss.ctl q) .idle
  | .fault q i =>
    let c := ss.ctl q
    match (ss.node.procs q).mergeMetric with
    | .buffered =>
      if c.bufferPtr = bufferLength then ss.hold q c (.buffered c.buffered i)
      else (c.push i).bind fun c => ss.act env cfg q (.fault q i) c .idle
    | .threshold => ss.act env cfg q (.fault q i) c .thresholdTest
    | _ => ss.act env cfg q (.fault q i) c .idle
  | .store q i o v => ss.act env cfg q (.store q i o v) (ss.ctl q) .idle
  | .resume q base =>
    let c := ss.ctl q
    match ss.work q with
    | .idle => none
    | .thresholdTest =>
      let (c, due) := c.tickThreshold ss.node.shm
      ss.hold q c (if due then .threshold (regionKeys cfg (ss.node.procs q)) else .idle)
    | .threshold [] => ss.hold q c .idle
    | .threshold (key :: keys) => ss.act env cfg q (.mergeNode q key) c (.threshold keys)
    | .allocFrequency [] sz =>
      ss.act env cfg q (.malloc q sz base) { c with mallocRefCounter := 0 } .idle
    | .allocFrequency (key :: keys) sz =>
      ss.act env cfg q (.mergeNode q key) c (.allocFrequency keys sz)
    | .buffered [] i =>
      ({ c with bufferPtr := 0 }.push i).bind fun c => ss.act env cfg q (.fault q i) c .idle
    | .buffered (t :: pages) i =>
      if inWindow cfg t then
        if (ss.node.procs q).initializedPagesBV t then
          ss.act env cfg q (.mergePage q t) c (.buffered pages i)
        else ss.hold q c (.buffered pages i)
      else none

/-- The sibling an event belongs to. -/
def Event.sibling : Event → Nat
  | .malloc q .. | .free q .. | .fault q .. | .store q .. | .resume q .. => q

/-- What the environment guarantees before an event: a program call or a fault comes from a
sibling with no call pending and is an enabled node action, and a pending `mmap` finds room. -/
def SEnabled (cfg : Config) (n : Nat) (ss : Sched) : Event → Prop
  | .malloc q sz base => ss.work q = .idle ∧ Enabled cfg n ss.node (.malloc q sz base)
  | .free q ptr => ss.work q = .idle ∧ Enabled cfg n ss.node (.free q ptr)
  | .fault q i => ss.work q = .idle ∧ Enabled cfg n ss.node (.fault q i)
  | .store q i o v => ss.work q = .idle ∧ Enabled cfg n ss.node (.store q i o v)
  | .resume q base => q < n ∧ ss.work q ≠ .idle ∧
      ∀ sz, ss.work q = .allocFrequency [] sz → Enabled cfg n ss.node (.malloc q sz base)

/-- The states the node reaches under the controllers, with the node actions taken on the way. -/
inductive SReachable (cfg : Config) (k : Knobs) (n : Nat) (rank : Nat → Nat)
    (metric : Nat → MergeMetric) : List Action → Sched → Prop
  | init : SReachable cfg k n rank metric [] (Sched.init cfg k n rank metric)
  | step {acts as : List Action} {ss ss' : Sched} (ev : Event) :
      SReachable cfg k n rank metric acts ss → SEnabled cfg n ss ev →
      schedStep MapEnv.ok cfg k ss ev = some (ss', as) →
      SReachable cfg k n rank metric (acts ++ as) ss'

end SbllMalloc.SharedHeap
