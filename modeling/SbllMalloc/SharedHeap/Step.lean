import SbllMalloc.SharedHeap.Fault
import SbllMalloc.SharedHeap.Merge
import SbllMalloc.SharedHeap.Alloc

/-!
# The node as a state machine

Every library operation runs atomically under the node semaphore, so a run of the node is a
sequence of whole operations of any siblings, in any order. A step is one of: an allocation
(`ShmMallocWrapper`, with the kernel's choice of address), a release (`ShmFreeWrapper`), a write
fault (`SigSegvHandler`), a byte store to a writable page, one `MergeNode2` call of a merge pass
(`THRESHOLD` and `ALLOC_FREQUENCY`), and one `MergePages` call (`BUFFERED`, on a page it
recorded, which is initialized when `MergeByBUFFERED` checks it).

`step` is what the code does. `Enabled` is what the environment guarantees before a step: the
sibling exists, the kernel maps a new region on unmapped pages of the heap window, faults come
from stores to read-only pages, stores hit writable pages, and each merge entry point runs
under its sibling's policy.

All siblings join before the first step (`AllocateSharedMetadata`): the first creates the file,
zero-filled, with `*aliveProcs = 1`, `*sharedPageCount = 1`, `*allProcPrivatePageCount = 192`
and `*baseCaseTotalPageCount = 0`; each later one increments `*aliveProcs`.
-/

namespace SbllMalloc.SharedHeap

/-- One atomic operation of sibling `q`. -/
inductive Action where
  | malloc (q sz base : Nat)
  | free (q ptr : Nat)
  | fault (q i : Nat)
  | store (q i o : Nat) (v : UInt8)
  | mergeNode (q key : Nat)
  | mergePage (q i : Nat)

/-- The sibling an action belongs to. -/
def Action.sibling : Action → Nat
  | .malloc q .. | .free q .. | .fault q .. | .store q .. | .mergeNode q .. | .mergePage q .. => q

/-- A page mapped read-only: a store to it raises a write fault. -/
def Mapping.faultsOnWrite : Mapping → Bool
  | .anon _ w | .file _ w => !w
  | .unmapped => false

/-- What the code does on one action. -/
def step (env : MapEnv) (cfg : Config) (s : Node) : Action → Option Node
  | .malloc q sz base =>
    let (p, _) := shmMallocWrapper cfg (s.procs q) sz base
    some (s.setProc q p s.shm)
  | .free q ptr =>
    let (p, shm, _) := shmFreeWrapper cfg (s.procs q) s.shm ptr
    some (s.setProc q p shm)
  | .fault q i => do
    let (p, shm) ← sigSegvHandler cfg (s.procs q) s.shm i
    some (s.setProc q p shm)
  | .store q i o v => do
    let (p, shm) ← storeByte (s.procs q) s.shm i o v
    some (s.setProc q p shm)
  | .mergeNode q key => do
    let (p, shm) ← mergeNode2 env cfg (s.procs q) s.shm key
    some (s.setProc q p shm)
  | .mergePage q i => do
    let (p, shm, _) ← mergePages env cfg (s.procs q) s.shm i
    some (s.setProc q p shm)

/-- The actions `acts` in order from `s`, stopping at the first that fails. -/
def steps (env : MapEnv) (cfg : Config) (s : Node) (acts : List Action) : Option Node :=
  acts.foldlM (step env cfg) s

section StepEq

variable (env : MapEnv) (cfg : Config) (s : Node)

theorem step_malloc (q sz base : Nat) :
    step env cfg s (.malloc q sz base) =
      some (s.setProc q (shmMallocWrapper cfg (s.procs q) sz base).1 s.shm) := rfl

theorem step_fault (q i : Nat) :
    step env cfg s (.fault q i) =
      (sigSegvHandler cfg (s.procs q) s.shm i).bind fun r => some (s.setProc q r.1 r.2) := rfl

theorem step_store (q i o : Nat) (v : UInt8) :
    step env cfg s (.store q i o v) =
      (storeByte (s.procs q) s.shm i o v).bind fun r => some (s.setProc q r.1 r.2) := rfl

theorem step_mergeNode (q key : Nat) :
    step env cfg s (.mergeNode q key) =
      (mergeNode2 env cfg (s.procs q) s.shm key).bind fun r => some (s.setProc q r.1 r.2) := rfl

end StepEq

/-- What the environment guarantees before an action of one of the `n` siblings. -/
def Enabled (cfg : Config) (n : Nat) (s : Node) : Action → Prop
  | .malloc q sz base =>
    q < n ∧ 1 ≤ base ∧ base + mallocPages cfg sz ≤ cfg.heapPages ∧
      ∀ j, InRange base (mallocPages cfg sz) j → (s.procs q).mem j = .unmapped
  | .free q _ => q < n
  | .fault q i => q < n ∧ ((s.procs q).mem i).faultsOnWrite = true
  | .store q i o _ => q < n ∧ ((s.procs q).mem i).writable = true ∧ o < cfg.pageSize
  | .mergeNode q key =>
    q < n ∧ ((s.procs q).mergeMetric = .threshold ∨ (s.procs q).mergeMetric = .allocFrequency) ∧
      ((s.procs q).allocRecord key).isSome = true
  | .mergePage q i =>
    q < n ∧ (s.procs q).mergeMetric = .buffered ∧ (s.procs q).initializedPagesBV i = true

/-- The node once `n` siblings have joined, with holder indices `rank` and policies `metric`. -/
def Node.init (n : Nat) (rank : Nat → Nat) (metric : Nat → MergeMetric) : Node where
  shm :=
    { frames := fun _ => blankPage
      sharingProcessesInfo := fun _ => 0
      aliveProcs := n
      sharedPageCount := 1
      allProcPrivatePageCount := 192
      baseCaseTotalPageCount := 0 }
  procs := fun q =>
    { myRank := rank q
      mergeMetric := metric q
      allocRecord := fun _ => none
      dirty := fun _ => false
      mem := fun _ => .unmapped
      initializedPagesBV := fun _ => false
      zeroPagesBV := fun _ => false
      zeroPageCount := 0 }

/-- The states a node reaches from `Node.init n rank metric` by running the actions `acts` in
order, when every mapping call succeeds. -/
inductive Reachable (cfg : Config) (n : Nat) (rank : Nat → Nat) (metric : Nat → MergeMetric) :
    List Action → Node → Prop
  | init : Reachable cfg n rank metric [] (Node.init n rank metric)
  | step {acts : List Action} {s s' : Node} (a : Action) : Reachable cfg n rank metric acts s →
      Enabled cfg n s a → step MapEnv.ok cfg s a = some s' →
      Reachable cfg n rank metric (acts ++ [a]) s'

end SbllMalloc.SharedHeap
