import SbllMalloc.SharedHeap.MergeRef

/-!
# Joining and leaving the node

A sibling joins in two steps: `InitSem` opens the named semaphore, creating it if it does not
exist, and `AllocateSharedMetadata`, under that semaphore, opens the backing file `/PSMallocTest`
or creates it, counts itself in `*aliveProcs` and takes `myRank = *aliveProcs - 1`. It leaves by
`CleanUpSharedData`: under the semaphore it decrements `*aliveProcs` into `alive_procs`,
destroys its allocation index and unmaps the holder table; after `SignalSem`, the sibling that
read `alive_procs == 0` cuts its file to length `0` and unlinks `/PSMallocTest` and the
semaphore's name.

Each critical section is one step, and so is the unsynchronized end of `CleanUpSharedData`; steps
of different siblings interleave in any order. Semaphores and files are numbered in creation
order, so that a sibling's handle names the object it opened even after its name is unlinked.

`*aliveProcs` counts the siblings joined with its file (`LifeInv`), so a joiner's `myRank` is
the number of siblings already joined, whichever ranks they hold. While no sibling has left, the
siblings joined with a file therefore hold distinct ranks below their number
(`LifeReachable.ranksDistinct`): the node model's assumption `RanksOK`, as long as at most
`numProc` siblings join (`LifeReachable.ranksOK`). A leave frees no rank: the next joiner takes the
rank of the last one to join. The leave also keeps every holder bit of the leaver
(`Node.cleanUp`).
-/

namespace SbllMalloc.SharedHeap

/-- What a sibling holds once `AllocateSharedMetadata` returns: the semaphore and the file it
opened and its `myRank`. -/
structure Member where
  sem : Nat
  file : Nat
  myRank : Int
  deriving DecidableEq, Repr

/-- Where a sibling is, from `InitSem` to the end of `CleanUpSharedData`; `leaving` carries the
`alive_procs` it read. -/
inductive Phase where
  | idle
  | semOpened (sem : Nat)
  | joined (m : Member)
  | leaving (m : Member) (aliveProcs : Int)
  | gone
  deriving DecidableEq, Repr

/-- The file a sibling is counted in: its file while joined. -/
def Phase.joinedTo : Phase → Option Nat
  | .joined m => some m.file
  | _ => none

/-- The file a sibling has open. -/
def Phase.file : Phase → Option Nat
  | .joined m | .leaving m _ => some m.file
  | _ => none

/-- The named semaphore and file (by number), `*aliveProcs` of each file, the files cut to
length `0`, the number of objects created so far and each sibling's phase. -/
structure World where
  semName : Option Nat
  shmName : Option Nat
  aliveProcs : Nat → Int
  truncated : Nat → Bool
  created : Nat
  phase : Nat → Phase

/-- Nothing created, no sibling started. -/
def World.init : World := ⟨none, none, fun _ => 0, fun _ => false, 0, fun _ => .idle⟩

/-- `InitSem(semName, &mutex)`: `sem_open` with `O_CREAT | O_EXCL`, or the existing semaphore
on `EEXIST`. -/
def initSem (w : World) (q : Nat) : World :=
  match w.semName with
  | some s => { w with phase := Function.update w.phase q (.semOpened s) }
  | none => { w with semName := some w.created, created := w.created + 1,
                     phase := Function.update w.phase q (.semOpened w.created) }

/-- `AllocateSharedMetadata()` under semaphore `sem`: the first sibling creates the file with
`*aliveProcs = 1`, a later one opens it and increments `*aliveProcs`; then
`myRank = *aliveProcs - 1`. -/
def allocateSharedMetadata (w : World) (q sem : Nat) : World :=
  match w.shmName with
  | none =>
    { w with shmName := some w.created, created := w.created + 1,
             aliveProcs := Function.update w.aliveProcs w.created 1,
             phase := Function.update w.phase q (.joined ⟨sem, w.created, 1 - 1⟩) }
  | some f =>
    { w with aliveProcs := Function.update w.aliveProcs f (w.aliveProcs f + 1),
             phase := Function.update w.phase q (.joined ⟨sem, f, w.aliveProcs f + 1 - 1⟩) }

/-- The critical section of `CleanUpSharedData()`: `--(*aliveProcs)`, read into `alive_procs`.
On a file cut to length `0` the access raises `SIGBUS` (`none`). -/
def cleanUpCritical (w : World) (q : Nat) (m : Member) : Option World :=
  if w.truncated m.file then none
  else
    some { w with aliveProcs := Function.update w.aliveProcs m.file (w.aliveProcs m.file - 1),
                  phase := Function.update w.phase q (.leaving m (w.aliveProcs m.file - 1)) }

/-- The end of `CleanUpSharedData()`, after `SignalSem`: on `alive_procs == 0` it cuts its own
file to length `0` and unlinks `/PSMallocTest` and `semName`, whatever they name by now. -/
def cleanUpTail (w : World) (q : Nat) (m : Member) (alive : Int) : World :=
  if alive = 0 then
    { w with truncated := Function.update w.truncated m.file true, shmName := none,
             semName := none, phase := Function.update w.phase q .gone }
  else { w with phase := Function.update w.phase q .gone }

/-- One step of one sibling. -/
inductive LifeAction where
  | initSem (q : Nat)
  | join (q : Nat)
  | leave (q : Nat)
  | leaveTail (q : Nat)

/-- The sibling a step belongs to. -/
def LifeAction.sibling : LifeAction → Nat
  | .initSem q | .join q | .leave q | .leaveTail q => q

/-- A step; `none` when the sibling is not at that step, or crashes. -/
def lifeStep (w : World) : LifeAction → Option World
  | .initSem q => if w.phase q = .idle then some (initSem w q) else none
  | .join q =>
    match w.phase q with
    | .semOpened s => some (allocateSharedMetadata w q s)
    | _ => none
  | .leave q =>
    match w.phase q with
    | .joined m => cleanUpCritical w q m
    | _ => none
  | .leaveTail q =>
    match w.phase q with
    | .leaving m a => some (cleanUpTail w q m a)
    | _ => none

/-- Steps in order, stopping at the first that fails. -/
def lifeSteps (w : World) (acts : List LifeAction) : Option World := acts.foldlM lifeStep w

/-- The worlds that steps of the siblings `0, …, n - 1` reach. -/
inductive LifeReachable (n : Nat) : World → Prop
  | init : LifeReachable n World.init
  | step {w w' : World} (a : LifeAction) : LifeReachable n w → a.sibling < n →
      lifeStep w a = some w' → LifeReachable n w'

/-! ## `*aliveProcs` counts the joined siblings -/

/-- The number of the siblings `0, …, n - 1` joined with file `f`. -/
def joinedCount (phase : Nat → Phase) (n f : Nat) : Nat :=
  ((Finset.range n).filter fun q => (phase q).joinedTo = some f).card

theorem joinedCount_update (phase : Nat → Phase) {n q : Nat} (hq : q < n) (p : Phase) (f : Nat) :
    joinedCount (Function.update phase q p) n f + (if (phase q).joinedTo = some f then 1 else 0) =
      joinedCount phase n f + (if p.joinedTo = some f then 1 else 0) := by
  have hmem : q ∈ Finset.range n := Finset.mem_range.2 hq
  have hfun : (fun j => if (Function.update phase q p j).joinedTo = some f then 1 else 0) =
      Function.update (fun j => if (phase j).joinedTo = some f then 1 else 0) q
        (if p.joinedTo = some f then 1 else 0) := by
    funext j; by_cases hj : j = q
    · subst hj; simp
    · simp [Function.update_noteq hj]
  simp only [joinedCount, Finset.card_filter, hfun, Finset.sum_update_of_mem hmem,
    Finset.sum_eq_add_sum_diff_singleton hmem (fun j => if (phase j).joinedTo = some f then 1 else 0)]
  omega

/-- A sibling that is counted in no file before or after a phase change changes no count. -/
theorem joinedCount_update_of_ne (phase : Nat → Phase) {n q : Nat} (hq : q < n) {p : Phase}
    {f : Nat} (hold : (phase q).joinedTo ≠ some f) (hnew : p.joinedTo ≠ some f) :
    joinedCount (Function.update phase q p) n f = joinedCount phase n f := by
  have := joinedCount_update phase hq p f
  simp only [hold, hnew, if_false] at this
  omega

/-- What holds in every reachable world: an intact file's `*aliveProcs` is the number of
siblings joined with it, a file not yet created has no count and is intact, every open file was
created, and the named file is intact. -/
structure LifeInv (n : Nat) (w : World) : Prop where
  alive : ∀ f, w.truncated f = false → w.aliveProcs f = joinedCount w.phase n f
  fresh : ∀ f, w.created ≤ f → w.aliveProcs f = 0 ∧ w.truncated f = false
  files : ∀ q f, (w.phase q).file = some f → f < w.created
  named : ∀ f, w.shmName = some f → w.truncated f = false ∧ f < w.created

theorem LifeInv.init (n : Nat) : LifeInv n World.init where
  alive _ _ := by simp [World.init, joinedCount, Phase.joinedTo]
  fresh _ _ := ⟨rfl, rfl⟩
  files _ _ h := by simp [World.init, Phase.file] at h
  named _ h := by simp [World.init] at h

theorem Phase.file_of_joinedTo {p : Phase} {f : Nat} (h : p.joinedTo = some f) :
    p.file = some f := by
  cases p <;> simp_all [Phase.joinedTo, Phase.file]

/-- No sibling is joined with a file not yet created. -/
theorem LifeInv.count_fresh {n : Nat} {w : World} (h : LifeInv n w) {f : Nat} (hf : w.created ≤ f) :
    joinedCount w.phase n f = 0 := by
  refine Finset.card_eq_zero.2 (Finset.filter_eq_empty_iff.2 fun q _ hq => ?_)
  have := h.files q f (Phase.file_of_joinedTo hq); omega

theorem Phase.file_update {phase : Nat → Phase} {q j f : Nat} {p : Phase}
    (h : (Function.update phase q p j).file = some f) : (phase j).file = some f ∨ p.file = some f := by
  by_cases hj : j = q
  · subst hj; rw [Function.update_same] at h; exact .inr h
  · rw [Function.update_noteq hj] at h; exact .inl h

theorem LifeInv.of_initSem {n : Nat} {w : World} (h : LifeInv n w) {q : Nat} (hq : q < n)
    (hidle : w.phase q = .idle) : LifeInv n (initSem w q) := by
  have hc : ∀ s f, joinedCount (Function.update w.phase q (.semOpened s)) n f =
      joinedCount w.phase n f := fun s f =>
    joinedCount_update_of_ne _ hq (by rw [hidle]; simp [Phase.joinedTo]) (by simp [Phase.joinedTo])
  have hfile : ∀ s j f, (Function.update w.phase q (.semOpened s) j).file = some f →
      (w.phase j).file = some f := fun s j f hj => by
    by_cases hjq : j = q
    · subst hjq; simp [Phase.file] at hj
    · rwa [Function.update_noteq hjq] at hj
  unfold initSem
  split
  · exact ⟨fun f hf => (hc _ f).symm ▸ h.alive f hf, h.fresh,
      fun j f hj => h.files j f (hfile _ j f hj), h.named⟩
  · exact ⟨fun f hf => (hc _ f).symm ▸ h.alive f hf, fun f hf => h.fresh f (Nat.le_of_succ_le hf),
      fun j f hj => Nat.lt_succ_of_lt (h.files j f (hfile _ j f hj)),
      fun f hf => ⟨(h.named f hf).1, Nat.lt_succ_of_lt (h.named f hf).2⟩⟩

/-- A joiner is counted in the file it opens or creates, which is named and intact. -/
theorem LifeInv.of_join {n : Nat} {w : World} (h : LifeInv n w) {q s : Nat} (hq : q < n)
    (hs : w.phase q = .semOpened s) : LifeInv n (allocateSharedMetadata w q s) := by
  have hcount : ∀ (f₀ : Nat) (r : Int) f,
      joinedCount (Function.update w.phase q (.joined ⟨s, f₀, r⟩)) n f =
        joinedCount w.phase n f + if f₀ = f then 1 else 0 := fun f₀ r f => by
    have := joinedCount_update w.phase hq (.joined ⟨s, f₀, r⟩) f
    simp only [hs, Phase.joinedTo, reduceCtorEq, if_false, Option.some.injEq] at this
    omega
  have hfile : ∀ {f₀ : Nat} {r : Int} {j f}, (Function.update w.phase q (.joined ⟨s, f₀, r⟩) j).file =
      some f → (w.phase j).file = some f ∨ f₀ = f := fun hj => by
    simpa [Phase.file] using Phase.file_update hj
  unfold allocateSharedMetadata
  split
  · -- the first sibling creates file `created`
    refine ⟨fun f hf => ?_, fun f hf => ?_, fun j f hj => ?_, fun f hf => ?_⟩
    · rw [hcount]
      by_cases hfc : f = w.created
      · subst hfc; simp [h.count_fresh le_rfl]
      · simp [Function.update_noteq hfc, Ne.symm hfc, h.alive f hf]
    · have hlt : w.created < f := hf
      simp [Function.update_noteq (Nat.ne_of_gt hlt), h.fresh f hlt.le]
    · rcases hfile hj with hj | rfl
      · exact Nat.lt_succ_of_lt (h.files j f hj)
      · exact Nat.lt_succ_self _
    · obtain rfl : w.created = f := Option.some.inj hf
      exact ⟨(h.fresh _ le_rfl).2, Nat.lt_succ_self _⟩
  · -- a later sibling opens the named file
    rename_i f₀ hsome
    obtain ⟨ht, hlt⟩ := h.named f₀ hsome
    refine ⟨fun f hf => ?_, fun f hf => ?_, fun j f hj => ?_, h.named⟩
    · rw [hcount]
      by_cases hff : f = f₀
      · subst hff; simp [h.alive f ht]
      · simp [Function.update_noteq hff, Ne.symm hff, h.alive f hf]
    · have hf : w.created ≤ f := hf
      simp [Function.update_noteq (show f ≠ f₀ by omega), h.fresh f hf]
    · rcases hfile hj with hj | rfl
      · exact h.files j f hj
      · exact hlt

/-- A leaver's critical section takes it out of its file's count. -/
theorem LifeInv.of_leave {n : Nat} {w w' : World} (h : LifeInv n w) {q : Nat} (hq : q < n)
    {m : Member} (hm : w.phase q = .joined m) (h' : cleanUpCritical w q m = some w') :
    LifeInv n w' := by
  unfold cleanUpCritical at h'
  split at h'
  · cases h'
  rename_i ht
  replace ht := Bool.eq_false_iff.2 ht
  obtain rfl := Option.some.inj h'
  have hmf : m.file < w.created := h.files q m.file (by rw [hm]; rfl)
  have hcount : ∀ (a : Int) f, joinedCount (Function.update w.phase q (.leaving m a)) n f +
      (if m.file = f then 1 else 0) = joinedCount w.phase n f := fun a f => by
    have := joinedCount_update w.phase hq (.leaving m a) f
    simp only [hm, Phase.joinedTo, reduceCtorEq, if_false, Option.some.injEq] at this
    omega
  refine ⟨fun f hf => ?_, fun f hf => ?_, fun j f hj => ?_, h.named⟩
  · have hc := hcount (w.aliveProcs m.file - 1) f
    by_cases hff : f = m.file
    · subst hff; simp only [if_true] at hc
      have := h.alive _ ht
      dsimp only; rw [Function.update_same]; omega
    · simp only [Ne.symm hff, if_false, add_zero] at hc
      simp [Function.update_noteq hff, h.alive f hf, hc]
  · have hf : w.created ≤ f := hf
    simp [Function.update_noteq (show f ≠ m.file by omega), h.fresh f hf]
  · rcases Phase.file_update hj with hj | hj
    · exact h.files j f hj
    · obtain rfl : m.file = f := Option.some.inj hj
      exact hmf

/-- The end of a leave changes no count; the last leaver's file is cut and no longer named. -/
theorem LifeInv.of_tail {n : Nat} {w : World} (h : LifeInv n w) {q : Nat} (hq : q < n)
    {m : Member} {a : Int} (hm : w.phase q = .leaving m a) : LifeInv n (cleanUpTail w q m a) := by
  have hmf : m.file < w.created := h.files q m.file (by rw [hm]; rfl)
  have hc : ∀ f, joinedCount (Function.update w.phase q .gone) n f = joinedCount w.phase n f :=
    fun f => joinedCount_update_of_ne _ hq (by rw [hm]; simp [Phase.joinedTo])
      (by simp [Phase.joinedTo])
  have hfile : ∀ j f, (Function.update w.phase q .gone j).file = some f → (w.phase j).file = some f :=
    fun j f hj => (Phase.file_update hj).resolve_right (by simp [Phase.file])
  unfold cleanUpTail
  split
  · refine ⟨fun f hf => ?_, fun f hf => ?_, fun j f hj => h.files j f (hfile j f hj),
      fun f hf => by simp at hf⟩
    · have hff : f ≠ m.file := fun e => by subst e; simp at hf
      rw [hc]; exact h.alive f (by simpa [Function.update_noteq hff] using hf)
    · have hf : w.created ≤ f := hf
      simpa [Function.update_noteq (show f ≠ m.file by omega)] using h.fresh f hf
  · exact ⟨fun f hf => (hc f).symm ▸ h.alive f hf, h.fresh,
      fun j f hj => h.files j f (hfile j f hj), h.named⟩

/-- Every reachable world satisfies `LifeInv`. -/
theorem LifeReachable.inv {n : Nat} {w : World} (h : LifeReachable n w) : LifeInv n w := by
  induction h with
  | init => exact LifeInv.init n
  | step a _ hq hstep ih =>
    cases a with
    | initSem q =>
      simp only [lifeStep] at hstep
      split at hstep
      · obtain rfl := Option.some.inj hstep; exact ih.of_initSem hq (by assumption)
      · cases hstep
    | join q =>
      simp only [lifeStep] at hstep
      split at hstep
      · obtain rfl := Option.some.inj hstep; exact ih.of_join hq (by assumption)
      · cases hstep
    | leave q =>
      simp only [lifeStep] at hstep
      split at hstep
      · exact ih.of_leave hq (by assumption) hstep
      · cases hstep
    | leaveTail q =>
      simp only [lifeStep] at hstep
      split at hstep
      · obtain rfl := Option.some.inj hstep; exact ih.of_tail hq (by assumption)
      · cases hstep

/-! ## Ranks -/

/-- `AllocateSharedMetadata` joins the sibling with rank the number of siblings already joined
with the file it opens. -/
theorem LifeInv.join_phase {n : Nat} {w : World} (h : LifeInv n w) (q s : Nat) :
    ∃ f, (allocateSharedMetadata w q s).phase =
      Function.update w.phase q (.joined ⟨s, f, joinedCount w.phase n f⟩) := by
  unfold allocateSharedMetadata
  split
  · exact ⟨w.created, by simp [h.count_fresh le_rfl]⟩
  · rename_i f hf
    exact ⟨f, by simp [h.alive f (h.named f hf).1]⟩

/-- In every reachable world an intact file's `*aliveProcs` is the number of siblings joined with
it, so a joiner's `myRank` is the number of siblings joined with the file it opens, whichever
ranks they hold. -/
theorem LifeReachable.join_rank {n : Nat} {w : World} (h : LifeReachable n w) :
    (∀ f, w.truncated f = false → w.aliveProcs f = joinedCount w.phase n f) ∧
    ∀ q w', lifeStep w (.join q) = some w' →
      ∃ m, w'.phase q = .joined m ∧ m.myRank = joinedCount w.phase n m.file := by
  have hI := h.inv
  refine ⟨hI.alive, fun q w' hj => ?_⟩
  simp only [lifeStep] at hj
  split at hj
  · rename_i s _
    obtain rfl := Option.some.inj hj
    obtain ⟨f, hf⟩ := hI.join_phase q s
    exact ⟨⟨s, f, joinedCount w.phase n f⟩, by rw [hf, Function.update_same], rfl⟩
  · cases hj

/-- Siblings `0` and `1` join and `0` leaves: `*aliveProcs` is `1`, and sibling `2` joins with
rank `1`, the rank sibling `1` still holds. -/
theorem join_rank_after_leave :
    ∃ w w', LifeReachable 3 w ∧ w.phase 0 = .gone ∧ w.phase 1 = .joined ⟨0, 1, 1⟩ ∧
      lifeStep w (.join 2) = some w' ∧
      (∀ f, w.truncated f = false → w.aliveProcs f = joinedCount w.phase 3 f) ∧
      ∃ m, w'.phase 2 = .joined m ∧ m.myRank = joinedCount w.phase 3 m.file ∧ m.myRank = 1 := by
  have h₀ : LifeReachable 3 World.init := .init
  have h := ((((((h₀.step (.initSem 0) (by decide) rfl).step (.join 0) (by decide) rfl).step
    (.initSem 1) (by decide) rfl).step (.join 1) (by decide) rfl).step (.leave 0) (by decide)
    rfl).step (.leaveTail 0) (by decide) rfl).step (.initSem 2) (by decide) rfl
  obtain ⟨halive, hjoin⟩ := LifeReachable.join_rank h
  obtain ⟨m, hm, hrank⟩ := hjoin 2 _ rfl
  obtain rfl : m = ⟨0, 1, 1⟩ := Phase.joined.inj (hm.symm.trans rfl)
  exact ⟨_, _, h, rfl, rfl, rfl, halive, _, hm, hrank, rfl⟩

/-! ## Ranks while no sibling has left -/

/-- A sibling in or past `CleanUpSharedData`. -/
def Phase.left : Phase → Bool
  | .leaving .. | .gone => true
  | _ => false

/-- The siblings joined with a file hold distinct ranks below their number. -/
def RanksDistinct (n : Nat) (phase : Nat → Phase) : Prop :=
  ∀ q < n, ∀ m, phase q = .joined m → 0 ≤ m.myRank ∧ m.myRank < joinedCount phase n m.file ∧
    ∀ r < n, ∀ m', phase r = .joined m' → m'.file = m.file → m'.myRank = m.myRank → r = q

section Distinct

variable {n q : Nat} {phase : Nat → Phase}

/-- A phase change that neither joins nor unjoins a sibling keeps the ranks distinct. -/
theorem RanksDistinct.update_of_not_joined (h : RanksDistinct n phase) (hq : q < n) {p : Phase}
    (hold : ∀ m, phase q ≠ .joined m) (hnew : ∀ m, p ≠ .joined m) :
    RanksDistinct n (Function.update phase q p) := by
  have hc : ∀ f, joinedCount (Function.update phase q p) n f = joinedCount phase n f := fun f =>
    joinedCount_update_of_ne _ hq (by cases hp : phase q <;> simp_all [Phase.joinedTo])
      (by cases p <;> simp_all [Phase.joinedTo])
  have hup : ∀ r m, Function.update phase q p r = .joined m → r ≠ q ∧ phase r = .joined m :=
    fun r m hm => by
      by_cases hrq : r = q
      · subst hrq; rw [Function.update_same] at hm; exact absurd hm (hnew m)
      · rw [Function.update_noteq hrq] at hm; exact ⟨hrq, hm⟩
  intro r hr m hm
  obtain ⟨-, hm⟩ := hup r m hm
  obtain ⟨h0, hlt, huniq⟩ := h r hr m hm
  exact ⟨h0, hc m.file ▸ hlt, fun r' hr' m' hm' => huniq r' hr' m' (hup r' m' hm').2⟩

/-- A joiner whose rank is the number already joined with its file keeps the ranks distinct: every
rank held there is below it. -/
theorem RanksDistinct.update_joined (h : RanksDistinct n phase) (hq : q < n) {s f : Nat}
    (hs : phase q = .semOpened s) :
    RanksDistinct n (Function.update phase q (.joined ⟨s, f, joinedCount phase n f⟩)) := by
  have hc : ∀ g, joinedCount (Function.update phase q (.joined ⟨s, f, joinedCount phase n f⟩)) n g =
      joinedCount phase n g + if f = g then 1 else 0 := fun g => by
    have := joinedCount_update phase hq (.joined ⟨s, f, joinedCount phase n f⟩) g
    simp only [hs, Phase.joinedTo, reduceCtorEq, if_false, Option.some.injEq] at this
    omega
  -- a sibling joined before keeps its rank, which is below the joiner's
  have hbelow : ∀ r < n, ∀ m, phase r = .joined m → m.file = f → m.myRank < joinedCount phase n f :=
    fun r hr m hm hf => hf ▸ (h r hr m hm).2.1
  intro r hr m hm
  by_cases hrq : r = q
  · subst hrq
    rw [Function.update_same] at hm
    cases hm
    refine ⟨by positivity, by rw [hc]; simp, fun r' hr' m' hm' hf hrk => ?_⟩
    simp only at hf hrk
    by_contra hne
    rw [Function.update_noteq hne] at hm'
    have := hbelow r' hr' m' hm' hf
    omega
  · rw [Function.update_noteq hrq] at hm
    obtain ⟨h0, hlt, huniq⟩ := h r hr m hm
    refine ⟨h0, by rw [hc]; split_ifs <;> omega, fun r' hr' m' hm' hf hrk => ?_⟩
    by_cases hr'q : r' = q
    · subst hr'q
      rw [Function.update_same] at hm'
      cases hm'
      have := hbelow r hr m hm hf.symm
      simp only at hrk
      omega
    · rw [Function.update_noteq hr'q] at hm'
      exact huniq r' hr' m' hm' hf hrk

end Distinct

theorem initSem_phase (w : World) (q : Nat) :
    ∃ s, (initSem w q).phase = Function.update w.phase q (.semOpened s) := by
  unfold initSem
  split <;> exact ⟨_, rfl⟩

/-- What one step does to the phases: `InitSem` and `AllocateSharedMetadata` move their sibling
on, and either half of `CleanUpSharedData` leaves it in or past the leave. -/
theorem lifeStep_cases {w w' : World} {a : LifeAction} (h : lifeStep w a = some w') :
    (∃ q, a = .initSem q ∧ w.phase q = .idle ∧ w' = initSem w q) ∨
    (∃ q s, a = .join q ∧ w.phase q = .semOpened s ∧ w' = allocateSharedMetadata w q s) ∨
    (w'.phase a.sibling).left = true := by
  cases a with
  | initSem q =>
    simp only [lifeStep] at h
    split at h
    · exact .inl ⟨q, rfl, ‹_›, (Option.some.inj h).symm⟩
    · cases h
  | join q =>
    simp only [lifeStep] at h
    split at h
    · exact .inr (.inl ⟨q, _, rfl, ‹_›, (Option.some.inj h).symm⟩)
    · cases h
  | leave q =>
    simp only [lifeStep] at h
    split at h
    · unfold cleanUpCritical at h
      split at h
      · cases h
      · cases h; exact .inr (.inr (by simp [LifeAction.sibling, Phase.left]))
    · cases h
  | leaveTail q =>
    simp only [lifeStep] at h
    split at h
    · cases h
      unfold cleanUpTail
      exact .inr (.inr (by split <;> simp [LifeAction.sibling, Phase.left]))
    · cases h

theorem Phase.left_of_update {n q : Nat} {phase : Nat → Phase} {p : Phase}
    (hp : (phase q).left = false) (h : ∀ r < n, (Function.update phase q p r).left = false) :
    ∀ r < n, (phase r).left = false := fun r hr => by
  by_cases hrq : r = q
  · subst hrq; exact hp
  · simpa [Function.update_noteq hrq] using h r hr

/-- In every world reached without a leave, the siblings joined with a file hold distinct ranks
below their number. -/
theorem LifeReachable.ranksDistinct {n : Nat} {w : World} (h : LifeReachable n w)
    (hstay : ∀ q < n, (w.phase q).left = false) : RanksDistinct n w.phase := by
  induction h with
  | init => intro q _ m hm; simp [World.init] at hm
  | @step w₀ _ a hw ha hstep ih =>
    rcases lifeStep_cases hstep with ⟨q, rfl, hidle, rfl⟩ | ⟨q, s, rfl, hs, rfl⟩ | hleft
    · obtain ⟨s, hs⟩ := initSem_phase w₀ q
      rw [hs] at hstay ⊢
      exact (ih (Phase.left_of_update (by rw [hidle]; rfl) hstay)).update_of_not_joined
        (show q < n from ha) (by simp [hidle]) (by simp)
    · obtain ⟨f, hf⟩ := hw.inv.join_phase q s
      rw [hf] at hstay ⊢
      exact (ih (Phase.left_of_update (by rw [hs]; rfl) hstay)).update_joined ha hs
    · simp [hstay _ ha] at hleft

/-- While no sibling has left, the siblings joined with a file hold distinct ranks below their
number, so the ranks `AllocateSharedMetadata` gives the siblings joined with one file are the
ranks the node model assumes (`RanksOK`), as long as no more siblings join than the holder entries
have bits. -/
theorem LifeReachable.ranksOK {n : Nat} {w : World} (h : LifeReachable n w)
    (hstay : ∀ q < n, (w.phase q).left = false) {cfg : Config} (hn : n ≤ cfg.numProc) {f : Nat}
    {m : Nat → Member} (hj : ∀ q < n, w.phase q = .joined (m q) ∧ (m q).file = f) :
    RanksDistinct n w.phase ∧ RanksOK cfg n fun q => (m q).myRank.toNat := by
  have hd := h.ranksDistinct hstay
  have hcard : joinedCount w.phase n f ≤ n :=
    (Finset.card_filter_le _ _).trans (Finset.card_range n).le
  refine ⟨hd, ?_⟩
  constructor
  · intro q hq
    obtain ⟨h0, hlt, -⟩ := hd q hq (m q) (hj q hq).1
    rw [(hj q hq).2] at hlt
    omega
  · intro q hq q' hq' he
    obtain ⟨h0, -, huniq⟩ := hd q hq (m q) (hj q hq).1
    have h0' := (hd q' hq' (m q') (hj q' hq').1).1
    exact (huniq q' hq' (m q') (hj q' hq').1 ((hj q' hq').2.trans (hj q hq).2.symm)
      (by omega)).symm

theorem ranksOK_joinAll_two :
    ∃ w, LifeReachable 2 w ∧ (∀ q < 2, w.phase q = .joined ⟨0, 1, q⟩) ∧
      RanksOK Config.page4k 2 fun q => (q : Int).toNat := by
  have h₁ := LifeReachable.step (n := 2) (.initSem 0) .init (by decide) rfl
  have h₄ := ((h₁.step (.join 0) (by decide) rfl).step (.initSem 1) (by decide) rfl).step
    (.join 1) (by decide) rfl
  refine ⟨_, h₄, fun q hq => ?_, (h₄.ranksOK (m := fun q => ⟨0, 1, q⟩) (f := 1) (fun q hq => ?_)
    (by decide) fun q hq => ?_).2⟩
  · interval_cases q <;> rfl
  · interval_cases q <;> rfl
  · interval_cases q <;> exact ⟨rfl, rfl⟩

/-- Siblings `0` and `1` join, `0` leaves, and `2` joins. -/
def rejoinProgram : List LifeAction :=
  [.initSem 0, .join 0, .initSem 1, .join 1, .leave 0, .leaveTail 0, .initSem 2, .join 2]

/-- Siblings `0, …, k - 1` join in turn. -/
def joinAll (k : Nat) : List LifeAction := (List.range k).flatMap fun q => [.initSem q, .join q]

/-- After a leave and a join, siblings `1` and `2` are joined at once with the same rank `1`.
Nine joiners are all admitted, the ninth with rank `8`, and on an 8-bit holder entry its
`SetSharingBit` sets no bit. -/
theorem rejoin_reuses_rank :
    (lifeSteps World.init rejoinProgram).map (fun w => (w.phase 1, w.phase 2)) =
      some (.joined ⟨0, 1, 1⟩, .joined ⟨0, 1, 1⟩) ∧
    (lifeSteps World.init (joinAll 9)).map (fun w => w.phase 8) = some (.joined ⟨0, 1, 8⟩) ∧
    ∀ info : Nat → Nat, (∀ k, info k < 2 ^ 8) → ∀ i, setSharingBit 8 8 info i = info :=
  ⟨by decide, by decide, fun _ hw i => setSharingBit_of_le le_rfl hw i⟩

/-! ## The end of a leave -/

/-- Sibling `0` joins and leaves; sibling `1` joins between the two halves of the leave, and
sibling `2` joins after it. -/
def leaveRaceProgram : List LifeAction :=
  [.initSem 0, .join 0, .leave 0, .initSem 1, .join 1, .leaveTail 0, .initSem 2, .join 2]

/-- Sibling `1` is joined with file `1`, cut to length `0` by sibling `0`'s leave, while
sibling `2` is joined with a new semaphore `2` and a new file `3`. -/
theorem leaveRace_truncates_joined_file :
    (lifeSteps World.init leaveRaceProgram).map (fun w => (w.phase 1, w.truncated 1, w.phase 2)) =
      some (.joined ⟨0, 1, 0⟩, true, .joined ⟨2, 3, 0⟩) := by
  decide

/-! ## Holder bits of a departed sibling -/

/-- The critical section of `CleanUpSharedData()` on the node: `--(*aliveProcs)` and
`DestroyAVL(allocRecord)`, which frees the allocation index without visiting its regions or
clearing a holder bit. -/
def Node.cleanUp (s : Node) (q : Nat) : Node :=
  s.setProc q { s.procs q with allocRecord := fun _ => none }
    { s.shm with aliveProcs := s.shm.aliveProcs - 1 }

/-- After sibling `0` leaves, frame `1` still has holder bits `0` and `1`, with one sibling
alive, and `*sharedPageCount` still counts it as a shared frame. -/
theorem leave_keeps_holder_bit :
    (steps MapEnv.ok Config.page4k (Node.init 2 id fun _ => .threshold) shareProgram).map
        (fun s => (((s.cleanUp 0).shm.sharingProcessesInfo 1).testBit 0,
          ((s.cleanUp 0).shm.sharingProcessesInfo 1).testBit 1, (s.cleanUp 0).shm.aliveProcs,
          (s.cleanUp 0).shm.sharedPageCount)) = some (true, true, 1, 2) := by
  obtain ⟨s, h, -, -, hinfo, halive, hshared⟩ := shareProgram_reachable
  rw [h.steps, Option.map_some']
  simp only [Node.cleanUp, Node.setProc_shm, hinfo, halive, hshared]
  decide

/-! ## The semaphore on an error path

`TranslateMmapAddr` calls `Fatal()` on an address outside the heap window, and `Fatal()` runs
`CleanUpSharedData()`, which waits on the semaphore. `ShmFreeWrapper` and `MergeManyPages`
translate the address of every page of their region while they hold the semaphore, through the
bitmap accessors. A region that reaches past the window, which `ShmMallocWrapper` never rules
out, makes the sibling wait on the semaphore it holds.
-/

/-- A call on the node semaphore. -/
inductive SemCall where
  | wait
  | signal
  deriving DecidableEq, Repr

/-- One sibling's calls from semaphore count `v` while no other sibling is inside: `none` once a
`sem_wait` finds the count at `0`. The count stays `0` then, and every later `WaitSem` of any
sibling blocks too. -/
def semRun : Nat → List SemCall → Option Nat
  | v, [] => some v
  | v, .wait :: cs => if v = 0 then none else semRun (v - 1) cs
  | v, .signal :: cs => semRun (v + 1) cs

/-- `TranslateMmapAddr` on page `j` of the heap window: its byte offset when
`sharedHeapBottom < addr < sharedHeapTop`, `none` where it calls `Fatal()`. -/
def translateMmapAddr (cfg : Config) (j : Nat) : Option Nat :=
  if 0 < j ∧ j < cfg.heapPages then some (j * cfg.pageSize) else none

/-- The semaphore calls of `CleanUpSharedData()`. -/
def cleanUpSharedDataCalls : List SemCall := [.wait, .signal]

/-- The semaphore calls of an operation that takes the semaphore and translates every page of
`pages` before it releases it; at the first page outside the window `Fatal()` runs
`CleanUpSharedData()` and the process exits. The calls, and whether the process exits. -/
def lockedPagesCalls (cfg : Config) (pages : List Nat) : List SemCall × Bool :=
  if pages.all fun j => (translateMmapAddr cfg j).isSome then ([.wait, .signal], false)
  else (.wait :: cleanUpSharedDataCalls, true)

/-- `ShmFreeWrapper(ptr)` on a region of `size` pages: its release loop reads each page's
initialized bit under the semaphore. -/
def shmFreeWrapperCalls (cfg : Config) (ptr size : Nat) : List SemCall × Bool :=
  lockedPagesCalls cfg (List.range' ptr size)

/-- `MergeManyPages(start_addr, size)`: its walk reads each page's initialized bit under the
semaphore. -/
def mergeManyPagesCalls (cfg : Config) (startAddr size : Nat) : List SemCall × Bool :=
  lockedPagesCalls cfg (List.range' startAddr size)

/-- An operation over pages inside the window takes and releases the semaphore once; one page
outside makes it wait on the semaphore it holds, which blocks every sibling for good. -/
theorem semRun_lockedPagesCalls (cfg : Config) (pages : List Nat) :
    semRun 1 (lockedPagesCalls cfg pages).1 =
      if ∀ j ∈ pages, (translateMmapAddr cfg j).isSome then some 1 else none := by
  unfold lockedPagesCalls
  by_cases h : ∀ j ∈ pages, (translateMmapAddr cfg j).isSome
  · rw [if_pos (List.all_eq_true.2 h), if_pos h]; rfl
  · rw [if_neg (by rwa [List.all_eq_true]), if_neg h]; rfl

/-- Freeing a region of two pages whose second page lies past `sharedHeapTop` blocks the
sibling in `CleanUpSharedData`'s `WaitSem`, with the semaphore it took itself. -/
theorem shmFreeWrapper_past_top_blocks :
    shmFreeWrapperCalls Config.page4k (Config.page4k.heapPages - 1) 2 =
        ([.wait, .wait, .signal], true) ∧
      semRun 1 (shmFreeWrapperCalls Config.page4k (Config.page4k.heapPages - 1) 2).1 = none :=
  ⟨by decide, by rw [shmFreeWrapperCalls, semRun_lockedPagesCalls, if_neg (by decide)]⟩

end SbllMalloc.SharedHeap
