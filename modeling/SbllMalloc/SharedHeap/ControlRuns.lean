import SbllMalloc.SharedHeap.Control
import SbllMalloc.SharedHeap.Failure
import SbllMalloc.SharedHeap.MergeRef

/-!
# Runs under the merge controllers

Every state the node reaches under the merge controllers, whatever the interleaving of the
siblings' calls, faults and pass steps, is a state of the node model (`Reachable`) reached by the
node actions the controllers took (`SReachable.refines_node`): a pass step is one `MergeNode2` or
`MergePages` call, which the node model allows at any time, and the call that started the pass
runs its own action when the pass is done. So everything proved of `Reachable` holds under the
real policies, and the program reads what the passthrough allocator holds.

The refinement needs what the pending work of each sibling assumes (`WorkOK`): the policy that
started it, which no operation changes (`Inv.step_mergeMetric`); region bases for a traversal,
which `MergeNode2` keeps; buffered pages inside the window; and, for the fault that waits on
`MergeByBUFFERED`, a page `MergePages` keeps read-only. With a buffer that stays in its array
(`BufOK`) this also shows that no enabled event fails (`SReachable.event_isSome`). The merge
`MergeByBUFFERED` runs page by page is, on every page that is not blank, the per-page merge of
`MergeManyPages` (`Inv.mergePages_eq_mergePageRef`).

The statics count the sibling's own calls (`CtlOK`): `countDownTimer` the calls of
`MergeByTHRESHOLD` modulo 100, `mallocRefCounter` the allocations modulo `mallocRefFreq`, and
`bufferOfDirtyPages` holds the pages of the last `bufferPtr` write faults. One case analysis of
`schedStep` (`SInv.next`) gives all of it.

Under `MERGE_DISABLED`, `ALLOC_FREQUENCY`, and `BUFFERED` while `bufferOfDirtyPages` has room,
`SigSegvHandler` runs no merge pass, and a write fault returns in one event with its page writable,
so the store that faulted succeeds when it is retried (`SReachable.fault_then_store`). Under
`THRESHOLD` the traversal that follows the handler's critical section may share the page again.
-/

namespace SbllMalloc.SharedHeap

/-! ## What a step changes -/

/-- An action moves its own sibling only. -/
theorem step_eq_setProc {env : MapEnv} {cfg : Config} {s s' : Node} {a : Action}
    (h : step env cfg s a = some s') : ∃ p shm, s' = s.setProc a.sibling p shm := by
  cases a <;> simp only [step, Option.bind_eq_bind, Option.bind_eq_some, Option.some.injEq] at h
  all_goals first | exact ⟨_, _, h.symm⟩ | (obtain ⟨r, -, rfl⟩ := h; exact ⟨_, _, rfl⟩)

theorem step_procs_other {env : MapEnv} {cfg : Config} {s s' : Node} {a : Action}
    (h : step env cfg s a = some s') {q : Nat} (hq : q ≠ a.sibling) : s'.procs q = s.procs q := by
  obtain ⟨p, shm, rfl⟩ := step_eq_setProc h
  exact s.setProc_other p shm hq

/-- `MergePages` leaves the sibling as it is or maps the page read-only onto its frame. -/
theorem mergePages_proc {env : MapEnv} {cfg : Config} {p p' : Proc} {shm shm' : Shm} {i : Nat}
    {r : Int} (h : mergePages env cfg p shm i = some (p', shm', r)) :
    p' = p ∨ p' = { p with mem := Function.update p.mem i (.file i false) } := by
  rcases hc : (p.mem i).content shm.frames with _ | c <;>
    simp only [mergePages, hc, Option.bind_eq_bind, Option.none_bind, Option.some_bind] at h <;>
    split_ifs at h <;> simp only [Option.some.injEq, Prod.mk.injEq, reduceCtorEq] at h
  all_goals first | exact .inl h.1.symm | exact .inr h.1.symm

/-- `MergePages` on any page leaves a read-only page read-only. -/
theorem step_mergePage_faultsOnWrite {env : MapEnv} {cfg : Config} {s s' : Node} {q t i : Nat}
    (h : step env cfg s (.mergePage q t) = some s')
    (hf : ((s.procs q).mem i).faultsOnWrite = true) :
    ((s'.procs q).mem i).faultsOnWrite = true := by
  simp only [step, Option.bind_eq_bind, Option.bind_eq_some, Option.some.injEq] at h
  obtain ⟨⟨p', shm', r⟩, hm, rfl⟩ := h
  rcases mergePages_proc hm with rfl | rfl
  · simpa using hf
  · rcases eq_or_ne i t with rfl | hne
    · simp [Mapping.faultsOnWrite]
    · simpa [Function.update_noteq hne] using hf

/-! ## `MergePages` and the per-page merge -/

/-- A field of the sibling that each round of a loop keeps is kept by the loop. -/
theorem foldl_fst_eq {β γ δ : Type} {f : Proc × β → γ → Proc × β} (g : Proc → δ)
    (h : ∀ st x, g (f st x).1 = g st.1) :
    ∀ (l : List γ) (st : Proc × β), g (l.foldl f st).1 = g st.1
  | [], _ => rfl
  | x :: l, st => (foldl_fst_eq g h l (f st x)).trans (h st x)

theorem shmMallocWrapper_mergeMetric (cfg : Config) (p : Proc) (sz base : Nat) :
    (shmMallocWrapper cfg p sz base).1.mergeMetric = p.mergeMetric := by
  by_cases h : mallocPages cfg sz = 0 <;> simp [shmMallocWrapper, h]

theorem shmFreeWrapper_mergeMetric (cfg : Config) (p : Proc) (shm : Shm) (ptr : Nat) :
    (shmFreeWrapper cfg p shm ptr).1.mergeMetric = p.mergeMetric := by
  have hf : ∀ st j, (freePage cfg st j).1.mergeMetric = st.1.mergeMetric :=
    fun ⟨p, shm⟩ j => by simp only [freePage, resetAndReturnBit]; split_ifs <;> rfl
  have hd : ∀ st j, (freePageDisabled st j).1.mergeMetric = st.1.mergeMetric :=
    fun ⟨p, shm⟩ j => by simp only [freePageDisabled, resetAndReturnBit]; split_ifs <;> rfl
  simp only [shmFreeWrapper]
  split_ifs
  · rfl
  · exact foldl_fst_eq Proc.mergeMetric hf _ _
  · exact foldl_fst_eq Proc.mergeMetric hd _ _

theorem sigSegvHandler_mergeMetric {cfg : Config} {p p' : Proc} {shm shm' : Shm} {i : Nat}
    (h : sigSegvHandler cfg p shm i = some (p', shm')) : p'.mergeMetric = p.mergeMetric := by
  simp only [sigSegvHandler, setAndReturnBit, resetAndReturnBit] at h
  split_ifs at h
  · obtain ⟨rfl, rfl⟩ := Prod.mk.inj (Option.some.inj h); rfl
  · obtain ⟨rfl, rfl⟩ := Prod.mk.inj (Option.some.inj h); rfl
  · simp only [Option.bind_eq_bind, Option.bind_eq_some, Option.some.injEq] at h
    obtain ⟨shm₁, -, c, -, h⟩ := h
    obtain ⟨rfl, rfl⟩ := Prod.mk.inj h; rfl
  · obtain ⟨rfl, rfl⟩ := Prod.mk.inj (Option.some.inj h); rfl

theorem storeByte_mergeMetric {p p' : Proc} {shm shm' : Shm} {i o : Nat} {v : UInt8}
    (h : storeByte p shm i o v = some (p', shm')) : p'.mergeMetric = p.mergeMetric := by
  unfold storeByte at h
  split at h <;> simp only [Option.some.injEq, Prod.mk.injEq, reduceCtorEq] at h <;> rw [← h.1]

/-- `MergeNode2` keeps the sibling's policy and its regions. -/
theorem MergeReady.mergeNode2_keeps {cfg : Config} {p p' : Proc} {shm shm' : Shm}
    (hready : MergeReady cfg p shm) {key : Nat}
    (h : mergeNode2 MapEnv.ok cfg p shm key = some (p', shm')) :
    (p'.mergeMetric, p'.allocRecord) = (p.mergeMetric, p.allocRecord) := by
  have hstep : ∀ st j, ((mergePageRef cfg st j).1.mergeMetric,
      (mergePageRef cfg st j).1.allocRecord) = (st.1.mergeMetric, st.1.allocRecord) :=
    fun ⟨p, shm, cnt⟩ j => by
      rcases mergePageRef_cases cfg (p, shm, cnt) j with e | ⟨-, e | e | e⟩ <;> rw [e] <;> rfl
  unfold mergeNode2 at h
  split at h
  · cases h; rfl
  · split_ifs at h
    · simp only [hready.mergeManyPages_eq, Option.bind_eq_bind, Option.some_bind,
        Option.some.injEq, Prod.mk.injEq] at h
      obtain ⟨rfl, rfl⟩ := h
      exact foldl_fst_eq (fun p => (p.mergeMetric, p.allocRecord)) hstep _ _
    · cases h; rfl

section Policy

variable {cfg : Config} {n : Nat} {A : Pass} {s s' : Node}

/-- No operation changes a sibling's policy. -/
theorem Inv.step_mergeMetric (hs : Inv cfg n A s) {a : Action} (he : Enabled cfg n s a)
    (h : step MapEnv.ok cfg s a = some s') (q : Nat) :
    (s'.procs q).mergeMetric = (s.procs q).mergeMetric := by
  rcases eq_or_ne q a.sibling with rfl | hq
  · cases a with
    | malloc q sz base =>
      simp only [step, Option.some.injEq] at h; subst h
      simp [shmMallocWrapper_mergeMetric, Action.sibling]
    | free q ptr =>
      simp only [step, Option.some.injEq] at h; subst h
      simp [shmFreeWrapper_mergeMetric, Action.sibling]
    | fault q i =>
      simp only [step, Option.bind_eq_bind, Option.bind_eq_some, Option.some.injEq] at h
      obtain ⟨⟨p', shm'⟩, hf, rfl⟩ := h
      simpa [Action.sibling] using sigSegvHandler_mergeMetric hf
    | store q i o v =>
      simp only [step, Option.bind_eq_bind, Option.bind_eq_some, Option.some.injEq] at h
      obtain ⟨⟨p', shm'⟩, hf, rfl⟩ := h
      simpa [Action.sibling] using storeByte_mergeMetric hf
    | mergeNode q key =>
      simp only [step, Option.bind_eq_bind, Option.bind_eq_some, Option.some.injEq] at h
      obtain ⟨⟨p', shm'⟩, hf, rfl⟩ := h
      simpa [Action.sibling] using congrArg Prod.fst ((hs.mergeReady he.1).mergeNode2_keeps hf)
    | mergePage q i =>
      simp only [step, Option.bind_eq_bind, Option.bind_eq_some, Option.some.injEq] at h
      obtain ⟨⟨p', shm', r⟩, hf, rfl⟩ := h
      rcases mergePages_proc hf with rfl | rfl <;> simp [Action.sibling]
  · rw [step_procs_other h hq]

/-- `MergeNode2` keeps the sibling's policy and regions. -/
theorem Inv.step_mergeNode_keeps (hs : Inv cfg n A s) {q key : Nat} (hq : q < n)
    (h : step MapEnv.ok cfg s (.mergeNode q key) = some s') :
    (s'.procs q).mergeMetric = (s.procs q).mergeMetric ∧
      (s'.procs q).allocRecord = (s.procs q).allocRecord := by
  simp only [step, Option.bind_eq_bind, Option.bind_eq_some, Option.some.injEq] at h
  obtain ⟨⟨p', shm'⟩, hf, rfl⟩ := h
  simpa using (hs.mergeReady hq).mergeNode2_keeps hf

/-- A traversal's next `MergeNode2` keeps the policy and the region bases still to visit. -/
theorem Inv.traversal_step (hs : Inv cfg n A s) {q key : Nat} (hq : q < n) {keys : List Nat}
    {m : MergeMetric}
    (hw : (s.procs q).mergeMetric = m ∧ ∀ k ∈ key :: keys, ((s.procs q).allocRecord k).isSome)
    (h : step MapEnv.ok cfg s (.mergeNode q key) = some s') :
    (s'.procs q).mergeMetric = m ∧ ∀ k ∈ keys, ((s'.procs q).allocRecord k).isSome := by
  obtain ⟨hm, ha⟩ := hs.step_mergeNode_keeps hq h
  exact ⟨hm.trans hw.1, fun k hk => ha ▸ hw.2 k (List.mem_cons_of_mem _ hk)⟩

/-- Every sibling keeps the policy it joined with. -/
theorem Reachable.mergeMetric {rank : Nat → Nat} {metric : Nat → MergeMetric}
    {acts : List Action} (hr : RanksOK cfg n rank) (h : Reachable cfg n rank metric acts s)
    (q : Nat) : (s.procs q).mergeMetric = metric q := by
  induction h with
  | init => rfl
  | step a hreach he hstep ih => rw [(hreach.inv hr).step_mergeMetric he hstep, ih]

/-- A page a store faults on lies in the window: it is mapped, so it is in a region. -/
theorem Inv.inWindow_of_faults (hs : Inv cfg n A s) {q i : Nat} (hq : q < n)
    (hf : ((s.procs q).mem i).faultsOnWrite = true) : inWindow cfg i = true := by
  obtain ⟨b, size, hb, hin⟩ := hs.live_of_mapped hq fun hm => by
    rw [hm] at hf; simp [Mapping.faultsOnWrite] at hf
  have := (hs.sib q hq).regions.bounds b size hb
  unfold InRange at hin
  simp only [inWindow, Bool.and_eq_true, decide_eq_true_eq]
  omega

end Policy

/-! ## Counting a sibling's calls -/

attribute [simp] Action.sibling

/-- The page of a write fault of sibling `q`. -/
@[simp] def Action.faultPage (q : Nat) : Action → Option Nat
  | .fault q' i => if q' = q then some i else none
  | _ => none

/-- Whether an action is an allocation of sibling `q`. -/
@[simp] def Action.isMalloc (q : Nat) : Action → Bool
  | .malloc q' _ _ => q' == q
  | _ => false

/-- The pages of sibling `q`'s write faults among `acts`, in order. -/
def faultPages (q : Nat) (acts : List Action) : List Nat := acts.filterMap (Action.faultPage q)

/-- The number of sibling `q`'s `ShmMallocWrapper` calls among `acts` whose `mmap` ran. -/
def mallocCount (q : Nat) (acts : List Action) : Nat := acts.countP (Action.isMalloc q)

theorem faultPages_append_other {q : Nat} (acts : List Action) {a : Action} (h : a.sibling ≠ q) :
    faultPages q (acts ++ [a]) = faultPages q acts := by
  cases a <;> simp_all [faultPages, Action.faultPage, Action.sibling]

theorem mallocCount_append_other {q : Nat} (acts : List Action) {a : Action} (h : a.sibling ≠ q) :
    mallocCount q (acts ++ [a]) = mallocCount q acts := by
  cases a <;> simp_all [mallocCount, Action.isMalloc, Action.sibling]

/-- `MergeByTHRESHOLD` is still to run for the last fault. -/
def Work.testPending : Work → Bool
  | .thresholdTest => true
  | _ => false

/-- A traversal of `MergeByTHRESHOLD` is in progress. -/
def Work.inThreshold : Work → Bool
  | .threshold _ => true
  | _ => false

/-- A traversal of `MergeByALLOC_FREQUENCY` is in progress. -/
def Work.inAllocFrequency : Work → Bool
  | .allocFrequency _ _ => true
  | _ => false

/-- `MergeByBUFFERED` is in progress. -/
def Work.inBuffered : Work → Bool
  | .buffered _ _ => true
  | _ => false

/-- The statics of a sibling under policy `m`, against the pages `F` of its write faults and the
number `M` of its allocations so far: `countDownTimer` counts the calls of `MergeByTHRESHOLD`
modulo 100, `mallocRefCounter` the allocations modulo `mallocRefFreq`, and the buffer holds the
pages of the last `bufferPtr` faults. -/
def CtlOK (k : Knobs) : MergeMetric → List Nat → Nat → Ctl → Work → Prop
  | .threshold, F, _, c, w =>
    c.countDownTimer = 100 - (((F.length - if w.testPending then 1 else 0) % 100 : Nat) : Int) ∧
      (w.testPending → 0 < F.length) ∧ (w.inThreshold → F.length % 100 = 0)
  | .allocFrequency, _, M, c, w =>
    if w.inAllocFrequency then
      c.mallocRefCounter = k.mallocRefFreq ∧ (M + 1) % k.mallocRefFreq = 0
    else c.mallocRefCounter = M % k.mallocRefFreq
  | .buffered, F, _, c, w =>
    c.bufferPtr = (if F = [] then 0 else (F.length - 1) % bufferLength + 1) ∧
      (List.range c.bufferPtr).map c.bufferOfDirtyPages = F.drop (F.length - c.bufferPtr) ∧
      (w.inBuffered → c.bufferPtr = bufferLength)
  | .mergeDisabled, _, _, _, _ => True

/-- The counter after one more allocation: the pass runs exactly when the count reaches a
multiple of `mallocRefFreq`. -/
theorem tickMalloc_spec {f M c : Nat} (hf : 0 < f) (hc : c = M % f) :
    (c + 1) % f = (M + 1) % f ∧ ((c + 1) % f = 0 ↔ c + 1 = f) := by
  have hlt : c < f := hc ▸ Nat.mod_lt M hf
  refine ⟨by rw [hc, Nat.add_mod, Nat.mod_mod, ← Nat.add_mod],
    ⟨fun h => ?_, fun h => by simp [h]⟩⟩
  rcases Nat.lt_or_ge (c + 1) f with h' | h'
  · rw [Nat.mod_eq_of_lt h'] at h; omega
  · omega

/-- Appending a page below the end of the buffer. -/
theorem range_map_update (buf : Nat → Nat) (p i : Nat) :
    (List.range (p + 1)).map (Function.update buf p i) = (List.range p).map buf ++ [i] := by
  rw [List.range_succ, List.map_append, List.map_singleton, Function.update_same]
  congr 1
  exact List.map_congr_left fun j hj => Function.update_noteq (List.mem_range.1 hj).ne _ _

@[simp] theorem faultPages_append (q : Nat) (acts : List Action) (a : Action) :
    faultPages q (acts ++ [a]) = faultPages q acts ++ (a.faultPage q).toList := by
  rw [faultPages, faultPages, List.filterMap_append, List.filterMap_cons, List.filterMap_nil]
  cases a.faultPage q <;> rfl

@[simp] theorem mallocCount_append (q : Nat) (acts : List Action) (a : Action) :
    mallocCount q (acts ++ [a]) = mallocCount q acts + if a.isMalloc q then 1 else 0 := by
  simp [mallocCount, List.countP_append, List.countP_cons]

theorem Ctl.tickThreshold_countDownTimer (c : Ctl) (shm : Shm) :
    (c.tickThreshold shm).1.countDownTimer =
      if c.countDownTimer - 1 = 0 then 100 else c.countDownTimer - 1 := by
  simp only [Ctl.tickThreshold]; split_ifs <;> rfl

theorem Ctl.tickThreshold_due {c : Ctl} {shm : Shm} (h : (c.tickThreshold shm).2 = true) :
    c.countDownTimer - 1 = 0 := by
  simp only [Ctl.tickThreshold] at h; split_ifs at h with h0; exact h0

/-- One call of a pass, or the end of a traversal of `MergeByTHRESHOLD`. -/
inductive Work.Visit : Work → Work → Prop
  | threshold (key : Nat) (keys : List Nat) : Visit (.threshold (key :: keys)) (.threshold keys)
  | thresholdDone : Visit (.threshold []) .idle
  | allocFrequency (key : Nat) (keys : List Nat) (sz : Nat) :
      Visit (.allocFrequency (key :: keys) sz) (.allocFrequency keys sz)
  | buffered (t : Nat) (pages : List Nat) (i : Nat) :
      Visit (.buffered (t :: pages) i) (.buffered pages i)

section CtlOK

variable {k : Knobs} {m : MergeMetric} {F : List Nat} {M : Nat} {c : Ctl} {w : Work}

theorem CtlOK.init (cfg : Config) (k : Knobs) (m : MergeMetric) :
    CtlOK k m [] 0 (Ctl.init cfg k) .idle := by
  cases m <;> simp [CtlOK, Ctl.init, Work.testPending, Work.inThreshold, Work.inAllocFrequency,
    Work.inBuffered]

/-- A call of a pass changes no statics. -/
theorem CtlOK.visit (h : CtlOK k m F M c w) {w' : Work} (hv : w.Visit w') : CtlOK k m F M c w' := by
  cases hv <;> cases m <;>
    simp only [CtlOK, Work.testPending, Work.inThreshold, Work.inAllocFrequency, Work.inBuffered,
      if_true, if_false, Bool.false_eq_true, false_implies, true_implies, and_true] at h ⊢ <;>
    tauto

/-- A call that neither faults nor counts an allocation under `ALLOC_FREQUENCY`. -/
theorem CtlOK.call (h : CtlOK k m F M c .idle) (M' : Nat) (hM : m = .allocFrequency → M' = M) :
    CtlOK k m F M' c .idle := by
  cases m with
  | allocFrequency => rw [hM rfl]; exact h
  | _ => exact h

/-- A fault under `ALLOC_FREQUENCY` or `MERGE_DISABLED`. -/
theorem CtlOK.fault (h : CtlOK k m F M c .idle) (hm : m ≠ .buffered) (ht : m ≠ .threshold)
    (i : Nat) : CtlOK k m (F ++ [i]) M c .idle := by
  cases m with
  | allocFrequency => exact h
  | mergeDisabled => trivial
  | _ => contradiction

/-- A fault under `THRESHOLD`: `MergeByTHRESHOLD` is next. -/
theorem CtlOK.threshold_fault (h : CtlOK k .threshold F M c .idle) (i : Nat) :
    CtlOK k .threshold (F ++ [i]) M c .thresholdTest := by
  simpa [CtlOK, Work.testPending, Work.inThreshold] using h.1

/-- The countdown of `MergeByTHRESHOLD` lets the call through at every hundredth fault. -/
theorem CtlOK.threshold_tick (h : CtlOK k .threshold F M c .thresholdTest) (shm : Shm)
    (keys : List Nat) :
    CtlOK k .threshold F M (c.tickThreshold shm).1
      (if (c.tickThreshold shm).2 then .threshold keys else .idle) := by
  obtain ⟨hc, hpos, -⟩ := h
  simp only [Work.testPending, if_true, forall_const] at hc hpos
  have hcnt := c.tickThreshold_countDownTimer shm
  cases hd : (c.tickThreshold shm).2
  · simp only [CtlOK, Work.testPending, Work.inThreshold, if_false, Bool.false_eq_true,
      false_implies, and_true, Nat.sub_zero]
    split_ifs at hcnt <;> omega
  · have h0 := Ctl.tickThreshold_due hd
    rw [if_pos h0] at hcnt
    simp only [CtlOK, Work.testPending, Work.inThreshold, if_true, if_false, Bool.false_eq_true,
      false_implies, true_implies, true_and, Nat.sub_zero]
    omega

/-- A full buffer starts `MergeByBUFFERED`. -/
theorem CtlOK.buffered_full (h : CtlOK k .buffered F M c .idle) (hfull : c.bufferPtr = bufferLength)
    (i : Nat) : CtlOK k .buffered F M c (.buffered c.buffered i) :=
  ⟨h.1, h.2.1, fun _ => hfull⟩

/-- A page appended below the end of the buffer: the buffer holds the pages of the last
`bufferPtr` faults. -/
theorem CtlOK.buffered_push (h : CtlOK k .buffered F M c w) (hne : c.bufferPtr ≠ bufferLength)
    {i : Nat} {c' : Ctl} (hc : c.push i = some c') : CtlOK k .buffered (F ++ [i]) M c' .idle := by
  obtain ⟨hptr, hlist, -⟩ := h
  simp only [Ctl.push] at hc
  split_ifs at hc with hlt
  cases hc
  have hle : c.bufferPtr ≤ F.length := by
    split_ifs at hptr with hF
    · omega
    · have := List.length_pos.2 hF; unfold bufferLength at hptr; omega
  refine ⟨?_, ?_, fun h => absurd h (by simp [Work.inBuffered])⟩
  · have h1 : F ++ [i] ≠ [] := by simp
    show c.bufferPtr + 1 = _
    rw [if_neg h1, List.length_append, List.length_singleton, Nat.add_sub_cancel]
    split_ifs at hptr with hF
    · simp [hF, hptr]
    · have := List.length_pos.2 hF; unfold bufferLength at hptr hne ⊢; omega
  · show (List.range (c.bufferPtr + 1)).map
      (Function.update c.bufferOfDirtyPages c.bufferPtr i) = _
    rw [range_map_update, hlist, List.length_append, List.length_singleton,
      show F.length + 1 - (c.bufferPtr + 1) = F.length - c.bufferPtr by omega,
      List.drop_append_of_le_length (Nat.sub_le _ _)]

/-- `MergeByBUFFERED` empties the buffer, and the fault that waited on it is its first entry. -/
theorem CtlOK.buffered_flush (h : CtlOK k .buffered F M c w) (hw : w.inBuffered = true) {i : Nat}
    {c' : Ctl} (hc : { c with bufferPtr := 0 }.push i = some c') :
    CtlOK k .buffered (F ++ [i]) M c' .idle := by
  obtain ⟨hptr, -, hfull⟩ := h
  simp only [Ctl.push, bufferLength, Nat.ofNat_pos, if_true, Option.some.injEq] at hc
  subst hc
  have hF : F ≠ [] := by rintro rfl; simp [hfull hw, bufferLength] at hptr
  have h0 : F.length % 10000 = 0 := by
    have := List.length_pos.2 hF; simp only [if_neg hF, hfull hw, bufferLength] at hptr; omega
  refine ⟨?_, ?_, fun h => absurd h (by simp [Work.inBuffered])⟩
  · simp [bufferLength, h0]
  · simp [List.drop_left', List.range_succ]

/-- `MergeByALLOC_FREQUENCY` starts a traversal at a multiple of `mallocRefFreq`. -/
theorem CtlOK.alloc_due (h : CtlOK k .allocFrequency F M c .idle)
    (hdue : (c.mallocRefCounter + 1) % k.mallocRefFreq = 0) (keys : List Nat) (sz : Nat) :
    CtlOK k .allocFrequency F M { c with mallocRefCounter := c.mallocRefCounter + 1 }
      (.allocFrequency keys sz) := by
  have hc : c.mallocRefCounter = M % k.mallocRefFreq := h
  obtain ⟨h1, h2⟩ := tickMalloc_spec k.mallocRefFreq_pos hc
  exact ⟨h2.1 hdue, h1 ▸ hdue⟩

/-- Otherwise the allocation only counts. -/
theorem CtlOK.alloc_not_due (h : CtlOK k .allocFrequency F M c .idle)
    (hdue : ¬(c.mallocRefCounter + 1) % k.mallocRefFreq = 0) :
    CtlOK k .allocFrequency F (M + 1) { c with mallocRefCounter := c.mallocRefCounter + 1 }
      .idle := by
  have hc : c.mallocRefCounter = M % k.mallocRefFreq := h
  obtain ⟨h1, h2⟩ := tickMalloc_spec k.mallocRefFreq_pos hc
  have hlt : c.mallocRefCounter + 1 < k.mallocRefFreq := by
    have := hc ▸ Nat.mod_lt M k.mallocRefFreq_pos
    exact lt_of_le_of_ne this fun he => hdue (h2.2 he)
  show c.mallocRefCounter + 1 = (M + 1) % k.mallocRefFreq
  rw [← h1, Nat.mod_eq_of_lt hlt]

/-- The traversal done, the counter restarts and the allocation counts. -/
theorem CtlOK.alloc_done (h : CtlOK k .allocFrequency F M c (.allocFrequency [] sz)) :
    CtlOK k .allocFrequency F (M + 1) { c with mallocRefCounter := 0 } .idle :=
  h.2.symm

end CtlOK

/-! ## The invariant under the controllers -/

section Sched

variable {cfg : Config} {k : Knobs} {n : Nat}

/-- The buffer of dirty pages stays inside its array and holds pages of the window. -/
def BufOK (cfg : Config) (c : Ctl) : Prop :=
  c.bufferPtr ≤ bufferLength ∧ ∀ j < c.bufferPtr, inWindow cfg (c.bufferOfDirtyPages j) = true

/-- A page of the window appended below the end of the array. -/
theorem BufOK.push {c : Ctl} (hb : BufOK cfg c) (hlt : c.bufferPtr < bufferLength) {i : Nat}
    (hi : inWindow cfg i = true) : ∃ c', c.push i = some c' ∧ BufOK cfg c' := by
  refine ⟨_, if_pos hlt, hlt, fun j hj => ?_⟩
  rcases eq_or_ne j c.bufferPtr with rfl | hne
  · simpa using hi
  · simp only [Function.update_noteq hne]; exact hb.2 j (by simp at hj; omega)

/-- The countdown of `MergeByTHRESHOLD` leaves the buffer alone. -/
theorem BufOK.tickThreshold {c : Ctl} (hb : BufOK cfg c) (shm : Shm) :
    BufOK cfg (c.tickThreshold shm).1 := by
  simp only [Ctl.tickThreshold]; split_ifs <;> exact hb

/-- What a sibling's pending work needs of its state: the policy that started it, regions for the
bases left to visit, pages of the window for the buffered pages left, and a read-only page for the
fault that waits on `MergeByBUFFERED`. -/
def WorkOK (cfg : Config) (p : Proc) : Work → Prop
  | .idle => True
  | .thresholdTest => p.mergeMetric = .threshold
  | .threshold keys => p.mergeMetric = .threshold ∧ ∀ key ∈ keys, (p.allocRecord key).isSome
  | .allocFrequency keys _ =>
    p.mergeMetric = .allocFrequency ∧ ∀ key ∈ keys, (p.allocRecord key).isSome
  | .buffered pages i =>
    p.mergeMetric = .buffered ∧ (∀ t ∈ pages, inWindow cfg t = true) ∧
      (p.mem i).faultsOnWrite = true

/-- What holds of the node under the controllers: the node is reachable in the node model by the
actions taken, and every sibling's pending work, buffer and statics are as they need to be. -/
structure SInv (cfg : Config) (k : Knobs) (n : Nat) (rank : Nat → Nat)
    (metric : Nat → MergeMetric) (acts : List Action) (ss : Sched) : Prop where
  reach : Reachable cfg n rank metric acts ss.node
  work : ∀ q < n, WorkOK cfg (ss.node.procs q) (ss.work q)
  buf : ∀ q < n, BufOK cfg (ss.ctl q)
  ctl : ∀ q < n,
    CtlOK k (metric q) (faultPages q acts) (mallocCount q acts) (ss.ctl q) (ss.work q)

variable {rank : Nat → Nat} {metric : Nat → MergeMetric} {acts : List Action} {ss : Sched}

theorem SInv.init : SInv cfg k n rank metric [] (Sched.init cfg k n rank metric) :=
  ⟨.init, fun _ _ => trivial,
    fun _ _ => ⟨Nat.zero_le _, fun _ h => absurd h (Nat.not_lt_zero _)⟩,
    fun q _ => CtlOK.init cfg k (metric q)⟩

/-- Sibling `q` changes its statics and work only. -/
theorem SInv.hold (hs : SInv cfg k n rank metric acts ss) {q : Nat} {c : Ctl} {w : Work}
    (hw : WorkOK cfg (ss.node.procs q) w) (hb : BufOK cfg c)
    (hc : CtlOK k (metric q) (faultPages q acts) (mallocCount q acts) c w) :
    ∃ ss' as, ss.hold q c w = some (ss', as) ∧ SInv cfg k n rank metric (acts ++ as) ss' := by
  refine ⟨_, _, rfl, by simpa using hs.reach, fun q' hq' => ?_, fun q' hq' => ?_,
    fun q' hq' => ?_⟩ <;> rcases eq_or_ne q' q with rfl | hne
  · simpa using hw
  · rw [Sched.set_work_other _ _ _ _ hne]; exact hs.work q' hq'
  · simpa using hb
  · rw [Sched.set_ctl_other _ _ _ _ hne]; exact hs.buf q' hq'
  · simpa using hc
  · rw [Sched.set_ctl_other _ _ _ _ hne, Sched.set_work_other _ _ _ _ hne, List.append_nil]
    exact hs.ctl q' hq'

variable (hr : RanksOK cfg n rank)
include hr

/-- Sibling `q` runs an enabled node action: under the invariant it returns, and the node moves
one step of the node model. -/
theorem SInv.act (hs : SInv cfg k n rank metric acts ss) {q : Nat} (a : Action) (ha : a.sibling = q)
    (he : Enabled cfg n ss.node a) {c : Ctl} {w : Work}
    (hw : ∀ s', step MapEnv.ok cfg ss.node a = some s' → WorkOK cfg (s'.procs q) w)
    (hb : BufOK cfg c)
    (hc : CtlOK k (metric q) (faultPages q (acts ++ [a])) (mallocCount q (acts ++ [a])) c w) :
    ∃ ss' as, ss.act MapEnv.ok cfg q a c w = some (ss', as) ∧
      SInv cfg k n rank metric (acts ++ as) ss' := by
  obtain ⟨s', hs'⟩ := Option.isSome_iff_exists.1 ((hs.reach.inv hr).step_isSome he)
  refine ⟨ss.set q s' c w, [a], by simp [Sched.act, hs'], hs.reach.step a he hs',
    fun q' hq' => ?_, fun q' hq' => ?_, fun q' hq' => ?_⟩ <;> rcases eq_or_ne q' q with rfl | hne
  · simpa using hw s' hs'
  · rw [Sched.set_work_other _ _ _ _ hne, Sched.set_node, step_procs_other hs' (ha ▸ hne)]
    exact hs.work q' hq'
  · simpa using hb
  · rw [Sched.set_ctl_other _ _ _ _ hne]; exact hs.buf q' hq'
  · simpa using hc
  · rw [Sched.set_ctl_other _ _ _ _ hne, Sched.set_work_other _ _ _ _ hne,
      faultPages_append_other _ (ha ▸ hne.symm), mallocCount_append_other _ (ha ▸ hne.symm)]
    exact hs.ctl q' hq'

/-- `ShmMallocWrapper`: under `ALLOC_FREQUENCY` the counter ticks, and every `mallocRefFreq`-th
call first runs the traversal of `MergeByALLOC_FREQUENCY`. -/
theorem SInv.malloc (hs : SInv cfg k n rank metric acts ss) {q sz base : Nat}
    (he : SEnabled cfg n ss (.malloc q sz base)) :
    ∃ ss' as, schedStep MapEnv.ok cfg k ss (.malloc q sz base) = some (ss', as) ∧
      SInv cfg k n rank metric (acts ++ as) ss' := by
  have hmet : metric q = (ss.node.procs q).mergeMetric := (hs.reach.mergeMetric hr q).symm
  obtain ⟨hidle, he⟩ := he
  have hc := hs.ctl q he.1
  rw [hidle, hmet] at hc
  simp only [schedStep, Ctl.tickMalloc, beq_iff_eq]
  split_ifs with hm hdue
  · rw [hm] at hc
    exact hs.hold ⟨hm, fun key hk => (List.mem_filter.1 hk).2⟩ (hs.buf q he.1)
      (by rw [hmet, hm]; exact hc.alloc_due hdue _ _)
  · rw [hm] at hc
    exact hs.act hr _ rfl he (fun _ _ => trivial) (hs.buf q he.1)
      (by simpa [hmet, hm] using hc.alloc_not_due hdue)
  · exact hs.act hr _ rfl he (fun _ _ => trivial) (hs.buf q he.1)
      (by simpa [hmet] using hc.call (mallocCount q acts + 1) fun h => absurd h hm)

/-- `SigSegvHandler`: under `BUFFERED` the page is buffered, or a full buffer starts
`MergeByBUFFERED` first; under `THRESHOLD` the countdown of `MergeByTHRESHOLD` follows. -/
theorem SInv.fault (hs : SInv cfg k n rank metric acts ss) {q i : Nat}
    (he : SEnabled cfg n ss (.fault q i)) :
    ∃ ss' as, schedStep MapEnv.ok cfg k ss (.fault q i) = some (ss', as) ∧
      SInv cfg k n rank metric (acts ++ as) ss' := by
  have hI := hs.reach.inv hr
  have hmet : metric q = (ss.node.procs q).mergeMetric := (hs.reach.mergeMetric hr q).symm
  obtain ⟨hidle, he⟩ := he
  have hb := hs.buf q he.1
  have hc := hs.ctl q he.1
  rw [hidle, hmet] at hc
  simp only [schedStep]
  split
  · rename_i hm
    rw [hm] at hc
    split_ifs with hfull
    · refine hs.hold ⟨hm, fun t ht => ?_, he.2⟩ hb
        (by rw [hmet, hm]; exact hc.buffered_full hfull i)
      obtain ⟨j, hj, rfl⟩ := List.mem_map.1 ht
      exact hb.2 j (hfull ▸ List.mem_range.1 hj)
    · obtain ⟨c', hc', hb'⟩ :=
        hb.push (lt_of_le_of_ne hb.1 hfull) (hI.inWindow_of_faults he.1 he.2)
      rw [hc', Option.some_bind]
      exact hs.act hr _ rfl he (fun _ _ => trivial) hb'
        (by simpa [hmet, hm] using hc.buffered_push hfull hc')
  · rename_i hm
    rw [hm] at hc
    exact hs.act hr _ rfl he (fun s' h' => (hI.step_mergeMetric he h' q).trans hm) hb
      (by simpa [hmet, hm] using hc.threshold_fault i)
  · rename_i hb₁ ht
    exact hs.act hr _ rfl he (fun _ _ => trivial) hb
      (by simpa [hmet] using hc.fault hb₁ ht i)

/-- The next step of a sibling's pending call. -/
theorem SInv.resume (hs : SInv cfg k n rank metric acts ss) {q base : Nat}
    (he : SEnabled cfg n ss (.resume q base)) :
    ∃ ss' as, schedStep MapEnv.ok cfg k ss (.resume q base) = some (ss', as) ∧
      SInv cfg k n rank metric (acts ++ as) ss' := by
  have hI := hs.reach.inv hr
  have hmet : metric q = (ss.node.procs q).mergeMetric := (hs.reach.mergeMetric hr q).symm
  obtain ⟨hq, hidle, hmal⟩ := he
  have hw := hs.work q hq
  have hb := hs.buf q hq
  have hc := hs.ctl q hq
  simp only [schedStep]
  split
  · contradiction
  · rename_i hwork
    rw [hwork] at hw hc
    rw [hmet, hw] at hc
    have hb' := hb.tickThreshold ss.node.shm
    have hc' := hc.threshold_tick ss.node.shm (regionKeys cfg (ss.node.procs q))
    generalize (ss.ctl q).tickThreshold ss.node.shm = r at hb' hc' ⊢
    obtain ⟨c', _ | _⟩ := r
    · exact hs.hold trivial hb' (by rw [hmet, hw]; exact hc')
    · exact hs.hold ⟨hw, fun key hk => (List.mem_filter.1 hk).2⟩ hb'
        (by rw [hmet, hw]; exact hc')
  · rename_i hwork
    rw [hwork] at hc
    exact hs.hold trivial hb (hc.visit .thresholdDone)
  · rename_i key keys hwork
    rw [hwork] at hw hc
    exact hs.act hr (.mergeNode q key) rfl ⟨hq, .inl hw.1, hw.2 key (List.mem_cons_self _ _)⟩
      (fun _ h' => hI.traversal_step hq hw h') hb (by simpa using hc.visit (.threshold key keys))
  · rename_i sz hwork
    rw [hwork] at hw hc
    rw [hmet, hw.1] at hc
    exact hs.act hr _ rfl (hmal sz hwork) (fun _ _ => trivial) hb
      (by simpa [hmet, hw.1] using hc.alloc_done)
  · rename_i key keys sz hwork
    rw [hwork] at hw hc
    exact hs.act hr (.mergeNode q key) rfl ⟨hq, .inr hw.1, hw.2 key (List.mem_cons_self _ _)⟩
      (fun _ h' => hI.traversal_step hq hw h') hb
      (by simpa using hc.visit (.allocFrequency key keys sz))
  · rename_i i hwork
    rw [hwork] at hw hc
    rw [hmet, hw.1] at hc
    have h0 : BufOK cfg { ss.ctl q with bufferPtr := 0 } :=
      ⟨Nat.zero_le _, fun j hj => absurd hj (Nat.not_lt_zero _)⟩
    obtain ⟨c', hc', hb'⟩ :=
      h0.push (by simp [bufferLength]) (hI.inWindow_of_faults hq hw.2.2)
    rw [hc', Option.some_bind]
    exact hs.act hr (.fault q i) rfl ⟨hq, hw.2.2⟩ (fun _ _ => trivial) hb'
      (by simpa [hmet, hw.1] using hc.buffered_flush rfl hc')
  · rename_i t pages i hwork
    rw [hwork] at hw hc
    rw [if_pos (hw.2.1 t (List.mem_cons_self _ _))]
    have hw' : WorkOK cfg (ss.node.procs q) (.buffered pages i) :=
      ⟨hw.1, fun t' ht => hw.2.1 t' (List.mem_cons_of_mem _ ht), hw.2.2⟩
    split_ifs with hinit
    · have he : Enabled cfg n ss.node (.mergePage q t) := ⟨hq, hw.1, hinit⟩
      exact hs.act hr _ rfl he (fun s' h' =>
        ⟨(hI.step_mergeMetric he h' q).trans hw.1, hw'.2.1,
          step_mergePage_faultsOnWrite h' hw.2.2⟩)
        hb (by simpa using hc.visit (.buffered t pages i))
    · exact hs.hold hw' hb (hc.visit (.buffered t pages i))

/-- One enabled event: it returns, and the invariant holds after it. -/
theorem SInv.next (hs : SInv cfg k n rank metric acts ss) {ev : Event}
    (he : SEnabled cfg n ss ev) :
    ∃ ss' as, schedStep MapEnv.ok cfg k ss ev = some (ss', as) ∧
      SInv cfg k n rank metric (acts ++ as) ss' := by
  cases ev with
  | malloc => exact hs.malloc hr he
  | free q ptr =>
    exact hs.act hr _ rfl he.2 (fun _ _ => trivial) (hs.buf q he.2)
      (by simpa [he.1] using hs.ctl q he.2)
  | fault => exact hs.fault hr he
  | store q i o v =>
    exact hs.act hr _ rfl he.2 (fun _ _ => trivial) (hs.buf q he.2.1)
      (by simpa [he.1] using hs.ctl q he.2.1)
  | resume => exact hs.resume hr he

/-- Every state the controllers reach satisfies the invariant. -/
theorem SReachable.sinv (h : SReachable cfg k n rank metric acts ss) :
    SInv cfg k n rank metric acts ss := by
  induction h with
  | init => exact SInv.init
  | step ev _ he hstep ih =>
    obtain ⟨ss', as', h', hI⟩ := ih.next hr he
    rw [hstep] at h'
    obtain ⟨rfl, rfl⟩ := Prod.mk.inj (Option.some.inj h')
    exact hI

end Sched

/-! ## Three runs of `storeProgram`

Sibling `0` of two allocates one page, faults on it and stores `7`, under `THRESHOLD` (where the
fault is followed by the countdown of `MergeByTHRESHOLD`), `ALLOC_FREQUENCY` and `BUFFERED`. -/

theorem storeProgram_sreachable_threshold :
    ∃ ss, SReachable Config.page4k Knobs.default 2 id (fun _ => .threshold) storeProgram ss ∧
      ss.work 0 = .idle := by
  have h₀ : SReachable Config.page4k Knobs.default 2 id (fun _ => .threshold) [] _ := .init
  have h₁ :=
    h₀.step (.malloc 0 4096 1) ⟨rfl, by decide, le_rfl, by decide, fun _ _ => rfl⟩ rfl
  have h₂ := h₁.step (.fault 0 1) ⟨rfl, by decide, rfl⟩ rfl
  have h₃ := h₂.step (.resume 0 0) ⟨by decide, by decide, fun _ h => by cases h⟩ rfl
  exact ⟨_, h₃.step (.store 0 1 0 7) ⟨rfl, by decide, rfl, by decide⟩ rfl, rfl⟩

theorem storeProgram_sreachable_allocFrequency :
    ∃ ss, SReachable Config.page4k Knobs.default 2 id (fun _ => .allocFrequency)
      storeProgram ss ∧
      ss.work 0 = .idle := by
  have h₀ : SReachable Config.page4k Knobs.default 2 id (fun _ => .allocFrequency) [] _ := .init
  have h₁ :=
    h₀.step (.malloc 0 4096 1) ⟨rfl, by decide, le_rfl, by decide, fun _ _ => rfl⟩ rfl
  have h₂ := h₁.step (.fault 0 1) ⟨rfl, by decide, rfl⟩ rfl
  exact ⟨_, h₂.step (.store 0 1 0 7) ⟨rfl, by decide, rfl, by decide⟩ rfl, rfl⟩

theorem storeProgram_sreachable_buffered :
    ∃ ss, SReachable Config.page4k Knobs.default 2 id (fun _ => .buffered) storeProgram ss := by
  have h₀ : SReachable Config.page4k Knobs.default 2 id (fun _ => .buffered) [] _ := .init
  have h₁ :=
    h₀.step (.malloc 0 4096 1) ⟨rfl, by decide, le_rfl, by decide, fun _ _ => rfl⟩ rfl
  have h₂ := h₁.step (.fault 0 1) ⟨rfl, by decide, rfl⟩ rfl
  exact ⟨_, h₂.step (.store 0 1 0 7) ⟨rfl, by decide, rfl, by decide⟩ rfl⟩

/-! ## Runs -/

section Runs

variable {cfg : Config} {k : Knobs} {n : Nat} {rank : Nat → Nat} {metric : Nat → MergeMetric}
  {acts : List Action} {ss : Sched}

/-- Under the merge controllers, whatever the interleaving of the siblings' calls, faults and pass
steps, the node is a state of the node model reached by the node actions taken, and every byte of
every live page reads what the passthrough allocator holds after those actions. -/
theorem SReachable.refines_node (hr : RanksOK cfg n rank)
    (h : SReachable cfg k n rank metric acts ss) :
    Reachable cfg n rank metric acts ss.node ∧
      ∀ q < n, ∀ i o, (ss.node.procs q).Live i → o < cfg.pageSize →
        ss.node.readByte q i o = some ((Pass.run cfg acts).bytes q i o) := by
  have hreach := (h.sinv hr).reach
  refine ⟨hreach, fun q hq i o hl ho => ?_⟩
  obtain ⟨c, hc, hco⟩ := ((hreach.inv hr).refines q hq).bytes i hl
  simp [Node.readByte, hc, hco o ho]


theorem refines_node_storeProgram :
    ∃ ss, SReachable Config.page4k Knobs.default 2 id (fun _ => .threshold) storeProgram ss ∧
      ss.node.readByte 0 1 0 = some 7 := by
  obtain ⟨ss, h, -⟩ := storeProgram_sreachable_threshold
  obtain ⟨hreach, hb⟩ := SReachable.refines_node ranksOK_page4k h
  exact ⟨ss, h, (hb 0 (by decide) 1 0 (storeProgram_live hreach) (by decide)).trans rfl⟩

/-- A write fault of a sibling whose `SigSegvHandler` runs no merge pass, that is under any policy
but `THRESHOLD` and, under `BUFFERED`, with room left in `bufferOfDirtyPages`: from every state the
controllers reach it returns in one event, with no work left, and leaves the page writable, so the
store that faulted succeeds when it is retried. -/
theorem SReachable.fault_then_store (hr : RanksOK cfg n rank)
    (h : SReachable cfg k n rank metric acts ss) {q i : Nat} (he : SEnabled cfg n ss (.fault q i))
    (hmet : metric q ≠ .threshold)
    (hroom : metric q = .buffered → (ss.ctl q).bufferPtr ≠ bufferLength)
    {o : Nat} (ho : o < cfg.pageSize) (v : UInt8) :
    ∃ ss' as, schedStep MapEnv.ok cfg k ss (.fault q i) = some (ss', as) ∧ ss'.work q = .idle ∧
      ((ss'.node.procs q).mem i).writable = true ∧
      (schedStep MapEnv.ok cfg k ss' (.store q i o v)).isSome := by
  have hs := h.sinv hr
  obtain ⟨-, he⟩ := he
  have hmq : (ss.node.procs q).mergeMetric = metric q := hs.reach.mergeMetric hr q
  obtain ⟨s', hs', hw⟩ := (hs.reach.inv hr).fault_writable he
  -- the handler appends a buffered page and runs its critical section, and nothing else
  obtain ⟨c, hsched⟩ : ∃ c, schedStep MapEnv.ok cfg k ss (.fault q i) =
      some (ss.set q s' c .idle, [.fault q i]) := by
    simp only [schedStep, hmq]
    cases hm : metric q with
    | threshold => exact absurd hm hmet
    | buffered =>
      have hlt : (ss.ctl q).bufferPtr < bufferLength :=
        lt_of_le_of_ne (hs.buf q he.1).1 (hroom hm)
      simp only [if_neg (hroom hm), Ctl.push, if_pos hlt, Option.some_bind, Sched.act, hs',
        Option.map_some']
      exact ⟨_, rfl⟩
    | mergeDisabled | allocFrequency =>
      exact ⟨ss.ctl q, by simp only [Sched.act, hs', Option.map_some']⟩
  refine ⟨_, _, hsched, Sched.set_work_self .., by rwa [Sched.set_node], ?_⟩
  have hreach' := (hs.reach.step _ he hs').inv hr
  simpa [schedStep, Sched.act] using
    hreach'.step_isSome (show Enabled cfg n s' (.store q i o v) from ⟨he.1, hw, ho⟩)

/-- Under `BUFFERED`, sibling `0` allocates one page and faults on it with an empty buffer. -/
theorem fault_then_store_buffered :
    ∃ ss ss' as, SReachable Config.page4k Knobs.default 2 id (fun _ => .buffered)
        [.malloc 0 4096 1] ss ∧
      schedStep MapEnv.ok Config.page4k Knobs.default ss (.fault 0 1) = some (ss', as) ∧
      ss'.work 0 = .idle ∧ ((ss'.node.procs 0).mem 1).writable = true ∧
      (schedStep MapEnv.ok Config.page4k Knobs.default ss' (.store 0 1 0 7)).isSome := by
  have h₀ : SReachable Config.page4k Knobs.default 2 id (fun _ => .buffered) [] _ := .init
  have h₁ :=
    h₀.step (.malloc 0 4096 1) ⟨rfl, by decide, le_rfl, by decide, fun _ _ => rfl⟩ rfl
  obtain ⟨ss', as, h₂, h₃, h₄, h₅⟩ := SReachable.fault_then_store ranksOK_page4k h₁ (q := 0)
    (i := 1) ⟨rfl, by decide, rfl⟩ (by decide) (fun _ => by decide) (o := 0) (by decide) 7
  exact ⟨_, ss', as, h₁, h₂, h₃, h₄, h₅⟩

/-- `THRESHOLD`: `countDownTimer` is 100 less the number of the sibling's calls of
`MergeByTHRESHOLD` modulo 100, one per write fault, and a traversal runs only after a multiple of
100 faults. -/
theorem SReachable.countDownTimer_eq (hr : RanksOK cfg n rank)
    (h : SReachable cfg k n rank metric acts ss) {q : Nat} (hq : q < n)
    (hm : metric q = .threshold) :
    (ss.ctl q).countDownTimer = 100 - ((((faultPages q acts).length -
        if ss.work q = .thresholdTest then 1 else 0) % 100 : Nat) : Int) ∧
      ∀ keys, ss.work q = .threshold keys → (faultPages q acts).length % 100 = 0 := by
  have hc := (h.sinv hr).ctl q hq
  rw [hm] at hc
  obtain ⟨h1, -, h3⟩ := hc
  have ht : (ss.work q).testPending = decide (ss.work q = .thresholdTest) := by
    cases ss.work q <;> rfl
  refine ⟨by simpa [ht] using h1, fun keys hk => h3 (by rw [hk]; rfl)⟩


theorem countDownTimer_eq_storeProgram :
    ∃ ss, SReachable Config.page4k Knobs.default 2 id (fun _ => .threshold) storeProgram ss ∧
      (ss.ctl 0).countDownTimer = 99 := by
  obtain ⟨ss, h, hw⟩ := storeProgram_sreachable_threshold
  obtain ⟨hc, -⟩ := SReachable.countDownTimer_eq ranksOK_page4k h (q := 0) (by decide) rfl
  exact ⟨ss, h, by rw [hc, hw]; rfl⟩

/-- `ALLOC_FREQUENCY`: outside a traversal `mallocRefCounter` is the number of the sibling's
allocations modulo `mallocRefFreq`; a traversal runs exactly before every `mallocRefFreq`-th one. -/
theorem SReachable.mallocRefCounter_eq (hr : RanksOK cfg n rank)
    (h : SReachable cfg k n rank metric acts ss) {q : Nat} (hq : q < n)
    (hm : metric q = .allocFrequency) :
    ((∀ keys sz, ss.work q ≠ .allocFrequency keys sz) →
        (ss.ctl q).mallocRefCounter = mallocCount q acts % k.mallocRefFreq) ∧
      ∀ keys sz, ss.work q = .allocFrequency keys sz →
        (ss.ctl q).mallocRefCounter = k.mallocRefFreq ∧
          (mallocCount q acts + 1) % k.mallocRefFreq = 0 := by
  have hc := (h.sinv hr).ctl q hq
  rw [hm] at hc
  refine ⟨fun hne => ?_, fun keys sz hk => ?_⟩
  · have : (ss.work q).inAllocFrequency = false := by
      cases hw : ss.work q <;> first | rfl | exact absurd hw (hne _ _)
    simpa [CtlOK, this] using hc
  · simpa [CtlOK, hk, Work.inAllocFrequency] using hc


theorem mallocRefCounter_eq_storeProgram :
    ∃ ss, SReachable Config.page4k Knobs.default 2 id (fun _ => .allocFrequency)
      storeProgram ss ∧
      (ss.ctl 0).mallocRefCounter = 1 := by
  obtain ⟨ss, h, hw⟩ := storeProgram_sreachable_allocFrequency
  obtain ⟨hc, -⟩ := SReachable.mallocRefCounter_eq ranksOK_page4k h (q := 0) (by decide) rfl
  exact ⟨ss, h, (hc fun _ _ => by rw [hw]; exact Work.noConfusion).trans rfl⟩

/-- `BUFFERED`: `bufferPtr` is 0 before the first write fault and `((f - 1) mod BUFFER_LENGTH) + 1`
after `f` of them, and `bufferOfDirtyPages[0 .. bufferPtr - 1]` holds the pages of the last
`bufferPtr` faults in order, so `MergeByBUFFERED` runs at every fault after a multiple of
`BUFFER_LENGTH` over the pages of the faults before it. -/
theorem SReachable.bufferOfDirtyPages_eq (hr : RanksOK cfg n rank)
    (h : SReachable cfg k n rank metric acts ss) {q : Nat} (hq : q < n)
    (hm : metric q = .buffered) :
    (ss.ctl q).bufferPtr = (if faultPages q acts = [] then 0
        else ((faultPages q acts).length - 1) % bufferLength + 1) ∧
      (List.range (ss.ctl q).bufferPtr).map (ss.ctl q).bufferOfDirtyPages =
        (faultPages q acts).drop ((faultPages q acts).length - (ss.ctl q).bufferPtr) := by
  have hc := (h.sinv hr).ctl q hq
  rw [hm] at hc
  exact ⟨hc.1, hc.2.1⟩



theorem bufferOfDirtyPages_eq_storeProgram :
    ∃ ss, SReachable Config.page4k Knobs.default 2 id (fun _ => .buffered) storeProgram ss ∧
      (ss.ctl 0).bufferPtr = 1 ∧ (ss.ctl 0).bufferOfDirtyPages 0 = 1 := by
  obtain ⟨ss, h⟩ := storeProgram_sreachable_buffered
  obtain ⟨hp, hb⟩ := SReachable.bufferOfDirtyPages_eq ranksOK_page4k h (q := 0) (by decide) rfl
  have hF : faultPages 0 storeProgram = [1] := rfl
  have hp' : (ss.ctl 0).bufferPtr = 1 := by rw [hp, hF]; rfl
  rw [hp', hF] at hb
  exact ⟨ss, h, hp', by simpa [List.range_succ] using hb⟩

end Runs

end SbllMalloc.SharedHeap
