import SbllMalloc.SharedHeap.StepInv
import SbllMalloc.SharedHeap.AllocInv
import SbllMalloc.SharedHeap.MergeLoop

/-!
# Runs of the node

Every enabled action keeps `Inv`, the passthrough allocator taking the same action
(`Inv.next`), so every reachable state satisfies `Inv` against the passthrough allocator run on
the program that reached it (`Reachable.inv`). Under `Inv` no enabled action fails: the handler
never hits its `ASSERTX`, and every fault and every merge returns (`Inv.step_isSome`).

The main results read `Inv` back on every reachable state: the bytes each sibling reads, the
state of each page, and the statistics.
-/

namespace SbllMalloc.SharedHeap

variable {cfg : Config} {n : Nat} {A : Pass} {s s' : Node} {q : Nat}

/-- One enabled action keeps the invariant, the passthrough allocator taking the same action. -/
theorem Inv.next (hs : Inv cfg n A s) {a : Action} (he : Enabled cfg n s a)
    (h : step MapEnv.ok cfg s a = some s') : Inv cfg n (A.step cfg a) s' := by
  cases a with
  | malloc => exact hs.malloc he h
  | free => exact hs.free he h
  | fault => exact hs.fault he.1 he.2 h
  | store => exact hs.store he.1 he.2.1 h
  | mergeNode => exact hs.mergeNode he h
  | mergePage => exact hs.mergePage he h

/-! ## No enabled action fails -/

/-- `MergePages` returns on a mapped page when its mapping calls succeed. -/
theorem mergePages_ok_isSome (cfg : Config) {p : Proc} (shm : Shm) {i : Nat}
    (hm : p.mem i ≠ .unmapped) : (mergePages MapEnv.ok cfg p shm i).isSome := by
  obtain ⟨c, hc⟩ : ∃ c, (p.mem i).content shm.frames = some c := by
    cases h : p.mem i <;> simp_all [Mapping.content]
  simp only [mergePages, MapEnv.ok, hc, Bool.not_true, Bool.false_eq_true, if_false,
    Option.bind_eq_bind, Option.some_bind]
  split_ifs <;> rfl

/-- A write fault on a read-only page of a live region takes one of the three branches of
`SigSegvHandler`, none of which fails: a shared page has at most `*aliveProcs` holders. -/
theorem Inv.fault_isSome (hs : Inv cfg n A s) (hq : q < n) {i : Nat}
    (hf : ((s.procs q).mem i).faultsOnWrite = true) : (step MapEnv.ok cfg s (.fault q i)).isSome := by
  have hl := hs.live_of_mapped hq (by intro hm; rw [hm] at hf; simp [Mapping.faultsOnWrite] at hf)
  simp only [step, Option.bind_eq_bind]
  rcases (hs.liveState hq hl).of_faults hf with ⟨h1, -⟩ | ⟨h1, h2, -⟩ | ⟨h1, h2, h3, h4⟩
  · simp [sigSegvHandler_first _ _ _ h1]
  · simp [sigSegvHandler_zero _ _ _ h1 h2]
  · rw [sigSegvHandler_shared _ _ _ h1 h2 h3 (unshareCounters_of_le _ (hs.pop_unset_le hq h3))
      (by rw [h4]; exact Mapping.content_file _ _ _)]
    rfl

/-- Under the invariant every enabled action returns a state. -/
theorem Inv.step_isSome (hs : Inv cfg n A s) {a : Action} (he : Enabled cfg n s a) :
    (step MapEnv.ok cfg s a).isSome := by
  cases a with
  | malloc | free => rfl
  | fault q i => exact hs.fault_isSome he.1 he.2
  | store q i o v =>
    have hl : (s.procs q).Live i := hs.live_of_mapped he.1 fun hm => by
      have := he.2.1; simp [hm, Mapping.writable] at this
    obtain ⟨c, hc, -⟩ := (hs.liveState he.1 hl).of_writable he.2.1
    simp [step, storeByte, hc]
  | mergeNode q key =>
    obtain ⟨hq, hmetric, hkey⟩ := he
    obtain ⟨size, hsize⟩ := Option.isSome_iff_exists.1 hkey
    by_cases hd : (s.procs q).dirty key = true
    · obtain ⟨p', shm', cnt, hm, -⟩ := hs.manyPages hq hmetric fun j hj => ⟨key, size, hsize, hj⟩
      simp [step, mergeNode2, hsize, hd, hm]
    · simp [step, mergeNode2, hsize, hd]
  | mergePage q i =>
    obtain ⟨hq, -, hinit⟩ := he
    have hl := hs.live_of_init hq hinit
    obtain ⟨r, hr⟩ := Option.isSome_iff_exists.1
      (mergePages_ok_isSome cfg s.shm ((hs.liveState hq hl).ne_unmapped))
    simp [step, hr]

/-! ## Reachable states -/

section Runs

variable {rank : Nat → Nat} {metric : Nat → MergeMetric} {acts : List Action}

theorem Pass.run_append (cfg : Config) (acts : List Action) (a : Action) :
    Pass.run cfg (acts ++ [a]) = (Pass.run cfg acts).step cfg a := by
  simp [Pass.run, List.foldl_append]

theorem steps_append (env : MapEnv) (cfg : Config) (s : Node) (acts acts' : List Action) :
    steps env cfg s (acts ++ acts') = (steps env cfg s acts).bind fun s' => steps env cfg s' acts' :=
  List.foldlM_append _ _ _ _

/-- A reachable state is what the program that reaches it computes. -/
theorem Reachable.steps (h : Reachable cfg n rank metric acts s) :
    SharedHeap.steps MapEnv.ok cfg (Node.init n rank metric) acts = some s := by
  induction h with
  | init => rfl
  | step a _ _ hstep ih =>
    rw [steps_append, ih, Option.some_bind]
    simpa [SharedHeap.steps] using hstep

/-- Every reachable state satisfies the invariant against the passthrough allocator run on the
same program. -/
theorem Reachable.inv (hr : RanksOK cfg n rank) (h : Reachable cfg n rank metric acts s) :
    Inv cfg n (Pass.run cfg acts) s := by
  induction h with
  | init => exact Inv.init metric hr
  | step a _ he hstep ih => rw [Pass.run_append]; exact ih.next he hstep

/-! ### A run of two siblings -/

/-- Sibling `0` of two allocates one page, faults on it and stores `7` at its first byte. -/
def storeProgram : List Action := [.malloc 0 4096 1, .fault 0 1, .store 0 1 0 7]

theorem ranksOK_page4k : RanksOK Config.page4k 2 id := ⟨by decide, fun _ _ _ _ h => h⟩

/-- The node `storeProgram` reaches: sibling `0` holds the one-page region at page `1`, which
holds the stored byte, and no page after it is mapped. -/
theorem storeProgram_reachable :
    ∃ s, Reachable Config.page4k 2 id (fun _ => .threshold) storeProgram s ∧
      (s.procs 0).allocRecord 1 = some 1 ∧
      (s.procs 0).mem 1 = .anon (Function.update blankPage 0 7) true ∧
      ∀ j, 1 < j → (s.procs 0).mem j = .unmapped := by
  have h₀ : Reachable Config.page4k 2 id (fun _ => .threshold) [] _ := .init
  have h₁ := h₀.step (.malloc 0 4096 1) ⟨by decide, le_rfl, by decide, fun _ _ => rfl⟩ rfl
  have h₂ := h₁.step (.fault 0 1) ⟨by decide, rfl⟩ rfl
  refine ⟨_, h₂.step (.store 0 1 0 7) ⟨by decide, rfl, by decide⟩ rfl, rfl, rfl, fun j hj => ?_⟩
  simp [Node.setProc, Function.update_noteq (show j ≠ 1 by omega), mapRange, InRange, Node.init]
  rw [show mallocPages Config.page4k 4096 = 1 by decide]; omega

theorem storeProgram_live {s : Node}
    (h : Reachable Config.page4k 2 id (fun _ => .threshold) storeProgram s) : (s.procs 0).Live 1 :=
  ⟨1, 1, by rw [((h.inv ranksOK_page4k).refines 0 (by decide)).regions]; rfl, by decide⟩

/-- Each sibling has the passthrough allocator's regions and reads, at every byte of every live
page, what the passthrough allocator holds after the same program. -/
theorem reads_match_passthrough (hr : RanksOK cfg n rank) (h : Reachable cfg n rank metric acts s) :
    ∀ q < n, (s.procs q).allocRecord = (Pass.run cfg acts).regions q ∧
      ∀ i o, (s.procs q).Live i → o < cfg.pageSize →
        s.readByte q i o = some ((Pass.run cfg acts).bytes q i o) := by
  intro q hq
  have hR := (h.inv hr).refines q hq
  refine ⟨hR.regions, fun i o hl ho => ?_⟩
  obtain ⟨c, hc, hco⟩ := hR.bytes i hl
  simp [Node.readByte, hc, hco o ho]

theorem LiveState.of_file {i f : Nat} {init zero held w : Bool} {m : Mapping}
    (h : LiveState i init zero held m) (hm : m = .file f w) :
    w = false ∧ (1 ≤ f → f = i ∧ held = true) := by
  cases h <;> cases hm <;> simp

/-- Frame `0` reads zeros and nobody holds it. Every page of a live region of a sibling is in
the state its initialized, zero and holder bits say; every other page has the three bits clear;
no frame is mapped writable, and a page mapped onto a frame `f ≥ 1` is page `f`, held. -/
theorem reachable_page_states (hr : RanksOK cfg n rank) (h : Reachable cfg n rank metric acts s) :
    (∀ o < cfg.pageSize, s.shm.frames 0 o = 0) ∧ s.shm.sharingProcessesInfo 0 = 0 ∧
    ∀ q < n, ∀ i,
      ((s.procs q).Live i → LiveState i ((s.procs q).initializedPagesBV i)
        ((s.procs q).zeroPagesBV i) ((s.procs q).Held s.shm.sharingProcessesInfo i)
        ((s.procs q).mem i)) ∧
      (¬(s.procs q).Live i → (s.procs q).initializedPagesBV i = false ∧
        (s.procs q).zeroPagesBV i = false ∧ (s.procs q).Held s.shm.sharingProcessesInfo i = false) ∧
      (∀ f w, (s.procs q).mem i = .file f w →
        w = false ∧ (1 ≤ f → f = i ∧ (s.procs q).Held s.shm.sharingProcessesInfo f = true)) := by
  have hs := h.inv hr
  have hzero : s.shm.sharingProcessesInfo 0 = 0 := Nat.eq_of_testBit_eq fun j => by
    rw [Nat.zero_testBit]
    by_contra hj
    obtain ⟨q, hq, rfl⟩ := hs.holders 0 j (by simpa using hj)
    exact hj (((hs.sib q hq).pages 0).2 fun hl => by have := (hs.window hq hl).2; omega).2.2.1
  refine ⟨hs.frame0, hzero, fun q hq i => ?_⟩
  have hp := (hs.sib q hq).pages i
  refine ⟨hp.1, fun hl => ⟨(hp.2 hl).1, (hp.2 hl).2.1, (hp.2 hl).2.2.1⟩, fun f w hm => ?_⟩
  have hl := hp.live_of_mapped (by rw [hm]; simp)
  obtain ⟨hw, hf⟩ := (hp.1 hl).of_file hm
  exact ⟨hw, fun h1 => by obtain ⟨rfl, hh⟩ := hf h1; exact ⟨rfl, hh⟩⟩

/-- The statistics count the node's pages and frames in every reachable state. -/
theorem reachable_counted (hr : RanksOK cfg n rank) (h : Reachable cfg n rank metric acts s) :
    Counted cfg n s :=
  (h.inv hr).counted

end Runs

end SbllMalloc.SharedHeap
