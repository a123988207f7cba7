import SbllMalloc.SharedHeap.Reach

/-!
# A failed map inside `RemapToZero`

`RemapToZero` maps the pages of a zero run onto frame `0` one at a time, counting each in
`zeroPageCount` and taking it off `*allProcPrivatePageCount`, and sets the zero bits only after
its loop. When the map of a later page fails it returns `-1` with the earlier pages already on
frame `0` and their zero bits clear, and `FLUSH_OUTSTANDING_MERGES` ignores the return code.
Such a page is initialized, not zero and not held, which `SigSegvHandler` reads as a page that is
already private: a write fault there takes none of its three branches, and the page stays
read-only.

When every mapping call succeeds this cannot happen: on every state of the invariant,
`SigSegvHandler` returns on a page that faults and leaves it writable (`Inv.fault_writable`).
-/

namespace SbllMalloc.SharedHeap

theorem takeWhile_range' {f : Nat → Bool} : ∀ {start size k : Nat}, k < size →
    (∀ j < k, f (start + j) = true) → f (start + k) = false →
    (List.range' start size).takeWhile f = List.range' start k
  | _, 0, _, hk, _, _ => absurd hk (Nat.not_lt_zero _)
  | start, _ + 1, 0, _, _, hf => by
    rw [List.range'_succ, List.takeWhile_cons_of_neg (by simpa using hf)]; rfl
  | start, size + 1, k + 1, hk, hok, hf => by
    have ih := @takeWhile_range' f (start + 1) size k (by omega)
      (fun j hj => by rw [← hok (j + 1) (by omega)]; congr 1; omega)
      (by rw [← hf]; congr 1; omega)
    rw [List.range'_succ, List.takeWhile_cons_of_pos (by simpa using hok 0 (by omega)), ih,
      List.range'_succ]

/-- `RemapToZero` whose map of page `start + k` fails: the first `k` pages are on frame `0` and
counted, no zero bit is set, and it returns `-1`. -/
theorem remapToZero_of_zeroMap_fails (env : MapEnv) (p : Proc) (shm : Shm) {start size k : Nat}
    (hks : k < size) (hok : ∀ j < k, env.zeroMap (start + j) = true)
    (hfail : env.zeroMap (start + k) = false) :
    remapToZero env p shm start size =
      ({ p with mem := fun i => if InRange start k i then .file 0 false else p.mem i,
                zeroPageCount := p.zeroPageCount + k },
       { shm with allProcPrivatePageCount := shm.allProcPrivatePageCount - k }, -1) := by
  have hall : (List.range' start size).all env.zeroMap = false :=
    List.all_eq_false.2 ⟨start + k, List.mem_range'_1.2 ⟨by omega, by omega⟩, by simp [hfail]⟩
  simp [remapToZero, remapToZeroLoop_eq, takeWhile_range' hks hok hfail, hall, InRange,
    List.mem_range'_1]

/-! ## A run of zero pages -/

section ZeroRun

variable {env : MapEnv} {cfg : Config}

/-- What `MergeManyPages` reads of a page of a zero run: initialized, not a zero page, not held,
and reading as frame `0`. -/
def ZeroPage (cfg : Config) (p : Proc) (shm : Shm) (j : Nat) : Prop :=
  p.initializedPagesBV j = true ∧ p.zeroPagesBV j = false ∧
    p.Held shm.sharingProcessesInfo j = false ∧
    ∃ c, (p.mem j).content shm.frames = some c ∧ comparePages cfg.pageSize c (shm.frames 0) = true

/-- A page that reads as frame `0` opens a zero run at `a`, or extends the one open at `a`,
and leaves the sibling, the file and the count as they are. -/
theorem mergeIter_zeroPage {L : MergeLoop} {a j : Nat} (hj : ZeroPage cfg L.proc L.shm j)
    (hr : L.run = .none ∧ a = j ∨ L.run = .zero a) :
    ∃ L', mergeIter env cfg L j = some L' ∧ L'.proc = L.proc ∧ L'.shm = L.shm ∧
      L'.run = .zero a ∧ L'.counterPagesMerged = L.counterPagesMerged := by
  obtain ⟨hi, hz, hh, c, hc, h0⟩ := hj
  obtain ⟨hp, hsh, hrn⟩ := keepWindow_proc env L j
  have hcn : (keepWindow env L j).counterPagesMerged = L.counterPagesMerged := by
    unfold keepWindow; split_ifs <;> rfl
  simp only [mergeIter]
  generalize keepWindow env L j = K at hp hsh hrn hcn ⊢
  rw [hp, hsh, hrn, hcn, hi, hz, getSharingBit_eq,
    show (L.shm.sharingProcessesInfo j).testBit L.proc.myRank = false from hh]
  simp only [Bool.not_true, Bool.false_eq_true, if_false]
  rw [classify_zero _ _ _ _ (by exact hc) (by exact h0)]
  rcases hr with ⟨hrun, rfl⟩ | hrun <;> simp only [hrun]
  · rw [flush_none _ rfl, Option.some_bind]
    exact ⟨_, rfl, rfl, rfl, rfl, rfl⟩
  · exact ⟨_, rfl, rfl, rfl, rfl, rfl⟩

/-- Pages that read as frame `0` extend the open zero run. -/
theorem foldlM_zeroPages {a : Nat} : ∀ (l : List Nat) (L : MergeLoop), L.run = .zero a →
    (∀ j ∈ l, ZeroPage cfg L.proc L.shm j) →
    ∃ L', l.foldlM (mergeIter env cfg) L = some L' ∧ L'.proc = L.proc ∧ L'.shm = L.shm ∧
      L'.run = .zero a ∧ L'.counterPagesMerged = L.counterPagesMerged
  | [], L, hr, _ => ⟨L, rfl, rfl, rfl, hr, rfl⟩
  | j :: l, L, hr, hz => by
    obtain ⟨L₁, h₁, hp₁, hs₁, hr₁, hc₁⟩ :=
      @mergeIter_zeroPage env cfg _ _ _ (hz j (List.mem_cons_self _ _)) (.inr hr)
    obtain ⟨L₂, h₂, hp₂, hs₂, hr₂, hc₂⟩ := foldlM_zeroPages l L₁ hr₁ fun k hk => by
      rw [hp₁, hs₁]; exact hz k (List.mem_cons_of_mem _ hk)
    refine ⟨L₂, ?_, hp₂.trans hp₁, hs₂.trans hs₁, hr₂, hc₂.trans hc₁⟩
    rw [List.foldlM_cons, h₁, Option.bind_eq_bind, Option.some_bind]; exact h₂

/-- A region of pages that read as frame `0` is one zero run: `MergeManyPages` hands it whole to
`RemapToZero`, drops its return code, and counts every page as merged. -/
theorem mergeManyPages_zeroRun (env : MapEnv) (cfg : Config) (p : Proc) (shm : Shm) {a k : Nat}
    (hk : 0 < k) (hz : ∀ j, InRange a k j → ZeroPage cfg p shm j) :
    mergeManyPages env cfg p shm a k =
      some ((remapToZero env p shm a k).1, (remapToZero env p shm a k).2.1, k) := by
  obtain ⟨k, rfl⟩ : ∃ k', k = k' + 1 := ⟨k - 1, by omega⟩
  obtain ⟨L₁, h₁, hp₁, hs₁, hr₁, hc₁⟩ := @mergeIter_zeroPage env cfg ⟨p, shm, .none, 0, none, 0⟩ a
    a (hz a ⟨le_rfl, by omega⟩) (.inl ⟨rfl, rfl⟩)
  obtain ⟨L₂, h₂, hp₂, hs₂, hr₂, hc₂⟩ :=
    @foldlM_zeroPages env cfg _ (List.range' (a + 1) k) L₁ hr₁ fun j hj => by
      have := List.mem_range'_1.1 hj
      rw [hp₁, hs₁]; exact hz j ⟨by omega, by omega⟩
  simp only [mergeManyPages, List.range'_succ, List.foldlM_cons, h₁, Option.bind_eq_bind,
    Option.some_bind, h₂, flush, hr₂, hp₂, hp₁, hs₂, hs₁, hc₂, hc₁, Nat.add_sub_cancel_left,
    Nat.zero_add]

end ZeroRun

/-! ## When every map succeeds -/

section Progress

variable {cfg : Config} {n : Nat} {rank : Nat → Nat} {metric : Nat → MergeMetric}
  {acts : List Action} {s : Node}

/-- `SigSegvHandler` on a page that faults in a state of the invariant returns and leaves the page
writable: a first touch is made writable in place, a zero page gets a fresh blank page, and a held
page gets a private copy of its frame. -/
theorem Inv.fault_writable {A : Pass} (hs : Inv cfg n A s) {q i : Nat}
    (he : Enabled cfg n s (.fault q i)) :
    ∃ s', step MapEnv.ok cfg s (.fault q i) = some s' ∧ ((s'.procs q).mem i).writable = true := by
  have hm : (s.procs q).mem i ≠ .unmapped := fun hm => by
    simpa [hm, Mapping.faultsOnWrite] using he.2
  have hl := hs.live_of_mapped he.1 hm
  rw [step_fault]
  rcases (hs.liveState he.1 hl).of_faults he.2 with ⟨h1, -, -, h4⟩ | ⟨h1, h2, -⟩ | ⟨h1, h2, h3, h4⟩
  · rw [sigSegvHandler_first _ _ _ h1]
    exact ⟨_, rfl, by simp [h4]⟩
  · rw [sigSegvHandler_zero _ _ _ h1 h2]
    exact ⟨_, rfl, by simp⟩
  · rw [sigSegvHandler_shared _ _ _ h1 h2 h3 (unshareCounters_of_le _ (hs.pop_unset_le he.1 h3))
      (by rw [h4]; exact Mapping.content_file _ _ _)]
    exact ⟨_, rfl, by simp⟩

end Progress

/-! ## A zero run whose second map fails -/

theorem comparePages_update_zero (pageSize o : Nat) :
    comparePages pageSize (Function.update blankPage o 0) blankPage = true := by
  rw [show Function.update blankPage o 0 = blankPage from Function.update_eq_self_iff.2 rfl]
  exact comparePages_self _ _

/-- Every mapping call succeeds but the `RemapToZero` map of page `2`. -/
def zeroMapFails : MapEnv := { MapEnv.ok with zeroMap := fun j => j != 2 }

/-- Sibling `0` of two allocates two pages, writes a zero byte into each, merges the region and
writes its first page again. -/
def zeroRunProgram : List Action :=
  [.malloc 0 8192 1, .fault 0 1, .store 0 1 0 0, .fault 0 2, .store 0 2 0 0, .mergeNode 0 1,
    .fault 0 1]

/-- When every mapping call succeeds, the last fault leaves page `1` writable. When the zero map
of page `2` fails, page `1` is left read-only, initialized, with its zero and holder bits clear
and counted in `zeroPageCount`, after the last fault as before it. -/
theorem zeroRunProgram_fault_stays_readOnly :
    (steps MapEnv.ok Config.page4k (Node.init 2 id fun _ => .threshold) zeroRunProgram).map
        (fun s => ((s.procs 0).mem 1).writable) = some true ∧
    (steps zeroMapFails Config.page4k (Node.init 2 id fun _ => .threshold) zeroRunProgram).map
        (fun s => (((s.procs 0).mem 1).faultsOnWrite, (s.procs 0).initializedPagesBV 1,
          (s.procs 0).zeroPagesBV 1, (s.procs 0).Held s.shm.sharingProcessesInfo 1,
          (s.procs 0).zeroPageCount)) = some (true, true, false, false, 1) := by
  obtain ⟨s, hs, ha, hd, hc, hi1, hi2, hz1, hz2, hm1, hm2, hf0, hinfo⟩ : ∃ s,
      steps MapEnv.ok Config.page4k (Node.init 2 id fun _ => .threshold)
        [.malloc 0 8192 1, .fault 0 1, .store 0 1 0 0, .fault 0 2, .store 0 2 0 0] = some s ∧
      (s.procs 0).allocRecord 1 = some 2 ∧ (s.procs 0).dirty 1 = true ∧
      (s.procs 0).zeroPageCount = 0 ∧
      (s.procs 0).initializedPagesBV 1 = true ∧ (s.procs 0).initializedPagesBV 2 = true ∧
      (s.procs 0).zeroPagesBV 1 = false ∧ (s.procs 0).zeroPagesBV 2 = false ∧
      (s.procs 0).mem 1 = .anon (Function.update blankPage 0 0) true ∧
      (s.procs 0).mem 2 = .anon (Function.update blankPage 0 0) true ∧
      s.shm.frames 0 = blankPage ∧ s.shm.sharingProcessesInfo = fun _ => 0 :=
    ⟨_, rfl, rfl, rfl, rfl, rfl, rfl, rfl, rfl, rfl, rfl, rfl, rfl⟩
  have hz : ∀ j, InRange 1 2 j → ZeroPage Config.page4k (s.procs 0) s.shm j := fun j hj => by
    have hh : ∀ j, (s.procs 0).Held s.shm.sharingProcessesInfo j = false := fun j => by
      simp [Proc.Held, hinfo]
    obtain rfl | rfl : j = 1 ∨ j = 2 := by unfold InRange at hj; omega
    · exact ⟨hi1, hz1, hh 1, _, by rw [hm1]; rfl, by rw [hf0]; exact comparePages_update_zero _ _⟩
    · exact ⟨hi2, hz2, hh 2, _, by rw [hm2]; rfl, by rw [hf0]; exact comparePages_update_zero _ _⟩
  have hfive : ∀ env, steps env Config.page4k (Node.init 2 id fun _ => .threshold)
      [.malloc 0 8192 1, .fault 0 1, .store 0 1 0 0, .fault 0 2, .store 0 2 0 0] = some s :=
    fun _ => hs
  have hsplit : zeroRunProgram = [.malloc 0 8192 1, .fault 0 1, .store 0 1 0 0, .fault 0 2,
      .store 0 2 0 0] ++ [.mergeNode 0 1, .fault 0 1] := rfl
  constructor
  · rw [hsplit, steps_append, hfive, Option.some_bind, steps, List.foldlM_cons, step_mergeNode,
      mergeNode2_dirty _ _ _ ha hd, mergeManyPages_zeroRun _ _ _ _ (by decide) hz,
      remapToZero_ok _ _ (by decide)]
    simp only [Option.bind_eq_bind, Option.some_bind, List.foldlM_cons, List.foldlM_nil,
      step_fault, Node.setProc_self, Node.setProc_shm]
    rw [sigSegvHandler_zero _ _ _ ?_ ?_]
    · rfl
    · exact hi1
    · simp [InRange]
  · rw [hsplit, steps_append, hfive, Option.some_bind, steps, List.foldlM_cons, step_mergeNode,
      mergeNode2_dirty _ _ _ ha hd, mergeManyPages_zeroRun _ _ _ _ (by decide) hz,
      remapToZero_of_zeroMap_fails _ _ _ (k := 1) (by decide) (fun j hj => by
        obtain rfl : j = 0 := by omega
        rfl) rfl]
    simp only [Option.bind_eq_bind, Option.some_bind, List.foldlM_cons, List.foldlM_nil,
      step_fault, Node.setProc_self, Node.setProc_shm]
    rw [sigSegvHandler_other _ _ _ ?_ ?_ ?_]
    · simp [InRange, hi1, hz1, hc, Proc.Held, hinfo, Mapping.faultsOnWrite]
    · exact hi1
    · exact hz1
    · simp [hinfo]

end SbllMalloc.SharedHeap
