import SbllMalloc.SharedHeap.Failure
import SbllMalloc.SharedHeap.MergeRef

/-!
# The node's page footprint

`MergeByTHRESHOLD` weighs the node by `allProcPrivatePageCount + sharedPageCount`
(`Shm.footprint`). Where the statistics count the node's pages (`Counted`), this is the 192
metadata pages, the zero frame, every private page of every sibling and every frame some sibling
holds: what the node takes in memory. This module follows how each call moves it.

* A write fault adds at most one page. `ShmMallocWrapper`, a store and `ShmFreeWrapper` add none,
  and the merges only remove pages (`step_footprint`). So after any actions, whichever mapping
  calls fail, the footprint has grown by at most the number of write faults among them
  (`steps_footprint_le`).
* `MergePages` removes exactly the pages it reports merged (`mergePages_footprint`).
  `MergeManyPages` removes at most the pages it reports (`mergeManyPages_footprint`):
  `FLUSH_OUTSTANDING_MERGES` adds a zero or shareable run to `counter_pages_merged` whatever
  `RemapToZero` or `RemapRegion` returns, so a run whose map failed is reported merged although
  no page was saved. When every mapping call succeeds the two agree (`Inv.mergeManyPages_saves`).
-/

namespace SbllMalloc.SharedHeap

/-- The node's pages as its statistics count them. -/
def Shm.footprint (shm : Shm) : Int := shm.allProcPrivatePageCount + shm.sharedPageCount

/-- Whether an action is a write fault. -/
def Action.isFault : Action → Bool
  | .fault .. => true
  | _ => false

/-! ## The remap actions -/

section Remap

variable {env : MapEnv} {cfg : Config} {p p' : Proc} {shm shm' : Shm}

theorem footprint_remapPage (r : Nat) (shm : Shm) (j : Nat) :
    (remapPage cfg r shm j).footprint = shm.footprint - 1 := by
  rw [remapPage_eq]; simp only [Shm.footprint]; ring

theorem footprint_foldl_remapPage (r : Nat) :
    ∀ (js : List Nat) (shm : Shm),
      (js.foldl (remapPage cfg r) shm).footprint = shm.footprint - js.length
  | [], _ => by simp
  | j :: js, shm => by
    rw [List.foldl_cons, footprint_foldl_remapPage r js, footprint_remapPage, List.length_cons]
    push_cast; ring

/-- `RemapRegion` removes one page per page of the run once its region is mapped. -/
theorem footprint_remapRegion {start size : Nat} {r : Int}
    (h : remapRegion env cfg p shm start size = (p', shm', r)) :
    shm'.footprint = shm.footprint - if env.remapShared start then size else 0 := by
  unfold remapRegion at h
  split_ifs at h <;> cases h <;> simp_all [footprint_foldl_remapPage]

/-- `RemapToZero` removes one page per page it maps, up to the first failed map. -/
theorem footprint_remapToZero {start size : Nat} {r : Int}
    (h : remapToZero env p shm start size = (p', shm', r)) :
    shm'.footprint = shm.footprint - ((List.range' start size).takeWhile env.zeroMap).length := by
  simp only [remapToZero, remapToZeroLoop_eq] at h
  split_ifs at h <;> cases h <;> simp only [Shm.footprint] <;> ring

theorem footprint_copyAndRemapRegion {start size : Nat} {r : Int}
    (h : copyAndRemapRegion env cfg p shm start size = some (p', shm', r)) :
    shm'.footprint = shm.footprint := by
  unfold copyAndRemapRegion at h
  split_ifs at h <;> cases h <;> rfl

end Remap

/-! ## The loop of `MergeManyPages` -/

/-- From `L` to `L'` the loop of `MergeManyPages` adds no page, and removes at most as many as it
adds to `counter_pages_merged`. -/
structure Saves (L L' : MergeLoop) : Prop where
  le : L'.shm.footprint ≤ L.shm.footprint
  counted : L.shm.footprint + L.counterPagesMerged ≤ L'.shm.footprint + L'.counterPagesMerged

section Loop

variable {env : MapEnv} {cfg : Config} {L L' L'' : MergeLoop}

theorem Saves.refl (L : MergeLoop) : Saves L L := ⟨le_rfl, le_rfl⟩

theorem Saves.trans (h : Saves L L') (h' : Saves L' L'') : Saves L L'' :=
  ⟨h'.le.trans h.le, h.counted.trans h'.counted⟩

theorem Saves.of_eq (hs : L'.shm.footprint = L.shm.footprint)
    (hc : L'.counterPagesMerged = L.counterPagesMerged) : Saves L L' :=
  ⟨hs.le, by rw [hs, hc]⟩

theorem flush_saves {stop : Nat} (h : flush env cfg L stop = some L') : Saves L L' := by
  unfold flush at h
  split at h
  · cases h; exact .refl L
  · rename_i a _
    obtain ⟨⟨p, shm, r⟩, hz⟩ : ∃ z, remapToZero env L.proc L.shm a (stop - a) = z := ⟨_, rfl⟩
    rw [hz] at h
    cases h
    have hf := footprint_remapToZero hz
    have hlen := (List.takeWhile_prefix env.zeroMap (l := List.range' a (stop - a))).length_le
    rw [List.length_range'] at hlen
    constructor <;> dsimp only <;> rw [hf] <;> push_cast <;> omega
  · obtain ⟨⟨p, shm, r⟩, hr, h⟩ := Option.bind_eq_some.1 h
    cases h
    exact .of_eq (footprint_copyAndRemapRegion hr) rfl
  · rename_i a _
    obtain ⟨⟨p, shm, r⟩, hz⟩ : ∃ z, remapRegion env cfg L.proc L.shm a (stop - a) = z := ⟨_, rfl⟩
    rw [hz] at h
    cases h
    have hf := footprint_remapRegion hz
    constructor <;> dsimp only <;> rw [hf] <;> split_ifs <;> push_cast <;> omega

theorem classify_saves {curr : Option Nat} {p : Nat} (h : classify env cfg curr L p = some L') :
    Saves L L' := by
  unfold classify at h
  rw [Option.bind_eq_bind] at h
  obtain ⟨c, -, h⟩ := Option.bind_eq_some.1 h
  split_ifs at h
  · -- a zero page
    split at h
    · cases h; exact .refl L
    · cases h; exact .of_eq rfl rfl
    · rw [Option.bind_eq_bind] at h
      obtain ⟨L₁, h₁, h⟩ := Option.bind_eq_some.1 h
      cases h; exact (flush_saves h₁).trans (.of_eq rfl rfl)
  · -- a page no other sibling holds
    split at h
    · cases h; exact .refl L
    · cases h; exact .of_eq rfl rfl
    · rw [Option.bind_eq_bind] at h
      obtain ⟨L₁, h₁, h⟩ := Option.bind_eq_some.1 h
      cases h; exact (flush_saves h₁).trans (.of_eq rfl rfl)
  · -- a page whose frame another sibling holds: close the run unless it is shareable, then
    -- compare the page with its frame
    dsimp only at h
    split at h
    all_goals
      rw [Option.bind_eq_bind] at h
      obtain ⟨L₁, h₁, h⟩ := Option.bind_eq_some.1 h
      have hs₁ : Saves L L₁ := by
        first
          | exact flush_saves h₁
          | (cases h₁; exact .refl L)
      obtain ⟨f, -, h⟩ := Option.bind_eq_some.1 h
      obtain ⟨c', -, h⟩ := Option.bind_eq_some.1 h
      split_ifs at h
      · split at h <;> cases h
        exacts [hs₁.trans (.of_eq rfl rfl), hs₁]
      · exact hs₁.trans (flush_saves h)

theorem mergeIter_saves {p : Nat} (h : mergeIter env cfg L p = some L') : Saves L L' := by
  have hw : Saves L { keepWindow env L p with index := (keepWindow env L p).index + cfg.pageSize } :=
    .of_eq (congrArg Shm.footprint (keepWindow_proc env L p).2.1)
      (by unfold keepWindow; split_ifs <;> rfl)
  simp only [mergeIter] at h
  split_ifs at h
  exacts [hw.trans (flush_saves h), hw.trans (flush_saves h), hw.trans (flush_saves h),
    hw.trans (classify_saves h)]

theorem foldlM_mergeIter_saves :
    ∀ (js : List Nat) {L L' : MergeLoop}, js.foldlM (mergeIter env cfg) L = some L' → Saves L L'
  | [], L, _, h => by cases h; exact .refl L
  | j :: js, _, _, h => by
    rw [List.foldlM_cons, Option.bind_eq_bind] at h
    obtain ⟨L₁, h₁, h⟩ := Option.bind_eq_some.1 h
    exact (mergeIter_saves h₁).trans (foldlM_mergeIter_saves js h)

end Loop

/-! ## The merges -/

section Merges

variable {env : MapEnv} {cfg : Config} {p p' : Proc} {shm shm' : Shm}

/-- `MergeManyPages`, whichever mapping calls fail, adds no page and removes at most the pages it
reports merged. -/
theorem mergeManyPages_footprint {startAddr size cnt : Nat}
    (h : mergeManyPages env cfg p shm startAddr size = some (p', shm', cnt)) :
    shm'.footprint ≤ shm.footprint ∧ shm.footprint ≤ shm'.footprint + cnt := by
  simp only [mergeManyPages, Option.bind_eq_bind] at h
  obtain ⟨L, hL, h⟩ := Option.bind_eq_some.1 h
  obtain ⟨L', hL', h⟩ := Option.bind_eq_some.1 h
  cases h
  have hs := (foldlM_mergeIter_saves _ hL).trans (flush_saves hL')
  exact ⟨hs.le, by simpa using hs.counted⟩

/-- A `RemapToZero` whose map fails: the blank page stays private and the file is unchanged, yet
`MergeManyPages` reports one page merged. -/
theorem mergeManyPages_footprint_zeroMap_fails :
    ∃ p shm, p = { (Node.init 2 id fun _ => .threshold).procs 0 with
          mem := fun _ => .anon blankPage true, initializedPagesBV := fun _ => true } ∧
      shm = (Node.init 2 id fun _ => .threshold).shm ∧
      mergeManyPages { MapEnv.ok with zeroMap := fun _ => false } Config.page4k p shm 1 1 =
        some (p, shm, 1) ∧ shm.footprint ≤ shm.footprint + 1 := by
  refine ⟨_, _, rfl, rfl, (fun h => ⟨h, (mergeManyPages_footprint h).2⟩) ?_⟩
  -- page `1` reads as frame `0`: a zero run of one page, whose map fails at once
  rw [mergeManyPages_zeroRun _ _ _ _ Nat.one_pos fun _ _ => ?_,
    remapToZero_of_zeroMap_fails _ _ _ Nat.one_pos nofun rfl]
  · simp only [InRange, Nat.add_zero, sub_zero, add_zero]
    congr; funext i; rw [ite_eq_right_iff]; intro; omega
  · exact ⟨rfl, rfl, by simp [Proc.Held, Node.init], blankPage, rfl, comparePages_self _ _⟩

theorem mergeNode2_footprint {key : Nat} (h : mergeNode2 env cfg p shm key = some (p', shm')) :
    shm'.footprint ≤ shm.footprint := by
  unfold mergeNode2 at h
  split at h
  · cases h; exact le_rfl
  · split_ifs at h
    · obtain ⟨⟨p₁, shm₁, c⟩, h₁, h⟩ := Option.bind_eq_some.1 h
      cases h; exact (mergeManyPages_footprint h₁).1
    · cases h; exact le_rfl

/-- `MergePages` removes exactly the pages it reports merged: one for a page that joins its
frame, none otherwise. -/
theorem mergePages_footprint {i : Nat} {r : Int}
    (h : mergePages env cfg p shm i = some (p', shm', r)) :
    shm'.footprint + r = shm.footprint ∧ (r = 0 ∨ r = 1) := by
  rcases hc : (p.mem i).content shm.frames with _ | c <;>
    simp only [mergePages, hc, Option.bind_eq_bind, Option.none_bind, Option.some_bind] at h <;>
    split_ifs at h <;> simp only [Option.some.injEq, Prod.mk.injEq, reduceCtorEq] at h
  all_goals obtain ⟨-, rfl, rfl⟩ := h
  all_goals simp [Shm.footprint]
  all_goals ring

/-- The per-page merge removes exactly the pages it counts. -/
theorem footprint_mergePageRef (st : Proc × Shm × Nat) (j : Nat) :
    (mergePageRef cfg st j).2.1.footprint + (mergePageRef cfg st j).2.2 =
      st.2.1.footprint + st.2.2 := by
  obtain ⟨p, shm, cnt⟩ := st
  rcases mergePageRef_cases cfg (p, shm, cnt) j with h | ⟨-, h | h | h⟩ <;> rw [h]
  · simp only [zeroStep, Shm.footprint]; push_cast; ring
  · rfl
  · simp only [joinStep, footprint_remapPage]; push_cast; ring

theorem footprint_mergeRef (p : Proc) (shm : Shm) (startAddr size : Nat) :
    (mergeRef cfg p shm startAddr size).2.1.footprint + (mergeRef cfg p shm startAddr size).2.2 =
      shm.footprint :=
  foldl_mergePageRef_induction (P := fun st => st.2.1.footprint + st.2.2 = shm.footprint)
    (fun st j h => (footprint_mergePageRef st j).trans h) _ _ (by simp)

end Merges

section Reachable

variable {cfg : Config} {n q : Nat} {A : Pass} {s : Node}

/-- On every state of the node model, when every mapping call succeeds, `MergeManyPages` returns
and removes exactly the pages it reports merged. -/
theorem Inv.mergeManyPages_saves (hs : Inv cfg n A s) (hq : q < n) (startAddr size : Nat) :
    ∃ p' shm' cnt, mergeManyPages MapEnv.ok cfg (s.procs q) s.shm startAddr size =
      some (p', shm', cnt) ∧ shm'.footprint + cnt = s.shm.footprint := by
  rw [(hs.mergeReady hq).mergeManyPages_eq]
  exact ⟨_, _, _, rfl, footprint_mergeRef _ _ _ _⟩

theorem mergeManyPages_saves_storeProgram :
    ∃ s, Reachable Config.page4k 2 id (fun _ => .threshold) storeProgram s ∧
      ∃ p' shm' cnt, mergeManyPages MapEnv.ok Config.page4k (s.procs 0) s.shm 1 1 =
        some (p', shm', cnt) ∧ shm'.footprint + cnt = s.shm.footprint := by
  obtain ⟨s, h, -⟩ := storeProgram_reachable
  exact ⟨s, h, Inv.mergeManyPages_saves (h.inv ranksOK_page4k) Nat.zero_lt_two 1 1⟩

end Reachable

/-! ## The other calls -/

section Calls

variable {cfg : Config} {p p' : Proc} {shm shm' : Shm}

theorem unshareCounters_footprint {shCnt : Nat} (h : unshareCounters shm shCnt = some shm') :
    shm.footprint ≤ shm'.footprint ∧ shm'.footprint ≤ shm.footprint + 1 := by
  unfold unshareCounters at h
  split at h
  · cases h; simp only [Shm.footprint]; omega
  · cases h; omega
  · split_ifs at h; cases h; simp only [Shm.footprint]; omega

/-- `SigSegvHandler` adds at most one page: the page it makes private, less the frame this
sibling leaves when it held it alone. -/
theorem sigSegvHandler_footprint {i : Nat} (h : sigSegvHandler cfg p shm i = some (p', shm')) :
    shm.footprint ≤ shm'.footprint ∧ shm'.footprint ≤ shm.footprint + 1 := by
  simp only [sigSegvHandler, setAndReturnBit, resetAndReturnBit] at h
  split_ifs at h
  · obtain ⟨-, rfl⟩ := Prod.mk.inj (Option.some.inj h)
    simp only [Shm.footprint]; omega
  · obtain ⟨-, rfl⟩ := Prod.mk.inj (Option.some.inj h)
    simp only [Shm.footprint]; omega
  · simp only [Option.bind_eq_bind, Option.bind_eq_some, Option.some.injEq] at h
    obtain ⟨shm₁, hu, c, -, h⟩ := h
    obtain ⟨-, rfl⟩ := Prod.mk.inj h
    have := unshareCounters_footprint hu
    exact this
  · obtain ⟨-, rfl⟩ := Prod.mk.inj (Option.some.inj h)
    omega

theorem releaseCounters_footprint (shm : Shm) (shCnt : Nat) :
    (releaseCounters shm shCnt).footprint ≤ shm.footprint := by
  unfold releaseCounters
  split <;> simp only [Shm.footprint] <;> omega

theorem freePage_footprint (st : Proc × Shm) (j : Nat) :
    (freePage cfg st j).2.footprint ≤ st.2.footprint := by
  obtain ⟨p, shm⟩ := st
  simp only [freePage, resetAndReturnBit]
  split_ifs
  · exact le_rfl
  · exact le_rfl
  · exact releaseCounters_footprint _ _
  · simp only [Shm.footprint]; omega

theorem freePageDisabled_footprint (st : Proc × Shm) (j : Nat) :
    (freePageDisabled st j).2.footprint ≤ st.2.footprint := by
  obtain ⟨p, shm⟩ := st
  simp only [freePageDisabled, resetAndReturnBit]
  split_ifs <;> simp only [Shm.footprint] <;> omega

theorem footprint_foldl_le {f : Proc × Shm → Nat → Proc × Shm}
    (hf : ∀ st j, (f st j).2.footprint ≤ st.2.footprint) :
    ∀ (js : List Nat) (st : Proc × Shm), (js.foldl f st).2.footprint ≤ st.2.footprint
  | [], _ => le_rfl
  | j :: js, st => (footprint_foldl_le hf js (f st j)).trans (hf st j)

/-- `ShmFreeWrapper` adds no page: each page it releases is one private page fewer, or leaves a
frame another sibling still holds. -/
theorem shmFreeWrapper_footprint (ptr : Nat) :
    (shmFreeWrapper cfg p shm ptr).2.1.footprint ≤ shm.footprint := by
  simp only [shmFreeWrapper]
  split_ifs
  · exact le_rfl
  · exact footprint_foldl_le freePage_footprint _ _
  · exact footprint_foldl_le freePageDisabled_footprint _ _

theorem storeByte_footprint {i o : Nat} {v : UInt8}
    (h : storeByte p shm i o v = some (p', shm')) : shm'.footprint = shm.footprint := by
  unfold storeByte at h
  split at h <;> cases h <;> rfl

end Calls

/-! ## The statistics fit their `int`s -/

section Bounds

variable {cfg : Config} {n : Nat} {rank : Nat → Nat} {metric : Nat → MergeMetric}
  {acts : List Action} {s : Node}

/-- Injective ranks below `numProc`: at most `numProc` siblings. -/
theorem RanksOK.le_numProc (hr : RanksOK cfg n rank) : n ≤ cfg.numProc := by
  simpa using Finset.card_le_card_of_injOn rank (s := Finset.range n)
    (t := Finset.range cfg.numProc) (fun q hq => by simpa using hr.lt q (by simpa using hq))
    (fun q hq q' hq' he => hr.inj q (by simpa using hq) q' (by simpa using hq') he)

theorem card_window_filter_le (P : Nat → Prop) [DecidablePred P] :
    (cfg.window.filter P).card ≤ cfg.heapPages :=
  (Finset.card_filter_le _ _).trans (Finset.card_range _).le

/-- Each statistic the invariant counts is bounded by the number of siblings and the pages of the
heap window. -/
theorem Counted.bounds (hc : Counted cfg n s) :
    s.shm.allProcPrivatePageCount ≤ 192 + n * cfg.heapPages + cfg.heapPages ∧
      s.shm.sharedPageCount ≤ 1 + cfg.heapPages ∧
      s.shm.baseCaseTotalPageCount ≤ n * cfg.heapPages ∧
      ∀ q < n, (s.procs q).zeroPageCount ≤ cfg.heapPages := by
  have hsum : ∀ f : Nat → Nat, (∀ q, f q ≤ cfg.heapPages) →
      ((∑ q ∈ Finset.range n, f q : Nat) : Int) ≤ n * cfg.heapPages := fun f hf => by
    have := Finset.sum_le_card_nsmul (Finset.range n) f cfg.heapPages fun q _ => hf q
    rw [Finset.card_range, smul_eq_mul] at this
    exact_mod_cast this
  have hp : ((∑ q ∈ Finset.range n, (s.procs q).privateCount cfg s.shm.sharingProcessesInfo : Nat)
      : Int) ≤ n * cfg.heapPages := hsum _ fun _ => card_window_filter_le _
  have hb : ((∑ q ∈ Finset.range n, (s.procs q).initCount cfg : Nat) : Int) ≤ n * cfg.heapPages :=
    hsum _ fun _ => card_window_filter_le _
  have h1 : framesWith cfg s.shm.sharingProcessesInfo (· = 1) ≤ cfg.heapPages :=
    card_window_filter_le _
  have h2 : framesWith cfg s.shm.sharingProcessesInfo (2 ≤ ·) ≤ cfg.heapPages :=
    card_window_filter_le _
  rw [hc.priv, hc.shared, hc.base]
  refine ⟨by omega, by omega, hb, fun q hq => ?_⟩
  rw [hc.zero q hq]
  exact_mod_cast card_window_filter_le _

/-- The statistics fit the C `int`s that hold them: with pages of at least 4 KiB, in every reachable
state `*allProcPrivatePageCount`, `*sharedPageCount`, `*baseCaseTotalPageCount` and each sibling's
`zeroPageCount` lie in `[0, 2^31)`, so the model's unbounded integers are the code's. -/
theorem Reachable.counters_fit_int (hr : RanksOK cfg n rank) (h : Reachable cfg n rank metric acts s)
    (hps : 4096 ≤ cfg.pageSize) :
    0 ≤ s.shm.allProcPrivatePageCount ∧ s.shm.allProcPrivatePageCount < 2 ^ 31 ∧
      0 ≤ s.shm.sharedPageCount ∧ s.shm.sharedPageCount < 2 ^ 31 ∧
      0 ≤ s.shm.baseCaseTotalPageCount ∧ s.shm.baseCaseTotalPageCount < 2 ^ 31 ∧
      ∀ q < n, 0 ≤ (s.procs q).zeroPageCount ∧ (s.procs q).zeroPageCount < 2 ^ 31 := by
  have hc := (h.inv hr).counted
  obtain ⟨hpriv, hshared, hbase, hzero⟩ := hc.bounds
  have hH : cfg.heapPages ≤ 786432 := (Nat.div_le_div_left hps (by decide)).trans (by decide)
  have hn : n ≤ 16 := hr.le_numProc.trans (by rcases cfg.numProc_eq with h | h <;> omega)
  have hnH : (n : Int) * cfg.heapPages ≤ 16 * 786432 := by exact_mod_cast Nat.mul_le_mul hn hH
  -- each statistic is a count of pages, so it is not negative
  have hlow : 0 ≤ s.shm.allProcPrivatePageCount ∧ 0 ≤ s.shm.sharedPageCount ∧
      0 ≤ s.shm.baseCaseTotalPageCount := by
    rw [hc.priv, hc.shared, hc.base]; exact ⟨by positivity, by positivity, by positivity⟩
  refine ⟨hlow.1, by omega, hlow.2.1, by omega, hlow.2.2, by omega, fun q hq => ?_⟩
  have := hzero q hq
  rw [hc.zero q hq] at this ⊢
  exact ⟨by positivity, by omega⟩

theorem counters_fit_int_storeProgram :
    ∃ s, Reachable Config.page4k 2 id (fun _ => .threshold) storeProgram s ∧
      s.shm.allProcPrivatePageCount < 2 ^ 31 ∧ s.shm.sharedPageCount < 2 ^ 31 := by
  obtain ⟨s, h, -⟩ := storeProgram_reachable
  obtain ⟨-, h₁, -, h₂, -⟩ := Reachable.counters_fit_int ranksOK_page4k h le_rfl
  exact ⟨s, h, h₁, h₂⟩

end Bounds

/-! ## Runs -/

section Runs

variable {env : MapEnv} {cfg : Config} {s s' : Node}

/-- One action: a write fault adds at most one page, any other action adds none. -/
theorem step_footprint {a : Action} (h : step env cfg s a = some s') :
    s'.shm.footprint ≤ s.shm.footprint + if a.isFault then 1 else 0 := by
  cases a with
  | malloc q sz base => cases h; simp [Action.isFault]
  | free q ptr =>
    cases h
    exact (shmFreeWrapper_footprint ptr).trans (by simp [Action.isFault])
  | fault q i =>
    rw [step_fault] at h
    obtain ⟨⟨p, shm⟩, h₁, h⟩ := Option.bind_eq_some.1 h
    cases h
    simpa [Action.isFault] using (sigSegvHandler_footprint h₁).2
  | store q i o v =>
    rw [step_store] at h
    obtain ⟨⟨p, shm⟩, h₁, h⟩ := Option.bind_eq_some.1 h
    cases h
    simpa [Action.isFault] using (storeByte_footprint h₁).le
  | mergeNode q key =>
    rw [step_mergeNode] at h
    obtain ⟨⟨p, shm⟩, h₁, h⟩ := Option.bind_eq_some.1 h
    cases h
    simpa [Action.isFault] using mergeNode2_footprint h₁
  | mergePage q i =>
    simp only [step, Option.bind_eq_bind] at h
    obtain ⟨⟨p, shm, r⟩, h₁, h⟩ := Option.bind_eq_some.1 h
    cases h
    have := mergePages_footprint h₁
    simp only [Action.isFault, Node.setProc_shm]
    omega

/-- The page footprint grows only on write faults: after any actions from any node, whichever
mapping calls fail, it has grown by at most the number of write faults among them. -/
theorem steps_footprint_le {acts : List Action} (h : steps env cfg s acts = some s') :
    s'.shm.footprint ≤ s.shm.footprint + acts.countP Action.isFault := by
  induction acts generalizing s with
  | nil => cases h; simp
  | cons a acts ih =>
    rw [steps, List.foldlM_cons, Option.bind_eq_bind] at h
    obtain ⟨s₁, h₁, h⟩ := Option.bind_eq_some.1 h
    have h1 := step_footprint h₁
    have h2 := ih h
    rw [List.countP_cons]
    split_ifs at h1 ⊢ <;> push_cast <;> omega

theorem steps_footprint_le_storeProgram :
    ∃ s, steps MapEnv.ok Config.page4k (Node.init 2 id fun _ => .threshold) storeProgram = some s ∧
      s.shm.footprint ≤ 194 := by
  obtain ⟨s, h, -⟩ := storeProgram_reachable
  exact ⟨s, h.steps, (steps_footprint_le h.steps).trans (by decide)⟩

end Runs

end SbllMalloc.SharedHeap
