import SbllMalloc.SharedHeap.Footprint

/-!
# Equal pages converge on one frame

What the library is for: siblings holding equal copies of a heap page end up mapping one frame of
the shared file. Both merge paths do it. `mergePages_onto` is `MergePages`, which `MergeByBUFFERED`
calls page by page, on a private page equal to `c` when nobody holds the page's frame yet or the
frame already holds `c`: the page is mapped read-only onto the frame and the sibling's holder bit
is set. The count it returns, one when the page joins other holders and none when its sibling is
the first, is what the footprint falls by (`mergePages_footprint`). `mergeRef_onto` is the same
for a page of a region that `MergeManyPages` walks, which `MergeNode2` runs on the dirty regions
for `THRESHOLD` and `ALLOC_FREQUENCY`, when the page is not blank (a blank page goes to the zero
page instead); the earlier pages of the region leave the page as it was (`mergePageRef_local`).

`Reachable.mergePages_step` and `Reachable.mergeNode_step` are these calls as steps of the node
from any reachable state, and the `_run` lemmas chain them over a list of distinct siblings.
`Reachable.mergePages_converge` and `Reachable.mergeNode_converge` read the end of the run: every
sibling of the list maps frame `j`, holds it and reads `c` there, and the other siblings are as
they were. Under `BUFFERED` the footprint is exact too: the `k` private copies have become one
frame, or joined the frame already holding `c`, so it fell by `k - 1`, or by `k`.

Who holds a frame is what the holder table says: in every reachable state a sibling's bit for
frame `i` is set exactly when it maps its page `i` onto the frame (`Inv.held_iff_mapped`), so
`CountSharingProcs`, which `SigSegvHandler` and `MergePages` read, counts exactly the siblings
that share the frame (`Reachable.countSharingProcs_eq_card`).
-/

namespace SbllMalloc.SharedHeap

/-! ## Who holds a frame -/

section Holders

variable {cfg : Config} {n : Nat} {A : Pass} {s : Node}

/-- A sibling holds frame `i` exactly when its page `i` is mapped read-only onto it. -/
theorem Inv.held_iff_mapped (hs : Inv cfg n A s) {q : Nat} (hq : q < n) (i : Nat) :
    (s.procs q).Held s.shm.sharingProcessesInfo i = true ↔ (s.procs q).mem i = .file i false := by
  by_cases hl : (s.procs q).Live i
  · have hls := hs.liveState hq hl
    refine ⟨hls.mem_of_held, fun hm => ?_⟩
    rcases hls.mapping with ⟨_, _, he⟩ | he | ⟨-, hh⟩
    · rw [hm] at he; cases he
    · -- page `0` is no page of a region
      rw [hm] at he; have := (hs.window hq hl).2; cases he; omega
    · exact hh
  · obtain ⟨-, -, hh, hm⟩ := ((hs.sib q hq).pages i).2 hl
    simp [hh, hm]

/-- The set bits of an entry are the holder indices of the siblings that hold the frame. -/
theorem Inv.pop_eq_card (hs : Inv cfg n A s) (i : Nat) :
    pop (s.shm.sharingProcessesInfo i) =
      ((Finset.range n).filter fun q => (s.procs q).Held s.shm.sharingProcessesInfo i = true).card := by
  have hinj : Set.InjOn (fun q => (s.procs q).myRank)
      ((Finset.range n).filter fun q => (s.procs q).Held s.shm.sharingProcessesInfo i = true) :=
    fun q hq q' hq' he => hs.rank_inj q (Finset.mem_range.1 (Finset.mem_filter.1 hq).1) q'
      (Finset.mem_range.1 (Finset.mem_filter.1 hq').1) he
  rw [pop_eq_sum cfg.numProc _ (hs.entries i), ← Finset.card_filter,
    ← Finset.card_image_of_injOn hinj]
  congr 1
  ext b
  simp only [Finset.mem_filter, Finset.mem_range, Finset.mem_image, Proc.Held]
  constructor
  · rintro ⟨-, hb⟩
    obtain ⟨q, hq, rfl⟩ := hs.holders i b hb
    exact ⟨q, ⟨hq, hb⟩, rfl⟩
  · rintro ⟨q, ⟨hq, hb⟩, rfl⟩
    exact ⟨hs.rank_lt q hq, hb⟩

end Holders

section Counts

variable {cfg : Config} {n : Nat} {rank : Nat → Nat} {metric : Nat → MergeMetric}
  {acts : List Action} {s : Node}

open Classical in
/-- `CountSharingProcs` is exact: in every reachable state it counts, for every frame, the
siblings that map their page onto that frame. -/
theorem Reachable.countSharingProcs_eq_card (hr : RanksOK cfg n rank)
    (h : Reachable cfg n rank metric acts s) (i : Nat) :
    countSharingProcs s.shm.sharingProcessesInfo i =
      ((Finset.range n).filter fun q => (s.procs q).mem i = Mapping.file i false).card := by
  have hs := h.inv hr
  rw [countSharingProcs_eq, hs.pop_eq_card]
  exact congrArg Finset.card (Finset.filter_congr fun q hq =>
    hs.held_iff_mapped (Finset.mem_range.1 hq) i)

open Classical in
theorem countSharingProcs_eq_card_storeProgram :
    ∃ s, Reachable Config.page4k 2 id (fun _ => .threshold) storeProgram s ∧
      countSharingProcs s.shm.sharingProcessesInfo 1 =
        ((Finset.range 2).filter fun q => (s.procs q).mem 1 = Mapping.file 1 false).card := by
  obtain ⟨s, h, -⟩ := storeProgram_reachable
  exact ⟨s, h, Reachable.countSharingProcs_eq_card ranksOK_page4k h 1⟩

end Counts

section Page

variable {cfg : Config} {p : Proc} {shm : Shm} {j : Nat} {c c' : Page}

theorem comparePages_symm {pageSize : Nat} {a b : Page} (h : comparePages pageSize a b = true) :
    comparePages pageSize b a = true :=
  comparePages_iff.2 fun o ho => (comparePages_iff.1 h o ho).symm

theorem comparePages_trans {pageSize : Nat} {a b d : Page} (h : comparePages pageSize a b = true)
    (h' : comparePages pageSize b d = true) : comparePages pageSize a d = true :=
  comparePages_iff.2 fun o ho => (comparePages_iff.1 h o ho).trans (comparePages_iff.1 h' o ho)

/-- Another sibling's holder bit makes the entry non-zero. -/
theorem ne_zero_of_isOtherSharing {r : Nat} {info : Nat → Nat} (hr : r < cfg.numProc)
    (hw : info j < 2 ^ cfg.numProc) (ho : isOtherSharing r info j = true) : info j ≠ 0 := by
  obtain ⟨k, -, hk⟩ := (isOtherSharing_iff (hr.trans_le cfg.numProc_le)
    (hw.trans_le (Nat.pow_le_pow_right (by norm_num) cfg.numProc_le))).1 ho
  exact (ne_zero_iff_exists_testBit _).2 ⟨k, hk⟩

/-- `MergePages` on a private page equal to `c` whose frame nobody holds, or holds with `c`. -/
theorem mergePages_onto (hr : p.myRank < cfg.numProc)
    (hw : shm.sharingProcessesInfo j < 2 ^ cfg.numProc) (hm : p.mem j = .anon c' true)
    (hc : comparePages cfg.pageSize c' c = true) (hh : p.Held shm.sharingProcessesInfo j = false)
    (hf : shm.sharingProcessesInfo j = 0 ∨ comparePages cfg.pageSize (shm.frames j) c = true) :
    ∃ shm', mergePages MapEnv.ok cfg p shm j =
        some ({ p with mem := Function.update p.mem j (.file j false) }, shm',
          if shm.sharingProcessesInfo j = 0 then 0 else 1) ∧
      shm'.sharingProcessesInfo = setSharingBit cfg.numProc p.myRank shm.sharingProcessesInfo j ∧
      comparePages cfg.pageSize (shm'.frames j) c = true := by
  have hcont : (p.mem j).content shm.frames = some c' := by rw [hm]; rfl
  cases ho : isOtherSharing p.myRank shm.sharingProcessesInfo j
  · -- nobody holds the frame: the page moves there
    have h0 := eq_zero_of_not_isOtherSharing (hr.trans_le cfg.numProc_le)
      (hw.trans_le (Nat.pow_le_pow_right (by norm_num) cfg.numProc_le)) hh ho
    exact ⟨_, by rw [mergePages_publish cfg p shm hh ho hcont, if_pos h0], rfl, by simpa using hc⟩
  · -- the frame holds the same bytes: the page joins it
    have h0 := ne_zero_of_isOtherSharing hr hw ho
    have hfc := hf.resolve_left h0
    have heq := comparePages_trans hfc (comparePages_symm hc)
    exact ⟨_, by rw [mergePages_join cfg p shm hh ho hcont heq, if_neg h0], by simp [remapPage_eq],
      by simpa [remapPage_eq] using hfc⟩

/-- Page `j` of a merge state is mapped read-only onto frame `j` and held, and the frame
reads `c`. -/
def OnFrame (cfg : Config) (c : Page) (st : Proc × Shm × Nat) (j : Nat) : Prop :=
  st.1.mem j = .file j false ∧ st.1.Held st.2.1.sharingProcessesInfo j = true ∧
    comparePages cfg.pageSize (st.2.1.frames j) c = true

theorem OnFrame.of_agree {st st' : Proc × Shm × Nat} (h : PageAgree st st' j)
    (hr : st.1.myRank = st'.1.myRank) (ho : OnFrame cfg c st' j) : OnFrame cfg c st j := by
  simpa only [OnFrame, Proc.Held, h.mem, h.info, h.frame, hr] using ho

/-- The per-page merge of a private page equal to `c`, which is not blank, whose frame nobody
holds or holds with `c`. -/
theorem mergePageRef_onto {st : Proc × Shm × Nat} (hr : st.1.myRank < cfg.numProc)
    (hw : st.2.1.sharingProcessesInfo j < 2 ^ cfg.numProc) (hi : st.1.initializedPagesBV j = true)
    (hz : st.1.zeroPagesBV j = false) (hh : st.1.Held st.2.1.sharingProcessesInfo j = false)
    (hm : st.1.mem j = .anon c' true) (hc : comparePages cfg.pageSize c' c = true)
    (hc0 : comparePages cfg.pageSize c blankPage = false)
    (hf : st.2.1.sharingProcessesInfo j = 0 ∨ comparePages cfg.pageSize (st.2.1.frames j) c = true) :
    OnFrame cfg c (mergePageRef cfg st j) j := by
  obtain ⟨p, shm, cnt⟩ := st
  simp only at hr hw hi hz hh hm hf
  have hbit : (setSharingBit cfg.numProc p.myRank shm.sharingProcessesInfo j j).testBit p.myRank =
      true := by simp [setSharingBit_testBit hw hr]
  have hc0' : comparePages cfg.pageSize c' blankPage = false := by
    rw [← Bool.not_eq_true] at hc0 ⊢
    exact fun h' => hc0 (comparePages_trans (comparePages_symm hc) h')
  rw [mergePageRef_priv hi hz hh hm, hc0', ← isOtherSharing_eq_othersHold cfg hr hw]
  cases ho : isOtherSharing p.myRank shm.sharingProcessesInfo j
  · -- nobody holds the frame: the page moves there
    simp only [Bool.not_false, Bool.false_eq_true, ↓reduceIte]
    exact ⟨by simp [publishStep], hbit, by simpa [publishStep, hm] using hc⟩
  · -- the frame holds the same bytes: the page joins it
    have hfc := hf.resolve_left (ne_zero_of_isOtherSharing hr hw ho)
    simp only [Bool.not_true, Bool.false_eq_true, comparePages_trans hfc (comparePages_symm hc),
      ↓reduceIte]
    exact ⟨by simp [joinStep], by simpa [joinStep, remapPage_eq, Proc.Held] using hbit,
      by simpa [joinStep, remapPage_eq] using hfc⟩

/-- The merge of a region, on its page `j`: the pages before `j` leave it as it was, the merge of
`j` puts it onto its frame, and the pages after `j` leave it there. -/
theorem mergeRef_onto (hready : MergeReady cfg p shm) {startAddr size : Nat}
    (hj : InRange startAddr size j) (hi : p.initializedPagesBV j = true)
    (hz : p.zeroPagesBV j = false) (hh : p.Held shm.sharingProcessesInfo j = false)
    (hm : p.mem j = .anon c' true) (hc : comparePages cfg.pageSize c' c = true)
    (hc0 : comparePages cfg.pageSize c blankPage = false)
    (hf : shm.sharingProcessesInfo j = 0 ∨ comparePages cfg.pageSize (shm.frames j) c = true) :
    OnFrame cfg c (mergeRef cfg p shm startAddr size) j := by
  obtain ⟨l₁, l₂, hl⟩ := List.append_of_mem (List.mem_range'_1.2 hj)
  have hnd := hl ▸ List.nodup_range' startAddr size
  have h₁ : j ∉ l₁ := fun h => (List.nodup_append.1 hnd).2.2 h (List.mem_cons_self _ _)
  have h₂ : j ∉ l₂ := (List.nodup_cons.1 (List.nodup_append.1 hnd).2.1).1
  rw [mergeRef, hl, List.foldl_append, List.foldl_cons]
  obtain ⟨hr₁, ha₁⟩ := (mergePageRef_local cfg).foldl l₁ (p, shm, 0) h₁
  obtain ⟨hr₂, ha₂⟩ := (mergePageRef_local cfg).foldl l₂
    (mergePageRef cfg (l₁.foldl (mergePageRef cfg) (p, shm, 0)) j) h₂
  refine OnFrame.of_agree ha₂ hr₂ (mergePageRef_onto (by rw [hr₁]; exact hready.rank)
    (by rw [ha₁.info]; exact hready.entries j) (by rw [ha₁.init]; exact hi)
    (by rw [ha₁.zero]; exact hz) (by rw [Proc.Held, ha₁.info, hr₁]; exact hh)
    (by rw [ha₁.mem]; exact hm) hc hc0 (by rw [ha₁.info, ha₁.frame]; exact hf))

end Page

section Node

variable {cfg : Config} {n : Nat} {rank : Nat → Nat} {metric : Nat → MergeMetric}

/-- The merge of a private page equal to `c` by a `BUFFERED` sibling, as a step of the node. -/
theorem Reachable.mergePages_step (hr : RanksOK cfg n rank) {acts : List Action} {s : Node}
    (h : Reachable cfg n rank metric acts s) {q j : Nat} {c c' : Page} (hq : q < n)
    (hb : (s.procs q).mergeMetric = .buffered) (hm : (s.procs q).mem j = .anon c' true)
    (hc : comparePages cfg.pageSize c' c = true)
    (hf : s.shm.sharingProcessesInfo j = 0 ∨ comparePages cfg.pageSize (s.shm.frames j) c = true) :
    ∃ shm', Reachable cfg n rank metric (acts ++ [.mergePage q j])
        (s.setProc q { s.procs q with mem := Function.update (s.procs q).mem j (.file j false) }
          shm') ∧
      shm'.sharingProcessesInfo =
        setSharingBit cfg.numProc (s.procs q).myRank s.shm.sharingProcessesInfo j ∧
      comparePages cfg.pageSize (shm'.frames j) c = true ∧
      shm'.footprint + (if s.shm.sharingProcessesInfo j = 0 then 0 else 1) = s.shm.footprint := by
  have hs := h.inv hr
  obtain ⟨-, -, hi, -, hh⟩ :=
    (hs.liveState hq (hs.live_of_mapped hq (by rw [hm]; exact nofun))).of_writable (by rw [hm]; rfl)
  obtain ⟨shm', hmp, hinfo, hframe⟩ := mergePages_onto (hs.rank_lt q hq) (hs.entries j) hm hc hh hf
  have hstep : SharedHeap.step MapEnv.ok cfg s (.mergePage q j) =
      some (s.setProc q { s.procs q with mem := Function.update (s.procs q).mem j (.file j false) }
        shm') := by
    simp [SharedHeap.step, hmp]
  exact ⟨shm', h.step _ ⟨hq, hb, hi⟩ hstep, hinfo, hframe, (mergePages_footprint hmp).1⟩

/-- `MergePages` on page `j` by each sibling of `qs` in turn, each holding a private copy of `c`:
the pages of `qs` move onto frame `j`, whose bytes stay `c`, and nothing else moves. -/
theorem Reachable.mergePages_run (hr : RanksOK cfg n rank) {qs : List Nat} (hnd : qs.Nodup)
    {acts : List Action} {s : Node} (h : Reachable cfg n rank metric acts s) {j : Nat} {c : Page}
    (hpriv : ∀ q ∈ qs, q < n ∧ (s.procs q).mergeMetric = .buffered ∧
      ∃ c', (s.procs q).mem j = .anon c' true ∧ comparePages cfg.pageSize c' c = true)
    (hf : s.shm.sharingProcessesInfo j = 0 ∨ comparePages cfg.pageSize (s.shm.frames j) c = true) :
    ∃ s', Reachable cfg n rank metric (acts ++ qs.map fun q => .mergePage q j) s' ∧
      (∀ q, s'.procs q = if q ∈ qs then
        { s.procs q with mem := Function.update (s.procs q).mem j (.file j false) }
        else s.procs q) ∧
      (∀ b, (s.shm.sharingProcessesInfo j).testBit b = true →
        (s'.shm.sharingProcessesInfo j).testBit b = true) ∧
      (∀ q ∈ qs, (s'.shm.sharingProcessesInfo j).testBit (s.procs q).myRank = true) ∧
      (qs ≠ [] ∨ comparePages cfg.pageSize (s.shm.frames j) c = true →
        comparePages cfg.pageSize (s'.shm.frames j) c = true) ∧
      s'.shm.footprint + qs.length =
        s.shm.footprint + if s.shm.sharingProcessesInfo j = 0 ∧ qs ≠ [] then 1 else 0 := by
  induction qs generalizing acts s with
  | nil =>
    exact ⟨s, by simpa using h, fun q => by simp, fun _ hb => hb, fun _ hq => absurd hq (List.not_mem_nil _),
      fun h' => h'.resolve_left (by simp), by simp⟩
  | cons q qs ih =>
    obtain ⟨hq, hb, c', hm, hc⟩ := hpriv q (List.mem_cons_self _ _)
    obtain ⟨hnq, hnd⟩ := List.nodup_cons.1 hnd
    have hs := h.inv hr
    obtain ⟨shm₁, h₁, hinfo, hframe, hfp⟩ := h.mergePages_step hr hq hb hm hc hf
    have hother : ∀ q' ∈ qs, ∀ (p : Proc) (shm : Shm), (s.setProc q p shm).procs q' = s.procs q' :=
      fun q' hq' p shm => s.setProc_other p shm fun he => hnq (he ▸ hq')
    -- the holder bits after the first merge: the old ones and the first sibling's
    have hbit : ∀ b, (shm₁.sharingProcessesInfo j).testBit b =
        ((s.shm.sharingProcessesInfo j).testBit b || decide (b = (s.procs q).myRank)) := by
      intro b; rw [hinfo, setSharingBit_testBit (hs.entries j) (hs.rank_lt q hq)]; simp
    obtain ⟨s', h', hprocs, hmono, hheld, hframe', hfp'⟩ := ih hnd h₁
      (fun q' hq' => by rw [hother q' hq']; exact hpriv q' (List.mem_cons_of_mem _ hq'))
      (.inr hframe)
    have hne : shm₁.sharingProcessesInfo j ≠ 0 :=
      (ne_zero_iff_exists_testBit _).2 ⟨(s.procs q).myRank, by rw [hbit]; simp⟩
    refine ⟨s', by simpa using h', fun q' => ?_, fun b hb' => hmono b (by simp [hbit, hb']),
      fun q' hq' => ?_, fun _ => hframe' (.inr hframe), ?_⟩
    · rw [hprocs q']
      by_cases he : q' = q
      · subst he; simp [hnq]
      · simp [he, Node.setProc_other _ _ _ he]
    · rcases List.mem_cons.1 hq' with rfl | hq'
      · exact hmono _ (by simp [hbit])
      · simpa [hother q' hq'] using hheld q' hq'
    · simp only [Node.setProc_shm, hne, false_and, ↓reduceIte, add_zero] at hfp'
      simp only [List.length_cons, Nat.cast_add, Nat.cast_one, ne_eq, reduceCtorEq,
        not_false_eq_true, and_true]
      split_ifs at hfp ⊢ <;> omega

/-- Equal private copies of a page converge on one frame. From any reachable state, let the
distinct `BUFFERED` siblings `qs` each hold a private page `j` whose bytes are `c`, with frame `j`
held by nobody or holding `c`. Their `MergePages` calls on `j`, in any order, are legal steps, after
which each maps frame `j` read-only, holds it, and reads `c` there; the other siblings are
untouched; and the footprint fell by one per copy, less the one frame a first holder adds. -/
theorem Reachable.mergePages_converge (hr : RanksOK cfg n rank) {acts : List Action} {s : Node}
    (h : Reachable cfg n rank metric acts s) {qs : List Nat} (hnd : qs.Nodup) (hne : qs ≠ [])
    {j : Nat} {c : Page}
    (hpriv : ∀ q ∈ qs, q < n ∧ (s.procs q).mergeMetric = .buffered ∧
      ∃ c', (s.procs q).mem j = .anon c' true ∧ comparePages cfg.pageSize c' c = true)
    (hf : s.shm.sharingProcessesInfo j = 0 ∨ comparePages cfg.pageSize (s.shm.frames j) c = true) :
    ∃ s', Reachable cfg n rank metric (acts ++ qs.map fun q => .mergePage q j) s' ∧
      (∀ q ∈ qs, (s'.procs q).mem j = .file j false ∧
        (s'.procs q).Held s'.shm.sharingProcessesInfo j = true ∧
        ∀ o < cfg.pageSize, s'.readByte q j o = some (c o)) ∧
      (∀ q, q ∉ qs → s'.procs q = s.procs q) ∧
      s'.shm.footprint + qs.length =
        s.shm.footprint + if s.shm.sharingProcessesInfo j = 0 then 1 else 0 := by
  obtain ⟨s', h', hprocs, -, hheld, hframe, hfp⟩ := h.mergePages_run hr hnd hpriv hf
  have hc := comparePages_iff.1 (hframe (.inl hne))
  refine ⟨s', h', fun q hq => ?_, fun q hq => by rw [hprocs q, if_neg hq], by simpa [hne] using hfp⟩
  have hmem : (s'.procs q).mem j = .file j false := by rw [hprocs q, if_pos hq]; simp
  refine ⟨hmem, ?_, fun o ho => by simp [Node.readByte, hmem, hc o ho]⟩
  rw [hprocs q, if_pos hq]
  exact hheld q hq

/-- Two siblings fault on their own copy of the same blank page, and both merge it. -/
def twoCopiesProgram : List Action :=
  [.malloc 0 4096 1, .malloc 1 4096 1, .fault 0 1, .fault 1 1]

theorem mergePages_converge_twoCopies :
    ∃ s, Reachable Config.page4k 2 id (fun _ => .buffered) twoCopiesProgram s ∧
      ∃ s', Reachable Config.page4k 2 id (fun _ => .buffered)
          (twoCopiesProgram ++ [.mergePage 0 1, .mergePage 1 1]) s' ∧
        (∀ q ∈ [0, 1], (s'.procs q).mem 1 = .file 1 false ∧
          (s'.procs q).Held s'.shm.sharingProcessesInfo 1 = true ∧
          ∀ o < Config.page4k.pageSize, s'.readByte q 1 o = some (blankPage o)) ∧
        s'.shm.footprint + 1 = s.shm.footprint := by
  obtain ⟨s, h, h0, h1, hb0, hb1, hfree⟩ : ∃ s, Reachable Config.page4k 2 id (fun _ => .buffered)
      twoCopiesProgram s ∧ (s.procs 0).mem 1 = .anon blankPage true ∧
      (s.procs 1).mem 1 = .anon blankPage true ∧ (s.procs 0).mergeMetric = .buffered ∧
      (s.procs 1).mergeMetric = .buffered ∧ s.shm.sharingProcessesInfo 1 = 0 := by
    have h₀ : Reachable Config.page4k 2 id (fun _ => .buffered) [] _ := .init
    have h₁ := h₀.step (.malloc 0 4096 1) ⟨by decide, le_rfl, by decide, fun _ _ => rfl⟩ rfl
    have h₂ := h₁.step (.malloc 1 4096 1) ⟨by decide, le_rfl, by decide, fun _ _ => rfl⟩ rfl
    have h₃ := h₂.step (.fault 0 1) ⟨by decide, rfl⟩ rfl
    exact ⟨_, h₃.step (.fault 1 1) ⟨by decide, rfl⟩ rfl, rfl, rfl, rfl, rfl, rfl⟩
  obtain ⟨s', h', hq, -, hfp⟩ := Reachable.mergePages_converge ranksOK_page4k h
    (show [0, 1].Nodup by decide) (j := 1) (c := blankPage) (by decide)
    (fun q hq => by
      rcases List.mem_pair.1 hq with rfl | rfl
      · exact ⟨by decide, hb0, blankPage, h0, comparePages_self _ _⟩
      · exact ⟨by decide, hb1, blankPage, h1, comparePages_self _ _⟩)
    (.inl hfree)
  refine ⟨s, h, s', h', hq, ?_⟩
  rw [hfree, if_pos rfl] at hfp
  simp only [List.length_cons, List.length_nil] at hfp
  push_cast at hfp
  omega

/-- The merge of a dirty region by a `THRESHOLD` or `ALLOC_FREQUENCY` sibling, as a step of the
node, on a private page of the region equal to `c`, which is not blank. -/
theorem Reachable.mergeNode_step (hr : RanksOK cfg n rank) {acts : List Action} {s : Node}
    (h : Reachable cfg n rank metric acts s) {q key size j : Nat} {c c' : Page} (hq : q < n)
    (hmet : (s.procs q).mergeMetric = .threshold ∨ (s.procs q).mergeMetric = .allocFrequency)
    (ha : (s.procs q).allocRecord key = some size) (hd : (s.procs q).dirty key = true)
    (hj : InRange key size j) (hm : (s.procs q).mem j = .anon c' true)
    (hc : comparePages cfg.pageSize c' c = true) (hc0 : comparePages cfg.pageSize c blankPage = false)
    (hf : s.shm.sharingProcessesInfo j = 0 ∨ comparePages cfg.pageSize (s.shm.frames j) c = true) :
    ∃ s', Reachable cfg n rank metric (acts ++ [.mergeNode q key]) s' ∧
      (s'.procs q).mem j = .file j false ∧ comparePages cfg.pageSize (s'.shm.frames j) c = true ∧
      ∀ q', q' ≠ q → s'.procs q' = s.procs q' := by
  have hs := h.inv hr
  have hready := hs.mergeReady hq
  obtain ⟨-, -, hi, hz, hh⟩ :=
    (hs.liveState hq (hs.live_of_mapped hq (by rw [hm]; exact nofun))).of_writable (by rw [hm]; rfl)
  obtain ⟨hmem, -, hframe⟩ := mergeRef_onto hready hj hi hz hh hm hc hc0 hf
  have hstep : SharedHeap.step MapEnv.ok cfg s (.mergeNode q key) = some (s.setProc q
      { (mergeRef cfg (s.procs q) s.shm key size).1 with
        dirty := Function.update (mergeRef cfg (s.procs q) s.shm key size).1.dirty key false }
      (mergeRef cfg (s.procs q) s.shm key size).2.1) := by
    rw [step_mergeNode, mergeNode2_dirty _ _ _ ha hd, hready.mergeManyPages_eq]; rfl
  exact ⟨_, h.step _ ⟨hq, hmet, by simp [ha]⟩ hstep, by simpa using hmem, hframe,
    fun q' hq' => s.setProc_other _ _ hq'⟩

/-- `MergeNode2` by each sibling of `qs` in turn on its dirty region `key q` holding a private copy
of `c`, which is not blank, at page `j`: the pages of `qs` move onto frame `j`, whose bytes stay
`c`, and the other siblings do not move. -/
theorem Reachable.mergeNode_run (hr : RanksOK cfg n rank) (key : Nat → Nat) {qs : List Nat}
    (hnd : qs.Nodup) {acts : List Action} {s : Node} (h : Reachable cfg n rank metric acts s)
    {j : Nat} {c : Page} (hc0 : comparePages cfg.pageSize c blankPage = false)
    (hpriv : ∀ q ∈ qs, q < n ∧
      ((s.procs q).mergeMetric = .threshold ∨ (s.procs q).mergeMetric = .allocFrequency) ∧
      (∃ size, (s.procs q).allocRecord (key q) = some size ∧ InRange (key q) size j) ∧
      (s.procs q).dirty (key q) = true ∧
      ∃ c', (s.procs q).mem j = .anon c' true ∧ comparePages cfg.pageSize c' c = true)
    (hf : s.shm.sharingProcessesInfo j = 0 ∨ comparePages cfg.pageSize (s.shm.frames j) c = true) :
    ∃ s', Reachable cfg n rank metric (acts ++ qs.map fun q => .mergeNode q (key q)) s' ∧
      (∀ q ∈ qs, (s'.procs q).mem j = .file j false) ∧ (∀ q, q ∉ qs → s'.procs q = s.procs q) ∧
      (qs ≠ [] ∨ comparePages cfg.pageSize (s.shm.frames j) c = true →
        comparePages cfg.pageSize (s'.shm.frames j) c = true) := by
  induction qs generalizing acts s with
  | nil =>
    exact ⟨s, by simpa using h, fun _ hq => absurd hq (List.not_mem_nil _), fun _ _ => rfl,
      fun h' => h'.resolve_left (by simp)⟩
  | cons q qs ih =>
    obtain ⟨hq, hmet, ⟨size, ha, hj⟩, hd, c', hm, hc⟩ := hpriv q (List.mem_cons_self _ _)
    obtain ⟨hnq, hnd⟩ := List.nodup_cons.1 hnd
    obtain ⟨s₁, h₁, hmem, hframe, hother⟩ := h.mergeNode_step hr hq hmet ha hd hj hm hc hc0 hf
    obtain ⟨s', h', hmem', hother', hframe'⟩ := ih hnd h₁
      (fun q' hq' => by
        rw [hother q' fun he => hnq (he ▸ hq')]; exact hpriv q' (List.mem_cons_of_mem _ hq'))
      (.inr hframe)
    refine ⟨s', by simpa using h', fun q' hq' => ?_, fun q' hq' => ?_, fun _ => hframe' (.inr hframe)⟩
    · rcases List.mem_cons.1 hq' with rfl | hq'
      · rw [hother' q' hnq]; exact hmem
      · exact hmem' q' hq'
    · rw [hother' q' fun h => hq' (List.mem_cons_of_mem _ h),
        hother q' fun he => hq' (he ▸ List.mem_cons_self _ _)]

/-- Equal private copies of a page converge on one frame under `THRESHOLD` and
`ALLOC_FREQUENCY` too. From any reachable state, let the distinct siblings `qs`, each merging by
one of them, hold a private page `j` whose bytes are `c`, not blank, in a dirty region at
`key q`, with frame `j` held by nobody or holding `c`. Their `MergeNode2` calls on those regions,
one after the other, are legal steps, after which each maps frame `j` read-only, holds it, and
reads `c` there, and the other siblings are untouched. -/
theorem Reachable.mergeNode_converge (hr : RanksOK cfg n rank) {acts : List Action} {s : Node}
    (h : Reachable cfg n rank metric acts s) (key : Nat → Nat) {qs : List Nat} (hnd : qs.Nodup)
    (hne : qs ≠ []) {j : Nat} {c : Page} (hc0 : comparePages cfg.pageSize c blankPage = false)
    (hpriv : ∀ q ∈ qs, q < n ∧
      ((s.procs q).mergeMetric = .threshold ∨ (s.procs q).mergeMetric = .allocFrequency) ∧
      (∃ size, (s.procs q).allocRecord (key q) = some size ∧ InRange (key q) size j) ∧
      (s.procs q).dirty (key q) = true ∧
      ∃ c', (s.procs q).mem j = .anon c' true ∧ comparePages cfg.pageSize c' c = true)
    (hf : s.shm.sharingProcessesInfo j = 0 ∨ comparePages cfg.pageSize (s.shm.frames j) c = true) :
    ∃ s', Reachable cfg n rank metric (acts ++ qs.map fun q => .mergeNode q (key q)) s' ∧
      (∀ q ∈ qs, (s'.procs q).mem j = .file j false ∧
        (s'.procs q).Held s'.shm.sharingProcessesInfo j = true ∧
        ∀ o < cfg.pageSize, s'.readByte q j o = some (c o)) ∧
      ∀ q, q ∉ qs → s'.procs q = s.procs q := by
  obtain ⟨s', h', hmem, hother, hframe⟩ := h.mergeNode_run hr key hnd hc0 hpriv hf
  have hs' := h'.inv hr
  have hc := comparePages_iff.1 (hframe (.inl hne))
  refine ⟨s', h', fun q hq => ⟨hmem q hq, ?_, fun o ho => by simp [Node.readByte, hmem q hq, hc o ho]⟩,
    hother⟩
  -- a page mapped onto its own frame, which is not frame `0`, is held
  obtain ⟨hq', -, ⟨size, ha, hj⟩, -⟩ := hpriv q hq
  have hj0 : j ≠ 0 := by
    have := ((h.inv hr).sib q hq').regions.bounds _ _ ha; unfold InRange at hj; omega
  rcases (hs'.liveState hq' (hs'.live_of_mapped hq' (by rw [hmem q hq]; exact nofun))).mapping with
    ⟨_, _, he⟩ | he | ⟨-, hheld⟩
  · rw [hmem q hq] at he; cases he
  · rw [hmem q hq] at he; exact absurd (Mapping.file.inj he).1 hj0
  · exact hheld

/-- Two `THRESHOLD` siblings store the same byte on their own copy of one page. -/
def twoStoresProgram : List Action :=
  [.malloc 0 4096 1, .malloc 1 4096 1, .fault 0 1, .fault 1 1, .store 0 1 0 7, .store 1 1 0 7]

theorem mergeNode_converge_twoStores :
    ∃ s, Reachable Config.page4k 2 id (fun _ => .threshold) twoStoresProgram s ∧
      ∃ s', Reachable Config.page4k 2 id (fun _ => .threshold)
          (twoStoresProgram ++ [.mergeNode 0 1, .mergeNode 1 1]) s' ∧
        ∀ q ∈ [0, 1], (s'.procs q).mem 1 = .file 1 false ∧
          (s'.procs q).Held s'.shm.sharingProcessesInfo 1 = true ∧
          ∀ o < Config.page4k.pageSize,
            s'.readByte q 1 o = some (Function.update blankPage 0 7 o) := by
  obtain ⟨s, h, hm0, hm1, ha0, ha1, hd0, hd1, hb0, hb1, hfree⟩ : ∃ s,
      Reachable Config.page4k 2 id (fun _ => .threshold) twoStoresProgram s ∧
      (s.procs 0).mem 1 = .anon (Function.update blankPage 0 7) true ∧
      (s.procs 1).mem 1 = .anon (Function.update blankPage 0 7) true ∧
      (s.procs 0).allocRecord 1 = some 1 ∧ (s.procs 1).allocRecord 1 = some 1 ∧
      (s.procs 0).dirty 1 = true ∧ (s.procs 1).dirty 1 = true ∧
      (s.procs 0).mergeMetric = .threshold ∧ (s.procs 1).mergeMetric = .threshold ∧
      s.shm.sharingProcessesInfo 1 = 0 := by
    have h₀ : Reachable Config.page4k 2 id (fun _ => .threshold) [] _ := .init
    have h₁ := h₀.step (.malloc 0 4096 1) ⟨by decide, le_rfl, by decide, fun _ _ => rfl⟩ rfl
    have h₂ := h₁.step (.malloc 1 4096 1) ⟨by decide, le_rfl, by decide, fun _ _ => rfl⟩ rfl
    have h₃ := h₂.step (.fault 0 1) ⟨by decide, rfl⟩ rfl
    have h₄ := h₃.step (.fault 1 1) ⟨by decide, rfl⟩ rfl
    have h₅ := h₄.step (.store 0 1 0 7) ⟨by decide, rfl, by decide⟩ rfl
    exact ⟨_, h₅.step (.store 1 1 0 7) ⟨by decide, rfl, by decide⟩ rfl, rfl, rfl, rfl, rfl, rfl, rfl,
      rfl, rfl, rfl⟩
  obtain ⟨s', h', hq, -⟩ := Reachable.mergeNode_converge ranksOK_page4k h (fun _ => 1)
    (show [0, 1].Nodup by decide) (by decide) (j := 1)
    (comparePages_update_blank (o := 0) (v := 7) (by decide) (by decide))
    (fun q hq => by
      rcases List.mem_pair.1 hq with rfl | rfl
      · exact ⟨by decide, .inl hb0, ⟨1, ha0, by decide⟩, hd0, _, hm0, comparePages_self _ _⟩
      · exact ⟨by decide, .inl hb1, ⟨1, ha1, by decide⟩, hd1, _, hm1, comparePages_self _ _⟩)
    (.inl hfree)
  exact ⟨s, h, s', h', hq⟩

end Node

end SbllMalloc.SharedHeap
